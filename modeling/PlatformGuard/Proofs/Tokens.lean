import PlatformGuard.Json.Decode
import PlatformGuard.Proofs.Printable
import Mathlib.Data.List.TakeDrop

/-!
# Strings and numbers that are written can be scanned

A scanner that meets a token takes all of it and nothing else.  A text between quotes is scanned as the bytes
of the text, however its characters are escaped (`scanPieces_quoted`), and a number as its digits, where
something stands behind it that ends a value (`scanNumber_append`).
-/

namespace PlatformGuard.Json

/-! ### Characters and their bytes -/

/-- The UTF-8 form of characters. -/
def bytesOf (cs : List Char) : Bytes := cs.flatMap String.utf8EncodeChar

@[simp]
theorem bytesOf_nil : bytesOf [] = [] := rfl

@[simp]
theorem bytesOf_append (cs ds : List Char) : bytesOf (cs ++ ds) = bytesOf cs ++ bytesOf ds := by
  simp [bytesOf]

theorem bytesOf_cons (c : Char) (cs : List Char) :
    bytesOf (c :: cs) = String.utf8EncodeChar c ++ bytesOf cs := by
  simp [bytesOf]

theorem ofText_ofList (cs : List Char) : Bytes.ofText (String.ofList cs) = bytesOf cs := by
  simp [Bytes.ofText, bytesOf]

theorem toNat_byte {c : Char} (hc : c.toNat ≤ 0x7f) : (UInt8.ofNat c.toNat).toNat = c.toNat :=
  UInt8.toNat_ofNat_of_lt' (Nat.lt_of_le_of_lt hc (by decide))

theorem byte_inj {b c : Char} (hb : b.toNat ≤ 0x7f) (hc : c.toNat ≤ 0x7f)
    (h : UInt8.ofNat b.toNat = UInt8.ofNat c.toNat) : b = c := by
  rw [← Char.toNat_inj, ← toNat_byte hb, h, toNat_byte hc]

/-- A character of ASCII is one byte. -/
theorem bytesOf_cons_of_le {c : Char} (hc : c.toNat ≤ 0x7f) (cs : List Char) :
    bytesOf (c :: cs) = UInt8.ofNat c.toNat :: bytesOf cs := by
  rw [bytesOf_cons, Bytes.utf8EncodeChar_of_le hc]
  rfl

theorem toText?_ofText (s : String) : (Bytes.ofText s).toText? = some s := by
  have hbytes : ByteArray.mk (Bytes.ofText s).toArray = s.toByteArray := by
    rw [← String.ofList_toList (s := s), String.toByteArray_ofList, Bytes.ofText, String.toList_ofList]
    exact ByteArray.ext List.data_toByteArray.symm
  rw [Bytes.toText?, hbytes, String.fromUTF8?, dif_pos s.isValidUTF8]
  rfl

theorem textOf_ofText (s : String) : Scan.textOf (Bytes.ofText s) true = .ok s := by
  rw [Scan.textOf, toText?_ofText]
  rfl

theorem length_le_bytesOf (cs : List Char) : cs.length ≤ (bytesOf cs).length := by
  induction cs with
  | nil => simp
  | cons c cs ih =>
    have hc : 0 < (String.utf8EncodeChar c).length :=
      List.length_pos_of_ne_nil String.utf8EncodeChar_ne_nil
    rw [bytesOf_cons, List.length_append, List.length_cons]
    omega

/-- The bytes of a character that needs more than one are all high. -/
theorem high_of_mem_utf8EncodeChar {c : Char} (h : 0x7f < c.toNat) :
    ∀ b ∈ String.utf8EncodeChar c, 0x80 ≤ b := by
  have hbyte : ∀ n : Nat, 0x80 ≤ n → n < 256 → 0x80 ≤ UInt8.ofNat n := by
    intro n hlow hhigh
    have hn : (UInt8.ofNat n).toNat = n := UInt8.toNat_ofNat_of_lt' hhigh
    exact UInt8.le_iff_toNat_le.2 (by rw [hn]; exact hlow)
  unfold String.utf8EncodeChar
  simp only
  rw [if_neg (show ¬c.val.toNat ≤ 0x7f from Nat.not_le.2 h)]
  have hlast := hbyte (c.val.toNat % 64 + 128) (by omega) (by omega)
  have hsecond := hbyte (c.val.toNat / 64 % 64 + 128) (by omega) (by omega)
  have hthird := hbyte (c.val.toNat / 4096 % 64 + 128) (by omega) (by omega)
  have htwo := List.forall_mem_singleton.2 hlast
  have hthree := List.forall_mem_cons.2 ⟨hsecond, htwo⟩
  have hfour := List.forall_mem_cons.2 ⟨hthird, hthree⟩
  split
  · exact List.forall_mem_cons.2 ⟨hbyte _ (by omega) (by omega), htwo⟩
  · split
    · exact List.forall_mem_cons.2 ⟨hbyte _ (by omega) (by omega), hthree⟩
    · exact List.forall_mem_cons.2 ⟨hbyte _ (by omega) (by omega), hfour⟩

/-! ### Strings -/

/-- A byte that stands for itself inside quotes. -/
def IsPlain (b : UInt8) : Prop := b ≠ Mark.quote ∧ b ≠ Mark.backslash ∧ 0x20 ≤ b

/-- Puts pieces in front of what was scanned. -/
def behind (qs : List Piece) : List Piece × Bool × Bytes → List Piece × Bool × Bytes :=
  fun (ps, clean, s) => (qs ++ ps, clean, s)

theorem scanPieces_cons {b : UInt8} (hb : IsPlain b) (s : Bytes) :
    scanPieces (b :: s) = (scanPieces s).map (behind [.byte b]) := by
  obtain ⟨hq, hs, hc⟩ := hb
  rw [scanPieces.eq_def]
  split
  · contradiction
  · rename_i h
    exact absurd (List.cons.inj h).1 hq
  · rename_i h
    exact absurd (List.cons.inj h).1 hs
  · rename_i h
    exact absurd (List.cons.inj h).1 hs
  · rename_i h
    obtain ⟨rfl, rfl⟩ := List.cons.inj h
    simp only [hc, decide_true, Bool.true_and]
    rfl

theorem scanPieces_append {bs : Bytes} (hb : ∀ b ∈ bs, IsPlain b) (s : Bytes) :
    scanPieces (bs ++ s) = (scanPieces s).map (behind (bs.map .byte)) := by
  induction bs with
  | nil => exact Option.map_id'.symm
  | cons b bs ih =>
    rw [List.cons_append, scanPieces_cons (hb b List.mem_cons_self),
      ih fun c hc => hb c (List.mem_cons_of_mem b hc), Option.map_map]
    rfl

theorem assemble_append (bs : Bytes) (ps : List Piece) :
    assemble (bs.map .byte ++ ps) = bs ++ assemble ps := by
  induction bs with
  | nil => rfl
  | cons b bs ih => exact congrArg (b :: ·) ih

/-- A unit that is a character of ASCII is no surrogate. -/
theorem assemble_unit {n : Nat} (hn : n < 0x80) (ps : List Piece) :
    assemble (.unit n :: ps) = UInt8.ofNat n :: assemble ps := by
  have hhigh : isHighSurrogate n = false := by simp [isHighSurrogate]; omega
  have hpoint : encodePoint n = [UInt8.ofNat n] := if_pos hn
  rcases ps with _ | ⟨b | m, ps⟩
  · simp [assemble, hpoint]
  · simp [assemble, hpoint]
  · simp [assemble, hpoint, hhigh]

theorem isPlain_of_mem_utf8EncodeChar {c : Char} (hq : c ≠ '"') (hs : c ≠ '\\')
    (hc : 0x20 ≤ c.toNat) : ∀ b ∈ String.utf8EncodeChar c, IsPlain b := by
  intro b hb
  by_cases h : c.toNat ≤ 0x7f
  · rw [Bytes.utf8EncodeChar_of_le h, List.mem_singleton] at hb
    subst hb
    have hne : ∀ d : Char, c ≠ d → d.toNat ≤ 0x7f → UInt8.ofNat c.toNat ≠ UInt8.ofNat d.toNat :=
      fun d hd hd' he => hd (byte_inj h hd' he)
    exact ⟨hne _ hq (by decide), hne _ hs (by decide),
      UInt8.le_iff_toNat_le.2 (by rw [toNat_byte h]; exact hc)⟩
  · have hhigh := UInt8.le_iff_toNat_le.1 (high_of_mem_utf8EncodeChar (Nat.lt_of_not_le h) b hb)
    have hhigh : 0x80 ≤ b.toNat := hhigh
    refine ⟨?_, ?_, UInt8.le_iff_toNat_le.2 (Nat.le_trans (by decide) hhigh)⟩
    · rintro rfl
      exact absurd hhigh (by decide)
    · rintro rfl
      exact absurd hhigh (by decide)

theorem scanPieces_escaped {e b : UInt8} (he : Mark.escaped? e = some b) (hu : e ≠ Mark.letterU)
    (s : Bytes) :
    scanPieces (Mark.backslash :: e :: s) = (scanPieces s).map (behind [.byte b]) := by
  rw [scanPieces.eq_def]
  split
  · contradiction
  · rename_i h
    exact absurd (List.cons.inj h).1 (by decide)
  · rename_i h
    exact absurd (List.cons.inj (List.cons.inj h).2).1 hu
  · rename_i h
    obtain ⟨rfl, rfl⟩ := List.cons.inj (List.cons.inj h).2
    rw [he]
    rfl
  · rename_i hno h
    obtain ⟨rfl, rfl⟩ := List.cons.inj h
    exact absurd rfl (hno e s rfl)

theorem hexValue?_digitChar {n : Nat} (hn : n < 16) :
    Mark.hexValue? (UInt8.ofNat (Bytes.digitChar n).toNat) = some n := by
  revert n
  decide

theorem toNat_digitChar_le {n : Nat} (hn : n < 16) : (Bytes.digitChar n).toNat ≤ 0x7f := by
  revert n
  decide

theorem scanPieces_fourDigits {n : Nat} (hn : n < 0x10000) (s : Bytes) :
    scanPieces (bytesOf ('\\' :: 'u' :: fourDigits n) ++ s) =
      (scanPieces s).map (behind [.unit n]) := by
  have hdigit : ∀ k, k % 16 < 16 := fun k => Nat.mod_lt k (by decide)
  have hunit : unit? (UInt8.ofNat (Bytes.digitChar (n / 4096 % 16)).toNat)
      (UInt8.ofNat (Bytes.digitChar (n / 256 % 16)).toNat)
      (UInt8.ofNat (Bytes.digitChar (n / 16 % 16)).toNat)
      (UInt8.ofNat (Bytes.digitChar (n % 16)).toNat) = some n := by
    simp only [unit?, hexValue?_digitChar (hdigit _)]
    exact congrArg some (by omega)
  simp only [fourDigits, bytesOf_cons_of_le (toNat_digitChar_le (hdigit _)),
    bytesOf_cons_of_le (show '\\'.toNat ≤ 0x7f by decide),
    bytesOf_cons_of_le (show 'u'.toNat ≤ 0x7f by decide), bytesOf_nil]
  change (unit? _ _ _ _).bind _ = _
  rw [hunit]
  rfl

/-- A character is escaped by a letter, or by its number, or not at all. -/
theorem escape_cases (c : Char) :
    (∃ e, escape c = ['\\', e] ∧ e.toNat ≤ 0x7f ∧ c.toNat ≤ 0x7f ∧
        UInt8.ofNat e.toNat ≠ Mark.letterU ∧
        Mark.escaped? (UInt8.ofNat e.toNat) = some (UInt8.ofNat c.toNat)) ∨
      (escape c = '\\' :: 'u' :: fourDigits c.toNat ∧ c.toNat < 0x20) ∨
      (escape c = [c] ∧ c ≠ '"' ∧ c ≠ '\\' ∧ 0x20 ≤ c.toNat) := by
  by_cases hshort : c = '"' ∨ c = '\\' ∨ c = '\x08' ∨ c = '\x0c' ∨ c = '\n' ∨ c = '\r' ∨ c = '\t'
  · refine .inl ?_
    rcases hshort with rfl | rfl | rfl | rfl | rfl | rfl | rfl
    all_goals exact ⟨_, rfl, by decide⟩
  · obtain ⟨hq, hs, hb, hf, hn, hr, ht⟩ := by simpa only [not_or] using hshort
    refine .inr ?_
    simp only [escape, hq, hs, hb, hf, hn, hr, ht, if_false]
    by_cases hc : c.toNat < 0x20
    · simp [hc]
    · simp [hc, hq, hs]
      omega

/-- An escaped character is scanned as the bytes of it. -/
theorem scanPieces_escape (c : Char) :
    ∃ qs, (∀ s, scanPieces (bytesOf (escape c) ++ s) = (scanPieces s).map (behind qs)) ∧
      ∀ ps, assemble (qs ++ ps) = String.utf8EncodeChar c ++ assemble ps := by
  rcases escape_cases c with ⟨e, he, hle, hc, hu, hb⟩ | ⟨he, hc⟩ | ⟨he, hq, hs, hc⟩
  · refine ⟨[.byte (UInt8.ofNat c.toNat)], fun s => ?_, fun ps => ?_⟩
    · rw [he, bytesOf_cons_of_le (by decide), bytesOf_cons_of_le hle]
      exact scanPieces_escaped hb hu s
    · rw [Bytes.utf8EncodeChar_of_le hc]
      rfl
  · refine ⟨[.unit c.toNat], fun s => ?_, fun ps => ?_⟩
    · rw [he]
      exact scanPieces_fourDigits (by omega) s
    · rw [Bytes.utf8EncodeChar_of_le (by omega)]
      exact assemble_unit (by omega) ps
  · refine ⟨(String.utf8EncodeChar c).map .byte, fun s => ?_, fun ps => assemble_append _ ps⟩
    rw [he, bytesOf_cons, bytesOf_nil, List.append_nil]
    exact scanPieces_append (isPlain_of_mem_utf8EncodeChar hq hs hc) s

/-- What stands between quotes is scanned as the bytes of the text. -/
theorem scanPieces_quoted (cs : List Char) (rest : Bytes) :
    ∃ ps, scanPieces (bytesOf (cs.flatMap escape) ++ Mark.quote :: rest) = some (ps, true, rest) ∧
      assemble ps = bytesOf cs := by
  induction cs with
  | nil => exact ⟨[], rfl, rfl⟩
  | cons c cs ih =>
    obtain ⟨ps, hscan, hps⟩ := ih
    obtain ⟨qs, hescape, hqs⟩ := scanPieces_escape c
    refine ⟨qs ++ ps, ?_, ?_⟩
    · rw [List.flatMap_cons, bytesOf_append, List.append_assoc, hescape, hscan]
      rfl
    · rw [hqs, hps, bytesOf_cons]

/-! ### Numbers -/

/-- What may stand behind a value. -/
def Stops (s : Bytes) : Prop :=
  ∀ b ∈ s.head?, Mark.isBlank b = true ∨ b = Mark.comma ∨ b = Mark.closeBracket ∨ b = Mark.closeBrace

/-- No number goes on behind a value. -/
theorem Stops.head {s : Bytes} (hs : Stops s) : ∀ b ∈ s.head?,
    Mark.isDigit b = false ∧ b ≠ Mark.point ∧ (b == 0x65 || b == 0x45) = false := by
  intro b hb
  rcases hs b hb with h | rfl | rfl | rfl
  · simp only [Mark.isBlank, Bool.or_eq_true, beq_iff_eq] at h
    rcases h with ((rfl | rfl) | rfl) | rfl
    all_goals decide
  all_goals decide

/-- The digits of a number, as they are scanned. -/
def digitsOf (n : Nat) : List Nat := (Nat.toDigits 10 n).map fun c => c.toNat - '0'.toNat

/-- A number as it is scanned. -/
def numberOf (n : Nat) : Number where
  negative := false
  integral := digitsOf n

theorem decimal_digitsOf (n : Nat) : decimal (digitsOf n) = n := by
  rw [decimal, digitsOf, List.foldl_map]
  exact Nat.ofDigitChars_ten_toDigits

theorem integer?_numberOf {n : Nat} (hn : n < 1 <<< 64) : (numberOf n).integer? = some (n : Int) := by
  simp only [Number.integer?, numberOf, decimal_digitsOf, hn]
  simp

/-- Only zero starts with a zero. -/
theorem head?_digitsOf {n : Nat} (h : (digitsOf n).head? = some 0) : n = 0 := by
  induction n using Nat.strongRecOn with
  | ind n ih =>
    by_cases hn : n < 10
    · have hdigit : ∀ n < 10, (digitsOf n).head? = some 0 → n = 0 := by decide
      exact hdigit n hn h
    · have hne : digitsOf (n / 10) ≠ [] := by simp [digitsOf, Nat.toDigits_ne_nil]
      have hsplit : digitsOf n = digitsOf (n / 10) ++ [(n % 10).digitChar.toNat - '0'.toNat] := by
        rw [digitsOf, Nat.toDigits_of_base_le (by decide) (by omega), List.map_append]
        rfl
      rw [hsplit, List.head?_append_of_ne_nil _ hne] at h
      have := ih (n / 10) (by omega) h
      omega

theorem isDigit_byte {c : Char} (hc : c.isDigit = true) :
    c.toNat ≤ 0x7f ∧ Mark.isDigit (UInt8.ofNat c.toNat) = true ∧
      (UInt8.ofNat c.toNat).toNat = c.toNat := by
  have h : 0x30 ≤ c.toNat ∧ c.toNat ≤ 0x39 := by
    simp only [Char.isDigit, Bool.and_eq_true, decide_eq_true_eq] at hc
    exact ⟨UInt32.le_iff_toNat_le.1 hc.1, UInt32.le_iff_toNat_le.1 hc.2⟩
  have hn : (UInt8.ofNat c.toNat).toNat = c.toNat :=
    UInt8.toNat_ofNat_of_lt' (Nat.lt_of_le_of_lt h.2 (by decide))
  refine ⟨by omega, ?_, hn⟩
  rw [Mark.isDigit, Bool.and_eq_true, decide_eq_true_eq, decide_eq_true_eq, UInt8.le_iff_toNat_le,
    UInt8.le_iff_toNat_le, hn]
  exact h

theorem scanDigits_append {ds : List Char} (hne : ds ≠ []) (hd : ∀ c ∈ ds, c.isDigit = true)
    {s : Bytes} (hs : Stops s) :
    scanDigits (bytesOf ds ++ s) = some (ds.map fun c => c.toNat - '0'.toNat, s) := by
  have hbytes : ∀ ds : List Char, (∀ c ∈ ds, c.isDigit = true) →
      (∀ b ∈ bytesOf ds, Mark.isDigit b = true) ∧
        (bytesOf ds).map (fun b => b.toNat - 0x30) = ds.map fun c => c.toNat - '0'.toNat := by
    intro ds hd
    induction ds with
    | nil => simp
    | cons c ds ih =>
      obtain ⟨hle, hb, hn⟩ := isDigit_byte (hd c List.mem_cons_self)
      obtain ⟨hall, hmap⟩ := ih fun d hd' => hd d (List.mem_cons_of_mem c hd')
      rw [bytesOf_cons_of_le hle, List.map_cons, List.map_cons, hmap, hn]
      exact ⟨List.forall_mem_cons.2 ⟨hb, hall⟩, rfl⟩
  obtain ⟨hall, hmap⟩ := hbytes ds hd
  have hspan : (bytesOf ds ++ s).span Mark.isDigit = (bytesOf ds, s) := by
    have hrest : s.takeWhile Mark.isDigit = [] ∧ s.dropWhile Mark.isDigit = s := by
      cases s with
      | nil => exact ⟨rfl, rfl⟩
      | cons b s => simp [(hs.head b rfl).1]
    rw [List.span_eq_takeWhile_dropWhile, List.takeWhile_append_of_pos hall,
      List.dropWhile_append_of_pos hall, hrest.1, hrest.2, List.append_nil]
  rw [scanDigits, hspan]
  cases hb : bytesOf ds with
  | nil =>
    have hlength := length_le_bytesOf ds
    rw [hb, List.length_nil, Nat.le_zero, List.length_eq_zero_iff] at hlength
    exact absurd hlength hne
  | cons b bs => rw [← hmap, hb]

theorem scanFraction_of_stops {s : Bytes} (hs : Stops s) : scanFraction s = some (none, s) := by
  unfold scanFraction
  split
  · exact absurd rfl (hs.head _ rfl).2.1
  · rfl

theorem scanExponent_of_stops {s : Bytes} (hs : Stops s) : scanExponent s = some (none, s) := by
  unfold scanExponent
  split
  · rw [if_neg (by simp [(hs.head _ rfl).2.2])]
  · rfl

/-- A number that is written is scanned up to its end. -/
theorem scanNumber_append (n : Nat) {s : Bytes} (hs : Stops s) :
    scanNumber (bytesOf (Nat.toDigits 10 n) ++ s) = some (numberOf n, s) := by
  have hd : ∀ c ∈ Nat.toDigits 10 n, c.isDigit = true :=
    fun c hc => Nat.isDigit_of_mem_toDigits (by decide) (by decide) hc
  have hscan : scanDigits (bytesOf (Nat.toDigits 10 n) ++ s) = some (digitsOf n, s) :=
    scanDigits_append Nat.toDigits_ne_nil hd hs
  have hzero : ¬((digitsOf n).head? = some 0 ∧ (digitsOf n).length ≠ 1) := by
    rintro ⟨hhead, hlength⟩
    obtain rfl := head?_digitsOf hhead
    exact hlength rfl
  rw [scanNumber, hscan]
  · simp only [Option.bind_eq_bind, Option.bind_some, hzero, scanFraction_of_stops hs,
      scanExponent_of_stops hs]
    rfl
  · -- a sign is no digit, so nothing would have been scanned
    intro t ht
    rw [ht] at hscan
    have hnone : scanDigits (Mark.minus :: t) = none := rfl
    cases hnone.symm.trans hscan

end PlatformGuard.Json
