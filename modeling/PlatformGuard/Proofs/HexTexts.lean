import PlatformGuard.Json.Form
import PlatformGuard.Proofs.Spellings
import Mathlib.Data.List.Induction

/-!
# What is read as hexadecimal text

The grammar of hexadecimal text is at most one `0x` and then two digits for each byte.  The reader of such
texts is put together from parts that take more than that: however often `0x` stands in front, all of it is
dropped, and a plus sign may stand for the first digit of a pair.  What is read is said here exactly, as
`Pairs FirstDigit` behind any number of marks; where a text uses neither liberty, that is the grammar.
-/

namespace PlatformGuard.Json

/-! ### The grammar -/

/-- A hexadecimal digit and what it counts. -/
inductive HexDigit (c : Char) : Nat → Prop
  | decimal (hl : '0' ≤ c) (hh : c ≤ '9') : HexDigit c (c.toNat - '0'.toNat)
  | lower (hl : 'a' ≤ c) (hh : c ≤ 'f') : HexDigit c (c.toNat - 'a'.toNat + 10)
  | upper (hl : 'A' ≤ c) (hh : c ≤ 'F') : HexDigit c (c.toNat - 'A'.toNat + 10)

/-- What is taken for the first digit of a pair. -/
inductive FirstDigit : Char → Nat → Prop
  | digit {c : Char} {n : Nat} (h : HexDigit c n) : FirstDigit c n
  | plus : FirstDigit '+' 0

/-- Two digits for each byte, the first of them as `First` has it. -/
inductive Pairs (First : Char → Nat → Prop) : List Char → Bytes → Prop
  | nil : Pairs First [] []
  | pair {a b : Char} {x y : Nat} {cs : List Char} {bs : Bytes} (ha : First a x) (hb : HexDigit b y)
      (h : Pairs First cs bs) : Pairs First (a :: b :: cs) (UInt8.ofNat (16 * x + y) :: bs)

/-- The mark of base 16, `k` times. -/
def marks (k : Nat) : List Char := (List.replicate k ['0', 'x']).flatten

/-- A text of hexadecimal digits for the bytes, behind at most one mark. -/
def IsHexText (s : String) (bs : Bytes) : Prop :=
  ∃ k ≤ 1, ∃ cs, s.toList = marks k ++ cs ∧ Pairs HexDigit cs bs

/-! ### Digits -/

section digits
variable {c : Char} {n : Nat}

theorem hexDigit_iff :
    HexDigit c n ↔ (0x30 ≤ c.toNat ∧ c.toNat ≤ 0x39 ∧ n = c.toNat - 0x30) ∨
      (0x61 ≤ c.toNat ∧ c.toNat ≤ 0x66 ∧ n = c.toNat - 0x61 + 10) ∨
      (0x41 ≤ c.toNat ∧ c.toNat ≤ 0x46 ∧ n = c.toNat - 0x41 + 10) := by
  have hle : ∀ {a b : Char}, a ≤ b ↔ a.toNat ≤ b.toNat := UInt32.le_iff_toNat_le
  constructor
  · rintro (⟨hl, hh⟩ | ⟨hl, hh⟩ | ⟨hl, hh⟩)
    · exact .inl ⟨hle.1 hl, hle.1 hh, rfl⟩
    · exact .inr (.inl ⟨hle.1 hl, hle.1 hh, rfl⟩)
    · exact .inr (.inr ⟨hle.1 hl, hle.1 hh, rfl⟩)
  · rintro (⟨hl, hh, rfl⟩ | ⟨hl, hh, rfl⟩ | ⟨hl, hh, rfl⟩)
    · exact .decimal (hle.2 hl) (hle.2 hh)
    · exact .lower (hle.2 hl) (hle.2 hh)
    · exact .upper (hle.2 hl) (hle.2 hh)

theorem hexValue?_eq_some_iff {b : UInt8} :
    Mark.hexValue? b = some n ↔ (0x30 ≤ b.toNat ∧ b.toNat ≤ 0x39 ∧ n = b.toNat - 0x30) ∨
      (0x61 ≤ b.toNat ∧ b.toNat ≤ 0x66 ∧ n = b.toNat - 0x61 + 10) ∨
      (0x41 ≤ b.toNat ∧ b.toNat ≤ 0x46 ∧ n = b.toNat - 0x41 + 10) := by
  simp only [Mark.hexValue?, Bool.and_eq_true, decide_eq_true_eq, UInt8.le_iff_toNat_le,
    UInt8.reduceToNat]
  split
  · rw [Option.some.injEq]
    omega
  · split
    · rw [Option.some.injEq]
      omega
    · split
      · rw [Option.some.injEq]
        omega
      · refine ⟨nofun, fun h => ?_⟩
        omega

/-- The byte of a character counts as a digit if the character is one. -/
theorem hexValue?_byte (hc : c.toNat ≤ 0x7f) :
    Mark.hexValue? (UInt8.ofNat c.toNat) = some n ↔ HexDigit c n := by
  rw [hexValue?_eq_some_iff, hexDigit_iff, toNat_byte hc]

theorem hexValue?_of_high {b : UInt8} (hb : 0x80 ≤ b) : Mark.hexValue? b = none := by
  have hb : 0x80 ≤ b.toNat := UInt8.le_iff_toNat_le.1 hb
  refine Option.eq_none_iff_forall_not_mem.2 fun n h => ?_
  have := hexValue?_eq_some_iff.1 h
  omega

theorem HexDigit.le (h : HexDigit c n) : c.toNat ≤ 0x7f := by
  have := hexDigit_iff.1 h
  omega

theorem FirstDigit.le (h : FirstDigit c n) : c.toNat ≤ 0x7f := by
  cases h with
  | digit h => exact h.le
  | plus => decide

theorem not_hexDigit_x : ¬HexDigit 'x' n := by
  rw [hexDigit_iff]
  have hx : 'x'.toNat = 0x78 := rfl
  omega

theorem not_hexDigit_plus : ¬HexDigit '+' n := by
  rw [hexDigit_iff]
  have hplus : '+'.toNat = 0x2b := rfl
  omega

theorem hexDigit_digitChar (hn : n < 16) : HexDigit (Bytes.digitChar n) n :=
  (hexValue?_byte (toNat_digitChar_le hn)).1 (hexValue?_digitChar hn)

end digits

/-! ### Pairs -/

section pairs
variable {a b : UInt8}

theorem hexPair?_of_high_left (ha : 0x80 ≤ a) : Scan.hexPair? a b = none := by
  have hne : (a == Mark.plus) = false := by
    refine beq_false_of_ne fun h => ?_
    rw [h] at ha
    exact absurd ha (by decide)
  rw [Scan.hexPair?, hexValue?_of_high ha, hne]
  cases Mark.hexValue? b <;> rfl

theorem hexPair?_of_high_right (hb : 0x80 ≤ b) : Scan.hexPair? a b = none := by
  rw [Scan.hexPair?, hexValue?_of_high hb]
  cases Mark.hexValue? a <;> rfl

/-- Two bytes are a pair if the characters are. -/
theorem hexPair?_eq_some_iff {a b : Char} (ha : a.toNat ≤ 0x7f) (hb : b.toNat ≤ 0x7f) {z : UInt8} :
    Scan.hexPair? (UInt8.ofNat a.toNat) (UInt8.ofNat b.toNat) = some z ↔
      ∃ x y, FirstDigit a x ∧ HexDigit b y ∧ z = UInt8.ofNat (16 * x + y) := by
  constructor
  · intro h
    rw [Scan.hexPair?] at h
    split at h
    · rename_i x y hx hy
      exact ⟨x, y, .digit ((hexValue?_byte ha).1 hx), (hexValue?_byte hb).1 hy, (Option.some.inj h).symm⟩
    · rename_i y _ hy
      split at h
      · rename_i hplus
        have heq : a = '+' := byte_inj ha (by decide) (beq_iff_eq.1 hplus)
        refine ⟨0, y, heq ▸ .plus, (hexValue?_byte hb).1 hy, ?_⟩
        rw [Nat.mul_zero, Nat.zero_add, Option.some.inj h]
      · contradiction
    · contradiction
  · rintro ⟨x, y, hx, hy, rfl⟩
    rw [Scan.hexPair?, (hexValue?_byte hb).2 hy]
    cases hx with
    | digit hx => rw [(hexValue?_byte ha).2 hx]
    | plus =>
      rw [Nat.mul_zero, Nat.zero_add]
      rfl

/-- A high byte ends the pairs, first or second. -/
theorem hexPairs?_of_high {a : UInt8} (ha : 0x80 ≤ a) (bs : Bytes) : Scan.hexPairs? (a :: bs) = none := by
  cases bs with
  | nil => rfl
  | cons b bs => rw [Scan.hexPairs?, hexPair?_of_high_left ha, Option.bind_none]

/-- A character that needs more than one byte starts with a high one. -/
theorem bytesOf_of_lt {c : Char} (hc : 0x7f < c.toNat) (cs : List Char) :
    ∃ a bs, bytesOf (c :: cs) = a :: bs ∧ 0x80 ≤ a := by
  obtain ⟨a, bs, h⟩ := List.exists_cons_of_ne_nil (String.utf8EncodeChar_ne_nil (c := c))
  refine ⟨a, bs ++ bytesOf cs, by rw [bytesOf_cons, h, List.cons_append], ?_⟩
  exact high_of_mem_utf8EncodeChar hc a (h ▸ List.mem_cons_self)

/-- The bytes of characters are pairs of digits if the characters are. -/
theorem hexPairs?_bytesOf (cs : List Char) (bs : Bytes) :
    Scan.hexPairs? (bytesOf cs) = some bs ↔ Pairs FirstDigit cs bs := by
  induction cs using List.twoStepInduction generalizing bs with
  | nil =>
    refine ⟨fun h => Option.some.inj h ▸ .nil, fun h => ?_⟩
    cases h
    rfl
  | singleton c =>
    constructor
    · intro h
      by_cases hc : c.toNat ≤ 0x7f
      · rw [bytesOf_cons_of_le hc] at h
        contradiction
      · obtain ⟨a, as, ha, hhigh⟩ := bytesOf_of_lt (Nat.lt_of_not_le hc) []
        rw [ha, hexPairs?_of_high hhigh] at h
        contradiction
    · intro h
      cases h
  | cons_cons a b cs ih =>
    by_cases ha : a.toNat ≤ 0x7f
    swap
    · obtain ⟨z, zs, hz, hhigh⟩ := bytesOf_of_lt (Nat.lt_of_not_le ha) (b :: cs)
      rw [hz, hexPairs?_of_high hhigh]
      constructor
      · intro h
        cases h
      · intro h
        cases h with
        | pair hx => exact absurd hx.le ha
    by_cases hb : b.toNat ≤ 0x7f
    swap
    · obtain ⟨z, zs, hz, hhigh⟩ := bytesOf_of_lt (Nat.lt_of_not_le hb) cs
      rw [bytesOf_cons_of_le ha, hz, Scan.hexPairs?, hexPair?_of_high_right hhigh]
      constructor
      · intro h
        cases h
      · intro h
        cases h with
        | pair _ hy => exact absurd hy.le hb
    rw [bytesOf_cons_of_le ha, bytesOf_cons_of_le hb, Scan.hexPairs?]
    constructor
    · intro h
      obtain ⟨z, hz, h⟩ := Option.bind_eq_some_iff.1 h
      obtain ⟨zs, hzs, rfl⟩ := Option.map_eq_some_iff.1 h
      obtain ⟨x, y, hx, hy, rfl⟩ := (hexPair?_eq_some_iff ha hb).1 hz
      exact .pair hx hy ((ih zs).1 hzs)
    · intro h
      cases h with
      | pair hx hy h =>
        rw [(hexPair?_eq_some_iff ha hb).2 ⟨_, _, hx, hy, rfl⟩, (ih _).2 h]
        rfl

end pairs

/-! ### Marks -/

section texts
variable {First : Char → Nat → Prop} {cs : List Char} {bs : Bytes}

theorem marks_succ (k : Nat) : marks (k + 1) = '0' :: 'x' :: marks k := rfl

theorem dropHexMarks_of_not_prefix (h : ¬marks 1 <+: cs) : Scan.dropHexMarks cs = cs := by
  unfold Scan.dropHexMarks
  split
  · exact absurd ⟨_, rfl⟩ h
  · rfl

theorem dropHexMarks_marks (k : Nat) (cs : List Char) :
    Scan.dropHexMarks (marks k ++ cs) = Scan.dropHexMarks cs := by
  induction k with
  | zero => rfl
  | succ k ih => exact ih

/-- What is dropped are marks, and all of them. -/
theorem exists_marks (cs : List Char) :
    ∃ k, cs = marks k ++ Scan.dropHexMarks cs ∧ ¬marks 1 <+: Scan.dropHexMarks cs := by
  fun_induction Scan.dropHexMarks cs with
  | case1 cs ih =>
    obtain ⟨k, hk, hnot⟩ := ih
    exact ⟨k + 1, congrArg ('0' :: 'x' :: ·) hk, hnot⟩
  | case2 cs hno =>
    refine ⟨0, rfl, ?_⟩
    rintro ⟨ds, rfl⟩
    exact hno ds rfl

/-- A pair is no mark. -/
theorem Pairs.not_marked (h : Pairs First cs bs) : ¬marks 1 <+: cs := by
  rintro ⟨ds, rfl⟩
  cases h with
  | pair _ hb => exact not_hexDigit_x hb

theorem Pairs.mono {Other : Char → Nat → Prop} (hle : ∀ c n, First c n → Other c n)
    (h : Pairs First cs bs) : Pairs Other cs bs := by
  induction h with
  | nil => exact .nil
  | pair ha hb _ ih => exact .pair (hle _ _ ha) hb ih

/-- Where no plus sign stands, pairs are pairs of digits. -/
theorem Pairs.denotes (h : Pairs FirstDigit cs bs) (hplus : '+' ∉ cs) : Pairs HexDigit cs bs := by
  induction h with
  | nil => exact .nil
  | pair ha hb _ ih =>
    have hrest := ih fun hm => hplus (List.mem_cons_of_mem _ (List.mem_cons_of_mem _ hm))
    cases ha with
    | digit ha => exact .pair ha hb hrest
    | plus => exact absurd List.mem_cons_self hplus

/-- The bytes of pairs are twice as many as what they stand for. -/
theorem Pairs.length_bytesOf (h : Pairs FirstDigit cs bs) : (bytesOf cs).length = 2 * bs.length := by
  induction h with
  | nil => rfl
  | pair ha hb _ ih =>
    rw [bytesOf_cons_of_le ha.le, bytesOf_cons_of_le hb.le, List.length_cons, List.length_cons, ih,
      List.length_cons]
    omega

/-- Every character of pairs is a digit, or may stand for one. -/
theorem Pairs.letter (h : Pairs FirstDigit cs bs) : ∀ c ∈ cs, (∃ n, HexDigit c n) ∨ c = '+' := by
  induction h with
  | nil => exact nofun
  | pair ha hb _ ih =>
    intro c hc
    obtain rfl | hc := List.mem_cons.1 hc
    · cases ha with
      | digit ha => exact .inl ⟨_, ha⟩
      | plus => exact .inr rfl
    · obtain rfl | hc := List.mem_cons.1 hc
      · exact .inl ⟨_, hb⟩
      · exact ih c hc

/-- Digits that are even in number stand for some bytes. -/
theorem exists_pairs_iff :
    (∃ bs, Pairs HexDigit cs bs) ↔ cs.length % 2 = 0 ∧ ∀ c ∈ cs, ∃ n, HexDigit c n := by
  induction cs using List.twoStepInduction with
  | nil => exact ⟨fun _ => ⟨rfl, nofun⟩, fun _ => ⟨[], .nil⟩⟩
  | singleton c => exact ⟨nofun, nofun⟩
  | cons_cons a b cs ih =>
    rw [List.length_cons, List.length_cons, Nat.add_assoc, Nat.add_mod_right, List.forall_mem_cons,
      List.forall_mem_cons]
    constructor
    · rintro ⟨_, h⟩
      cases h with
      | pair ha hb h =>
        obtain ⟨heven, hdigits⟩ := ih.1 ⟨_, h⟩
        exact ⟨heven, ⟨_, ha⟩, ⟨_, hb⟩, hdigits⟩
    · rintro ⟨heven, ⟨x, ha⟩, ⟨y, hb⟩, hdigits⟩
      obtain ⟨bs, h⟩ := ih.2 ⟨heven, hdigits⟩
      exact ⟨_, .pair ha hb h⟩

theorem pairs_toHexChars (bs : Bytes) : Pairs HexDigit bs.toHexChars bs := by
  induction bs with
  | nil => exact .nil
  | cons b bs ih =>
    have hb : UInt8.ofNat (16 * (b.toNat / 16) + b.toNat % 16) = b := by
      rw [Nat.div_add_mod, UInt8.ofNat_toNat]
    have hhigh := hexDigit_digitChar (Nat.div_lt_of_lt_mul b.toNat_lt : b.toNat / 16 < 16)
    have hlow := hexDigit_digitChar (Nat.mod_lt b.toNat (by decide : 16 > 0))
    have h : Pairs HexDigit (Bytes.toHexChars (b :: bs))
        (UInt8.ofNat (16 * (b.toNat / 16) + b.toNat % 16) :: bs) := .pair hhigh hlow ih
    rwa [hb] at h

end texts

/-! ### Reading -/

section reading
variable {s : String} {bs : Bytes} {e : Error}

theorem readHex_eq_ok_iff :
    Scan.readHex s = .ok bs ↔ Pairs FirstDigit (Scan.dropHexMarks s.toList) bs := by
  rw [← hexPairs?_bytesOf]
  constructor
  · intro h
    simp only [Scan.readHex] at h
    split at h
    · contradiction
    · split at h
      · rename_i hpairs
        exact hpairs.trans (congrArg some (Except.ok.inj h))
      · contradiction
  · intro h
    have heven := ((hexPairs?_bytesOf _ _).1 h).length_bytesOf
    have hno : ¬(bytesOf (Scan.dropHexMarks s.toList)).length % 2 = 1 := by omega
    rw [bytesOf] at h hno
    simp only [Scan.readHex, hno, h, if_false]

/-- A text that is not read has an odd number of bytes behind its marks, or is no text of pairs. -/
theorem readHex_eq_error (h : Scan.readHex s = .error e) :
    (e = .oddHex (bytesOf (Scan.dropHexMarks s.toList)).length ∧
        (bytesOf (Scan.dropHexMarks s.toList)).length % 2 = 1) ∨
      (e = .notHex (Scan.dropHexMarks s.toList) ∧
        (bytesOf (Scan.dropHexMarks s.toList)).length % 2 = 0) := by
  simp only [Scan.readHex] at h
  split at h
  · rename_i hodd
    exact .inl ⟨(Except.error.inj h).symm, hodd⟩
  · rename_i heven
    split at h
    · contradiction
    · exact .inr ⟨(Except.error.inj h).symm, Nat.mod_two_ne_one.1 heven⟩

theorem readHex_eq_ok_iff_marks :
    Scan.readHex s = .ok bs ↔ ∃ k cs, s.toList = marks k ++ cs ∧ Pairs FirstDigit cs bs := by
  rw [readHex_eq_ok_iff]
  constructor
  · intro h
    obtain ⟨k, hk, -⟩ := exists_marks s.toList
    exact ⟨k, _, hk, h⟩
  · rintro ⟨k, cs, hs, h⟩
    rwa [hs, dropHexMarks_marks, dropHexMarks_of_not_prefix h.not_marked]

/-- A form of hexadecimal text reads a string as its text. -/
theorem hex_read_text (s : String) : Form.hex.read (Value.text s).tree = Scan.readHex s := by
  change (Scan.textOf (Bytes.ofText s) true >>= Scan.readHex) = Scan.readHex s
  rw [textOf_ofText]
  rfl

theorem mem_marks {c : Char} {k : Nat} (h : c ∈ marks k) : c = '0' ∨ c = 'x' := by
  induction k with
  | zero => contradiction
  | succ k ih =>
    rw [marks_succ, List.mem_cons, List.mem_cons] at h
    obtain h | h | h := h
    · exact .inl h
    · exact .inr h
    · exact ih h

theorem exists_isHexText_iff :
    (∃ bs, IsHexText s bs) ↔ ∃ k ≤ 1, ∃ cs, s.toList = marks k ++ cs ∧
      cs.length % 2 = 0 ∧ ∀ c ∈ cs, ∃ n, HexDigit c n := by
  constructor
  · rintro ⟨bs, k, hk, cs, hs, hpairs⟩
    exact ⟨k, hk, cs, hs, exists_pairs_iff.1 ⟨bs, hpairs⟩⟩
  · rintro ⟨k, hk, cs, hs, hdigits⟩
    obtain ⟨bs, hpairs⟩ := exists_pairs_iff.2 hdigits
    exact ⟨bs, k, hk, cs, hs, hpairs⟩

/-- Hexadecimal text has no plus sign. -/
theorem IsHexText.not_plus (h : IsHexText s bs) : '+' ∉ s.toList := by
  obtain ⟨k, -, cs, hs, hdigits⟩ := h
  rw [hs, List.mem_append]
  rintro (hm | hm)
  · obtain h | h := mem_marks hm <;> contradiction
  · obtain ⟨n, hn⟩ := (exists_pairs_iff.1 ⟨bs, hdigits⟩).2 '+' hm
    exact not_hexDigit_plus hn

/-- Hexadecimal text has no second mark. -/
theorem IsHexText.not_marked (h : IsHexText s bs) : ¬marks 2 <+: s.toList := by
  obtain ⟨k, hk, cs, hs, hpairs⟩ := h
  rintro ⟨ds, hds⟩
  rw [hs] at hds
  refine hpairs.not_marked ?_
  obtain rfl | rfl : k = 0 ∨ k = 1 := by omega
  · exact ⟨marks 1 ++ ds, hds⟩
  · exact ⟨ds, List.append_cancel_left (show marks 1 ++ (marks 1 ++ ds) = marks 1 ++ cs from hds)⟩

/-- What is read without a plus sign and a second mark is hexadecimal text, and nothing else is. -/
theorem isHexText_iff :
    IsHexText s bs ↔ Scan.readHex s = .ok bs ∧ '+' ∉ s.toList ∧ ¬marks 2 <+: s.toList := by
  constructor
  · intro h
    obtain ⟨k, -, cs, hs, hpairs⟩ := id h
    exact ⟨readHex_eq_ok_iff_marks.2 ⟨k, cs, hs, hpairs.mono fun _ _ => .digit⟩, h.not_plus, h.not_marked⟩
  · rintro ⟨h, hplus, hmarks⟩
    obtain ⟨k, cs, hs, hpairs⟩ := readHex_eq_ok_iff_marks.1 h
    have hk : k ≤ 1 := by
      refine Nat.le_of_not_lt fun hk => hmarks ?_
      obtain ⟨k, rfl⟩ := Nat.exists_eq_add_of_le' (show 2 ≤ k from hk)
      exact ⟨marks k ++ cs, hs.symm⟩
    refine ⟨k, hk, cs, hs, hpairs.denotes fun hm => hplus ?_⟩
    rw [hs]
    exact List.mem_append_right _ hm

theorem isHexText_toHex (bs : Bytes) : IsHexText bs.toHex bs :=
  ⟨0, Nat.zero_le 1, bs.toHexChars, String.toList_ofList, pairs_toHexChars bs⟩

/-- Bytes are read from the digits of them. -/
theorem readHex_toHex (bs : Bytes) : Scan.readHex bs.toHex = .ok bs :=
  (isHexText_iff.1 (isHexText_toHex bs)).1

/-- What is read holds nothing but digits, plus signs and marks. -/
theorem letter_of_readHex (h : Scan.readHex s = .ok bs) :
    ∀ c ∈ s.toList, (∃ n, HexDigit c n) ∨ c = 'x' ∨ c = '+' := by
  obtain ⟨k, cs, hs, hpairs⟩ := readHex_eq_ok_iff_marks.1 h
  intro c hc
  rw [hs] at hc
  obtain hc | hc := List.mem_append.1 hc
  · obtain rfl | rfl := mem_marks hc
    · exact .inl ⟨_, .decimal (by decide) (by decide)⟩
    · exact .inr (.inl rfl)
  · exact (hpairs.letter c hc).imp id .inr

/-- What a form of hexadecimal text makes of a string. -/
structure ReadsHex (s : String) : Prop where
  /-- What is read without a plus sign and a second mark is even in digits, behind a mark or none, -/
  grammar : (∃ k ≤ 1, ∃ cs, s.toList = marks k ++ cs ∧ cs.length % 2 = 0 ∧ ∀ c ∈ cs, ∃ n, HexDigit c n) ↔
    (∃ bs, Form.hex.read (Value.text s).tree = .ok bs) ∧ '+' ∉ s.toList ∧ ¬marks 2 <+: s.toList
  /-- and is read as the bytes that the digits stand for. -/
  denotes : ∀ bs, IsHexText s bs ↔
    Form.hex.read (Value.text s).tree = .ok bs ∧ '+' ∉ s.toList ∧ ¬marks 2 <+: s.toList
  /-- In general there may be more marks, and plus signs in place of the first digits of pairs, -/
  liberties : ∀ bs, Form.hex.read (Value.text s).tree = .ok bs ↔
    ∃ k cs, s.toList = marks k ++ cs ∧ Pairs FirstDigit cs bs
  /-- but no other character. -/
  letters : ∀ bs, Form.hex.read (Value.text s).tree = .ok bs →
    ∀ c ∈ s.toList, (∃ n, HexDigit c n) ∨ c = 'x' ∨ c = '+'
  /-- Of a text that is refused, what is behind the marks is quoted, or its length given if that is odd. -/
  refuses : ∀ e, Form.hex.read (Value.text s).tree = .error e →
    ∃ k cs, s.toList = marks k ++ cs ∧ ¬marks 1 <+: cs ∧
      ((e = .oddHex (bytesOf cs).length ∧ (bytesOf cs).length % 2 = 1) ∨
        (e = .notHex cs ∧ (bytesOf cs).length % 2 = 0))

/-- A form of hexadecimal text reads its grammar and two liberties, and whatever it writes. -/
theorem hexTexts_read (s : String) (bs : Bytes) :
    ReadsHex s ∧ Form.hex.read (Form.hex.write bs).tree = .ok bs ∧ IsHexText bs.toHex bs := by
  constructor
  · have hread := hex_read_text s
    refine ⟨?grammar, ?denotes, ?liberties, ?letters, ?refuses⟩
    case grammar =>
      rw [← exists_isHexText_iff, hread, ← exists_and_right]
      exact exists_congr fun _ => isHexText_iff
    case denotes => exact fun bs => hread ▸ isHexText_iff
    case liberties => exact fun bs => hread ▸ readHex_eq_ok_iff_marks
    case letters => exact fun bs h => letter_of_readHex (hread.symm.trans h)
    case refuses =>
      intro e h
      obtain ⟨k, hk, hnot⟩ := exists_marks s.toList
      exact ⟨k, _, hk, hnot, readHex_eq_error (hread.symm.trans h)⟩
  · exact ⟨(hex_read_text bs.toHex).trans (readHex_toHex bs), isHexText_toHex bs⟩

/-- A plus sign is read in place of a digit, and a second mark is dropped like the first. -/
theorem loose_texts_read :
    (Form.hex.read (Value.text "+f").tree = .ok [0x0f] ∧ ¬∃ bs, IsHexText "+f" bs) ∧
      (Form.hex.read (Value.text "0x0x0f").tree = .ok [0x0f] ∧ ¬∃ bs, IsHexText "0x0x0f" bs) := by
  rw [hex_read_text, hex_read_text]
  refine ⟨⟨rfl, fun ⟨bs, h⟩ => h.not_plus (by decide)⟩, rfl, fun ⟨bs, h⟩ => h.not_marked ?_⟩
  exact ⟨['0', 'f'], rfl⟩

end reading

end PlatformGuard.Json
