import PlatformGuard.Bytes
import Mathlib.Data.List.Basic

/-!
# Printable text

A text is printable if all bytes of its UTF-8 form are.  Every character of such a text is a single byte,
so the text can be had back from the bytes one by one.
-/

namespace PlatformGuard.Bytes

theorem isPrintable_ofNat {n : Nat} (h : n < 256) :
    isPrintable (UInt8.ofNat n) = true ↔ 0x20 ≤ n ∧ n ≤ 0x7e := by
  have hn : (UInt8.ofNat n).toNat = n := UInt8.toNat_ofNat_of_lt' h
  simp [isPrintable, UInt8.le_iff_toNat_le, hn]

/-! ### Characters -/

theorem printable_char_iff {c : Char} :
    ' ' ≤ c ∧ c ≤ '~' ↔ 0x20 ≤ c.toNat ∧ c.toNat ≤ 0x7e := by
  rw [Char.le_def, Char.le_def, UInt32.le_iff_toNat_le, UInt32.le_iff_toNat_le]
  rfl

theorem utf8EncodeChar_of_le {c : Char} (h : c.toNat ≤ 0x7f) :
    String.utf8EncodeChar c = [UInt8.ofNat c.toNat] := if_pos h

/-- The first byte of a character that needs more than one is not printable. -/
theorem utf8EncodeChar_of_lt {c : Char} (h : 0x7f < c.toNat) :
    (String.utf8EncodeChar c).all isPrintable = false := by
  have hfirst : ∀ (n : Nat) (bs : Bytes), 0x7f < n → n < 256 →
      (UInt8.ofNat n :: bs).all isPrintable = false := by
    intro n bs hlow hhigh
    rw [List.all_cons, Bool.and_eq_false_iff]
    refine .inl (Bool.eq_false_iff.2 fun hp => ?_)
    have := (isPrintable_ofNat hhigh).1 hp
    omega
  unfold String.utf8EncodeChar
  simp only
  rw [if_neg (show ¬c.val.toNat ≤ 0x7f from Nat.not_le.2 h)]
  -- two, three and four bytes: the first is at least 0xc0
  split
  · exact hfirst _ _ (by omega) (by omega)
  · split
    · exact hfirst _ _ (by omega) (by omega)
    · exact hfirst _ _ (by omega) (by omega)

theorem printable_utf8EncodeChar {c : Char} :
    (String.utf8EncodeChar c).all isPrintable = true ↔ ' ' ≤ c ∧ c ≤ '~' := by
  rw [printable_char_iff]
  by_cases h : c.toNat ≤ 0x7f
  · rw [utf8EncodeChar_of_le h, ← isPrintable_ofNat (by omega)]
    simp
  · rw [utf8EncodeChar_of_lt (by omega)]
    simp
    omega

/-! ### Texts -/

theorem ofText_eq_nil {s : String} : ofText s = [] ↔ s.toList = [] := by
  unfold ofText
  rw [List.flatMap_eq_nil_iff]
  constructor
  · intro h
    cases hs : s.toList with
    | nil => rfl
    | cons c cs => exact absurd (h c (by simp [hs])) String.utf8EncodeChar_ne_nil
  · intro h
    simp [h]

theorem printable_ofText {s : String} :
    (ofText s).all isPrintable = true ↔ ∀ c ∈ s.toList, ' ' ≤ c ∧ c ≤ '~' := by
  rw [ofText, List.all_flatMap, List.all_eq_true]
  exact forall₂_congr fun c _ => printable_utf8EncodeChar

theorem map_ofText {s : String} (h : ∀ c ∈ s.toList, ' ' ≤ c ∧ c ≤ '~') :
    ((ofText s).map fun b => Char.ofNat b.toNat) = s.toList := by
  unfold ofText
  generalize s.toList = cs at h
  induction cs with
  | nil => rfl
  | cons c cs ih =>
    have hc := (printable_char_iff.1 (h c List.mem_cons_self)).2
    have hb : (UInt8.ofNat c.toNat).toNat = c.toNat :=
      UInt8.toNat_ofNat_of_lt' (Nat.lt_of_le_of_lt hc (by decide))
    rw [List.flatMap_cons, List.map_append, utf8EncodeChar_of_le (by omega),
      ih fun d hd => h d (List.mem_cons_of_mem c hd)]
    simp [hb]

/-- Printable bytes are the form of the text that they spell. -/
theorem ofText_map {bs : Bytes} (h : ∀ b ∈ bs, 0x20 ≤ b ∧ b ≤ 0x7e) :
    ofText (String.ofList (bs.map fun b => Char.ofNat b.toNat)) = bs := by
  unfold ofText
  rw [String.toList_ofList]
  induction bs with
  | nil => rfl
  | cons b bs ih =>
    have hb : b.toNat ≤ 0x7e := UInt8.le_iff_toNat_le.1 (h b List.mem_cons_self).2
    have hvalid : b.toNat.isValidChar := .inl (by omega)
    have hc : (Char.ofNat b.toNat).toNat = b.toNat := by
      rw [Char.ofNat, dif_pos hvalid]
      rfl
    rw [List.map_cons, List.flatMap_cons, utf8EncodeChar_of_le (by omega), hc, UInt8.ofNat_toNat,
      ih fun c hc => h c (List.mem_cons_of_mem b hc)]
    rfl

end PlatformGuard.Bytes
