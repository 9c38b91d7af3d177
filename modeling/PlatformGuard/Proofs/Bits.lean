import PlatformGuard.Bits
import PlatformGuard.Proofs.Bytes

/-!
# Bits of words and tables

A word or a table that is built from a predicate has the bits that the predicate says.
-/

namespace PlatformGuard.Bits

theorem testBit_pack (bs : List Bool) (i : Nat) : (pack bs).testBit i = bs.getD i false := by
  induction bs generalizing i with
  | nil => simp [pack]
  | cons b bs ih =>
    cases i with
    | zero => cases b <;> simp [pack, Nat.testBit_zero, Nat.add_mul_mod_self_left]
    | succ i =>
      have hb := Bool.toNat_lt b
      have : (b.toNat + 2 * pack bs) / 2 = pack bs := by omega
      simp [pack, Nat.testBit_succ, this, ih]

theorem pack_lt (bs : List Bool) : pack bs < 2 ^ bs.length := by
  induction bs with
  | nil => simp [pack]
  | cons b bs ih =>
    have := Bool.toNat_lt b
    simp only [pack, List.length_cons, Nat.pow_succ]
    omega

theorem test_word (p : Nat → Bool) {i : Nat} (h : i < wordSize) : test (word p) i = p i := by
  have hlt := pack_lt ((List.range wordSize).map p)
  have hnat : (word p).toNat = pack ((List.range wordSize).map p) := by
    rw [word, UInt32.toNat_ofNat']
    exact Nat.mod_eq_of_lt (by simpa [wordSize] using hlt)
  simp [test, hnat, testBit_pack, List.getElem?_range h]

theorem testIn_table (n : Nat) (p : Nat → Bool) (i : Nat) :
    testIn (table n p) i = (decide (i < wordSize * n) && p i) := by
  have hw : 0 < wordSize := by decide
  have hi : wordSize * (i / wordSize) + i % wordSize = i := Nat.div_add_mod i wordSize
  by_cases h : i / wordSize < n
  · have hlt : i < wordSize * n := by
      rw [Nat.mul_comm]
      exact (Nat.div_lt_iff_lt_mul hw).1 h
    simp [testIn, table, h, hlt, test_word _ (Nat.mod_lt i hw), hi]
  · have hge : ¬ i < wordSize * n := by
      intro hlt
      rw [Nat.mul_comm] at hlt
      exact h ((Nat.div_lt_iff_lt_mul hw).2 hlt)
    simp [testIn, table, h, hge]

theorem eq_of_test {v w : UInt32} (h : ∀ i < wordSize, test v i = test w i) : v = w := by
  refine UInt32.toNat_inj.1 (Nat.eq_of_testBit_eq fun i => ?_)
  by_cases hi : i < wordSize
  · exact h i hi
  · have hlt : ∀ x : UInt32, x.toNat < 2 ^ i := fun x =>
      Nat.lt_of_lt_of_le x.toNat_lt (Nat.pow_le_pow_right (by decide) (Nat.le_of_not_lt hi))
    rw [Nat.testBit_lt_two_pow (hlt v), Nat.testBit_lt_two_pow (hlt w)]

/-- A table is known by its bits. -/
theorem eq_of_testIn {n : Nat} {s t : Vector UInt32 n} (h : ∀ i, testIn s i = testIn t i) : s = t := by
  refine Vector.ext fun k hk => eq_of_test fun j hj => ?_
  have hdiv : (wordSize * k + j) / wordSize = k := by
    rw [Nat.mul_add_div (by decide), Nat.div_eq_of_lt hj, Nat.add_zero]
  have hmod : (wordSize * k + j) % wordSize = j := by
    rw [Nat.mul_add_mod, Nat.mod_eq_of_lt hj]
  have hbit := h (wordSize * k + j)
  simpa only [testIn, hdiv, hmod, Vector.getElem?_eq_getElem hk] using hbit

/-! ### Words and bytes -/

theorem or_and_cancel (x y : UInt32) : (x ||| y) &&& y = y := by
  apply UInt32.toBitVec_inj.1
  ext i
  simp
  grind

theorem or_or_cancel (x y : UInt32) : x ||| y ||| y = x ||| y := by
  rw [UInt32.or_assoc, UInt32.or_self]

/-- Bits that a mask does not have do not matter behind it. -/
theorem or_and_of_disjoint {l m : UInt32} (h : l &&& m = 0) (w : UInt32) :
    (w ||| l) &&& m = w &&& m := by
  rw [← UInt32.toBitVec_inj] at h ⊢
  ext i hi
  have hi := congrArg (fun b : BitVec 32 => b[i]) h
  simp only [UInt32.toBitVec_and, UInt32.toBitVec_or, BitVec.getElem_and, BitVec.getElem_or] at hi ⊢
  cases h₁ : l.toBitVec[i]
  · simp
  · rw [h₁] at hi
    have hm : m.toBitVec[i] = false := by simpa using hi
    simp [hm]

/-- The bits of a number lie eight to a byte. -/
theorem testBit_toNatLE (bs : Bytes) (i : Nat) :
    (Bytes.toNatLE bs).testBit i = (bs.getD (i / 8) 0).toNat.testBit (i % 8) := by
  induction bs generalizing i with
  | nil => simp [Bytes.toNatLE]
  | cons b bs ih =>
    have hb : b.toNat < 2 ^ 8 := b.toNat_lt
    rw [Bytes.toNatLE, Nat.add_comm, show (256 : Nat) = 2 ^ 8 by decide, Nat.testBit_two_pow_mul_add _ hb]
    by_cases h : i < 8
    · rw [if_pos h, Nat.div_eq_of_lt h, Nat.mod_eq_of_lt h]
      rfl
    · have hi : i / 8 = (i - 8) / 8 + 1 := by omega
      have hm : i % 8 = (i - 8) % 8 := by omega
      rw [if_neg h, ih, hi, hm]
      rfl

end PlatformGuard.Bits
