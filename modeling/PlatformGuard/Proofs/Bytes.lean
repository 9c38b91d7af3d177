import PlatformGuard.Bytes
import Mathlib.Algebra.Group.Nat.Defs
import Mathlib.Data.List.Basic

/-!
# Laws of byte strings

A number of a fixed width in either byte order can be read back, and equality that looks at every byte
is equality.
-/

namespace PlatformGuard.Bytes

/-! ### Numbers -/

theorem toNatLE_ofNatLE (k n : Nat) : toNatLE (ofNatLE k n) = n % 256 ^ k := by
  induction k generalizing n with
  | zero => simp [ofNatLE, toNatLE, Nat.mod_one]
  | succ k ih =>
    have h : (UInt8.ofNat n).toNat = n % 256 := UInt8.toNat_ofNat'
    rw [ofNatLE, toNatLE, ih, h, Nat.pow_succ', Nat.mod_mul]

theorem toNatLE_lt (bs : Bytes) : toNatLE bs < 256 ^ bs.length := by
  induction bs with
  | nil => simp [toNatLE]
  | cons b bs ih =>
    have := b.toNat_lt
    simp only [toNatLE, List.length_cons, Nat.pow_succ]
    omega

theorem toNatBE_eq (bs : Bytes) : toNatBE bs = toNatLE bs.reverse := by
  rw [toNatBE, ← List.foldr_reverse]
  induction bs.reverse with
  | nil => rfl
  | cons b bs ih =>
    rw [List.foldr_cons, ih, toNatLE]
    omega

theorem toNatBE_ofNatBE (k n : Nat) : toNatBE (ofNatBE k n) = n % 256 ^ k := by
  rw [toNatBE_eq, ofNatBE, List.reverse_reverse, toNatLE_ofNatLE]

/-! ### Equality that looks at every byte -/

theorem foldl_or_eq_zero {bs : Bytes} {a : UInt8} :
    bs.foldl (· ||| ·) a = 0 ↔ a = 0 ∧ ∀ b ∈ bs, b = 0 := by
  induction bs generalizing a with
  | nil => simp
  | cons b bs ih => simp [ih, and_assoc]

theorem zipWith_xor_zero {a b : Bytes} (h : a.length = b.length) :
    (∀ c ∈ List.zipWith (· ^^^ ·) a b, c = 0) ↔ a = b := by
  induction a generalizing b with
  | nil => simp [List.eq_nil_of_length_eq_zero h.symm]
  | cons x xs ih =>
    obtain ⟨y, ys, rfl⟩ := List.exists_cons_of_length_eq_add_one h.symm
    simp [ih (by simpa using h)]

theorem ctEq_iff {a b : Bytes} : ctEq a b = true ↔ a = b := by
  unfold ctEq
  simp only [Bool.and_eq_true, beq_iff_eq, foldl_or_eq_zero, true_and]
  constructor
  · rintro ⟨hl, h⟩
    exact (zipWith_xor_zero hl).1 h
  · rintro rfl
    exact ⟨rfl, (zipWith_xor_zero rfl).2 rfl⟩

end PlatformGuard.Bytes
