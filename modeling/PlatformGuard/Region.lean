/-!
# Regions of a 32-bit address space
-/

namespace PlatformGuard

/-- The first address past the 32-bit address space. -/
def addressLimit : Nat := 0x100000000

/-- Inside the address space, steps behind an address do not wrap around. -/
theorem toNat_add_ofNat {a : UInt32} {n : Nat} (h : a.toNat + n < addressLimit) :
    (a + UInt32.ofNat n).toNat = a.toNat + n := by
  unfold addressLimit at h
  rw [UInt32.toNat_add, UInt32.toNat_ofNat']
  omega

/-- `length` consecutive addresses from `address` on. -/
structure Region where
  address : UInt32
  length : UInt32
  deriving DecidableEq, Repr

namespace Region

/-- The first address past the region, as a number that may lie outside the address space. -/
def limit (r : Region) : Nat := r.address.toNat + r.length.toNat

/-- Membership of an address. -/
instance : Membership Nat Region := ⟨fun r a => r.address.toNat ≤ a ∧ a < r.limit⟩

instance (a : Nat) (r : Region) : Decidable (a ∈ r) :=
  inferInstanceAs (Decidable (r.address.toNat ≤ a ∧ a < r.limit))

theorem mem_def {a : Nat} {r : Region} : a ∈ r ↔ r.address.toNat ≤ a ∧ a < r.limit := Iff.rfl

/-- The region from `first` up to but not including `last`, unless it is empty. -/
def ofBounds? (first last : UInt32) : Option Region :=
  if first < last then some ⟨first, last - first⟩ else none

/-- The first address past the region, if the address space holds it. -/
def end? (r : Region) : Option UInt32 :=
  if r.limit < addressLimit then some (UInt32.ofNat r.limit) else none

/-- Whether `r` lies within `s`, and both end inside the address space. -/
def isWithin (r s : Region) : Bool :=
  match r.end?, s.end? with
  | some rEnd, some sEnd => decide (s.address ≤ r.address) && decide (rEnd ≤ sEnd)
  | _, _ => false

/-- Whether `r` and `s` start before the end of each other. -/
def overlaps (r s : Region) : Bool :=
  decide (r.address.toNat < s.limit) && decide (s.address.toNat < r.limit)

end Region

end PlatformGuard
