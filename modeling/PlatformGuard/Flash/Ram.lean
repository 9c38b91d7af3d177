import PlatformGuard.Flash.Access

/-!
# Devices in memory

`Ram` can be written, `Rom` cannot, and `ReadOnly` is a device behind a handle that forbids writing.
-/

namespace PlatformGuard.Flash

/-! ### Contents -/

/-- The contents with `bs` written from index `i` on; bytes past the end are dropped. -/
def overwrite (contents : Array UInt8) (i : Nat) : Bytes → Array UInt8
  | [] => contents
  | b :: bs => overwrite (contents.setIfInBounds i b) (i + 1) bs

@[simp]
theorem size_overwrite (contents : Array UInt8) (i : Nat) (bs : Bytes) :
    (overwrite contents i bs).size = contents.size := by
  induction bs generalizing contents i with
  | nil => rfl
  | cons b bs ih => simp [overwrite, ih]

/-- The `n` bytes from an address on, if all of them exist. -/
def readFrom (contents : Array UInt8) (address : UInt32) (n : Nat) : Except Error Bytes :=
  if address.toNat + n ≤ contents.size then
    .ok (contents.extract address.toNat (address.toNat + n)).toList
  else
    .error .outOfRange

theorem length_readFrom {contents : Array UInt8} {address : UInt32} {n : Nat} {bs : Bytes}
    (h : readFrom contents address n = .ok bs) : bs.length = n := by
  unfold readFrom at h
  split at h
  · cases h
    simp
    omega
  · cases h

/-- The number of bytes, if an address can hold it. -/
def sizeOf (contents : Array UInt8) : Except Error Nat :=
  if contents.size < addressLimit then .ok contents.size else .error .unspecified

/-! ### Memory that can be written -/

/-- Memory that is overwritten by programming, whether or not it was erased before. -/
structure Ram where
  contents : Array UInt8
  deriving DecidableEq, Repr

instance : Flash Ram where
  size f := sizeOf f.contents
  sectorSize _ := defaultSectorSize
  blockSize _ := defaultBlockSize
  read f := readFrom f.contents
  length_read := length_readFrom
  program address bs f :=
    if address.toNat + bs.length ≤ f.contents.size then
      (.ok bs.length, ⟨overwrite f.contents address.toNat bs⟩)
    else
      (.error .outOfRange, f)
  erase r f :=
    if r.address.toNat % defaultSectorSize ≠ 0 ∨ r.length.toNat % defaultSectorSize ≠ 0 then
      (.error .misaligned, f)
    else if r.limit ≤ f.contents.size then
      (.ok (), ⟨overwrite f.contents r.address.toNat (List.replicate r.length.toNat erasedByte)⟩)
    else
      (.error .outOfRange, f)
  flush f := (.ok (), f)

instance : Checked Ram := ⟨fun _ _ => false⟩

/-! ### Memory that cannot be written -/

structure Rom where
  contents : Array UInt8
  deriving DecidableEq, Repr

instance : Flash Rom where
  size f := sizeOf f.contents
  sectorSize _ := defaultSectorSize
  blockSize _ := defaultBlockSize
  read f := readFrom f.contents
  length_read := length_readFrom
  program _ _ f := (.error .locked, f)
  erase _ f := (.error .locked, f)
  flush f := (.ok (), f)

instance : Checked Rom := ⟨fun _ _ => false⟩

/-! ### Read-only handles -/

/-- A device that may only be read. -/
structure ReadOnly (φ : Type) where
  device : φ
  deriving Repr

instance {φ : Type} [Flash φ] : Flash (ReadOnly φ) where
  size f := Flash.size f.device
  sectorSize f := Flash.sectorSize f.device
  blockSize f := Flash.blockSize f.device
  read f := Flash.read f.device
  length_read := Flash.length_read
  program _ _ f := (.error .locked, f)
  erase _ f := (.error .locked, f)
  flush f := (.error .locked, f)

/-- What is forbidden does not reach the device. -/
instance {φ : Type} [Checked φ] : Checked (ReadOnly φ) where
  overflows f
    | c@(.read _ _) => Checked.overflows f.device c
    | .program _ _ | .erase _ => false

end PlatformGuard.Flash
