import PlatformGuard.Flash.Access

/-!
# Windows

A window shows one region of a device as a device of its own, with addresses that start at zero.  The device's
address of a byte is the sum of two, and the region may end outside the address space: then the window has
bytes for which there is no address.
-/

namespace PlatformGuard.Flash

/-- The part of a device that lies in `region`. -/
structure Window (φ : Type) where
  device : φ
  region : Region
  deriving Repr

namespace Window

variable {φ : Type}

/-- Where the device has the bytes of an access. -/
inductive Place where
  /-- From this address on. -/
  | inside (address : UInt32)
  /-- Nowhere: the window does not have that many. -/
  | outside
  /-- Nowhere: the sum of the addresses leaves the address space, and wraps around to this one. -/
  | overflow (wrapped : UInt32)
  deriving DecidableEq, Repr

/-- The address where sums wrap around. -/
def Place.address : Place → Except Error UInt32
  | inside a | overflow a => .ok a
  | outside => .error .outOfRange

/-- Where the device has the `n` bytes that start at `address` in the window. -/
def translate (w : Window φ) (address : UInt32) (n : Nat) : Place :=
  if address.toNat + n < addressLimit ∧ address.toNat + n ≤ w.region.length.toNat then
    if w.region.address.toNat + address.toNat < addressLimit then
      .inside (w.region.address + address)
    else
      .overflow (w.region.address + address)
  else
    .outside

/-- The bound on addresses is no bound of its own: a region is shorter than the address space. -/
theorem address_translate (w : Window φ) (a : UInt32) (n : Nat) : (w.translate a n).address =
    if a.toNat + n ≤ w.region.length.toNat then .ok (w.region.address + a) else .error .outOfRange := by
  have hlt : w.region.length.toNat < addressLimit := w.region.length.toNat_lt
  unfold translate
  by_cases h : a.toNat + n ≤ w.region.length.toNat
  · rw [if_pos h, if_pos ⟨by omega, h⟩]
    split <;> rfl
  · rw [if_neg h, if_neg fun h' => h h'.2]
    rfl

/-- Runs a step on the device behind the window. -/
def onDevice {α : Type} (step : ExceptT Error (StateM φ) α) :
    ExceptT Error (StateM (Window φ)) α := fun w =>
  let (r, f) := step w.device
  (r, { w with device := f })

/-- Runs a step of the device at the translated address. -/
def translated {α : Type} (address : UInt32) (n : Nat)
    (step : UInt32 → ExceptT Error (StateM φ) α) : ExceptT Error (StateM (Window φ)) α := fun w =>
  match (w.translate address n).address with
  | .ok a => onDevice (step a) w
  | .error e => (.error e, w)

/-- Reads the device at the translated address. -/
def readFrom [Flash φ] (w : Window φ) (address : UInt32) (n : Nat) : Except Error Bytes :=
  match (w.translate address n).address with
  | .ok a => Flash.read w.device a n
  | .error e => .error e

theorem length_readFrom [Flash φ] {w : Window φ} {a : UInt32} {n : Nat} {bs : Bytes}
    (h : w.readFrom a n = .ok bs) : bs.length = n := by
  unfold readFrom at h
  split at h
  · exact Flash.length_read h
  · cases h

instance [Flash φ] : Flash (Window φ) where
  size w := .ok w.region.length.toNat
  sectorSize w := Flash.sectorSize w.device
  blockSize w := Flash.blockSize w.device
  read := readFrom
  length_read := length_readFrom
  program a bs := translated a bs.length fun b => Flash.program b bs
  erase r := translated r.address r.length.toNat fun b => Flash.erase ⟨b, r.length⟩
  flush := onDevice Flash.flush

/-- Besides the sum of the window, that of a device which is a window itself may leave the address space. -/
instance [Checked φ] : Checked (Window φ) where
  overflows w c :=
    match w.translate c.address c.length with
    | .inside _ => Checked.overflows w.device (c.moved w.region.address)
    | .outside => false
    | .overflow _ => true

end Window

end PlatformGuard.Flash
