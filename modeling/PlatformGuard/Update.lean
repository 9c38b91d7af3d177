import PlatformGuard.Flash

/-!
# Sequential updates

An updater streams an update into one region of a flash device.  It erases ahead of the writes that
need it, never writes past the declared size, and after a failed write refuses everything until it is
released.
-/

namespace PlatformGuard.Update

/-- Why an update fails. -/
inductive Error where
  /-- A bad region, or a call in the wrong phase. -/
  | invalidArgument
  /-- The declared update does not fit the region. -/
  | tooLarge
  /-- The device wrote fewer bytes than it was given. -/
  | incompleteWrite
  /-- The write would run past the declared size. -/
  | outOfSpace
  | flash (cause : Flash.Error)
  deriving DecidableEq, Repr

namespace Error

def label : Error → String
  | invalidArgument => "InvalidArgument"
  | tooLarge => "TooLarge"
  | incompleteWrite => "IncompleteWrite"
  | outOfSpace => "OutOfSpace"
  | flash e => Status.withPayload "Flash" (Status.label e)

instance : Status Error where
  subsystem _ := .flashUpdater
  localCode
    | invalidArgument => 0
    | tooLarge => 2
    | incompleteWrite => 3
    | outOfSpace => 4
    | flash _ => 5
  label := label
  ofLabel? s :=
    Status.find? label [invalidArgument, tooLarge, incompleteWrite, outOfSpace] s
      <|> Status.wrapped? "Flash" flash s

end Error

/-- The phases of an updater. -/
inductive Phase where
  /-- No update is in progress. -/
  | idle
  /-- An update was prepared and takes data. -/
  | writing
  /-- A write failed; the updater must be released. -/
  | poisoned
  deriving DecidableEq, Repr

def Phase.name : Phase → String
  | idle => "Idle"
  | writing => "Writing"
  | poisoned => "Poisoned"

/-- The unit that an updater erases in. -/
inductive EraseUnit where
  | sector | block
  deriving DecidableEq, Repr

namespace EraseUnit

instance : Coded EraseUnit where
  all := [sector, block]
  number
    | sector => 0
    | block => 1
  name
    | sector => "Sector"
    | block => "Block"

/-- The size of the unit on a device. -/
def sizeOn {φ : Type} [Flash φ] (u : EraseUnit) (f : φ) : Nat :=
  match u with
  | sector => Flash.sectorSize f
  | block => Flash.blockSize f

end EraseUnit

end PlatformGuard.Update

namespace PlatformGuard

/-- An updater, which owns its device. -/
structure Updater (φ : Type) where
  device : φ
  region : Region
  /-- The size of the unit that is erased at a time. -/
  granularity : Nat
  /-- The declared size of the update. -/
  updateSize : Nat := 0
  /-- How many bytes were written. -/
  written : Nat := 0
  /-- How many bytes of the region were erased. -/
  erased : Nat := 0
  phase : Update.Phase := .idle
  deriving Repr

namespace Updater

open Update

variable {φ : Type} [Flash φ]

/-! ### Regions -/

/-- Whether a region is aligned to the granularity and lies inside the device. -/
def checkRegion (f : φ) (region : Region) (granularity : Nat) : Except Error Unit :=
  if granularity = 0 ∨ region.address.toNat % granularity ≠ 0
      ∨ region.length.toNat % granularity ≠ 0 ∨ ¬ region.limit < addressLimit then
    .error .invalidArgument
  else
    match Flash.size f with
    | .error e => .error (.flash e)
    | .ok size => if region.limit ≤ size then .ok () else .error .invalidArgument

/-- An idle updater of a region. -/
def start (f : φ) (region : Region) (unit : EraseUnit) : Except Error (Updater φ) :=
  (checkRegion f region (unit.sizeOn f)).map fun _ =>
    { device := f, region, granularity := unit.sizeOn f }

/-- The number of bytes that are still to be written. -/
def remaining (u : Updater φ) : Nat := u.updateSize - u.written

/-- A step of an updater. -/
abbrev Step (φ α : Type) := ExceptT Error (StateM (Updater φ)) α

/-- Moves the start of the region forward by whole units. -/
def applyOffset (offset : UInt32) : Step φ Unit := fun u =>
  if u.phase = .idle ∧ offset.toNat % u.granularity = 0 ∧ offset ≤ u.region.length then
    (.ok (), { u with region := ⟨u.region.address + offset, u.region.length - offset⟩ })
  else
    (.error .invalidArgument, u)

/-! ### Preparation -/

/-- Whether an update of `n` bytes fits the region. -/
def checkSize (u : Updater φ) (n : Nat) : Except Error Unit :=
  if n ≤ u.region.length.toNat then .ok () else .error .tooLarge

/-- Declares an update of `n` bytes. -/
def declare (n : Nat) : Step φ Unit := fun u =>
  if u.phase = .idle then
    match u.checkSize n with
    | .ok () => (.ok (), { u with updateSize := n, written := 0, erased := 0 })
    | .error e => (.error e, u)
  else
    (.error .invalidArgument, u)

/-- Opens the declared update for data. -/
def openForData : Step φ Unit := fun u => (.ok (), { u with phase := .writing })

/-- Begins an update of `n` bytes that erases as it goes. -/
def prepare (n : Nat) : Step φ Unit := do
  declare n
  openForData

/-- Erases the whole region. -/
def eraseRegion : Step φ Unit := fun u =>
  if u.region.length = 0 then (.ok (), { u with erased := 0 })
  else
    match Flash.erase u.region u.device with
    | (.ok (), f) => (.ok (), { u with device := f, erased := u.region.length.toNat })
    | (.error e, f) => (.error (.flash e), { u with device := f })

/-- Begins an update of `n` bytes by erasing the whole region. -/
def prepareErased (n : Nat) : Step φ Unit := do
  declare n
  eraseRegion
  openForData

/-! ### Writing -/

/-- Refuses further writes. -/
def poison (e : Error) : Step φ Unit := fun u => (.error e, { u with phase := .poisoned })

/-- The least multiple of `unit` that is not below `n`. -/
def roundUp (n unit : Nat) : Nat := (n + unit - 1) / unit * unit

/-- Erases whole units until the first `target` bytes of the region are erased. -/
def eraseUpTo (target : Nat) : Step φ Unit := fun u =>
  if target ≤ u.erased then (.ok (), u)
  else
    let goal := roundUp target u.granularity
    let r : Region :=
      ⟨u.region.address + UInt32.ofNat u.erased, UInt32.ofNat (goal - u.erased)⟩
    match Flash.erase r u.device with
    | (.ok (), f) => (.ok (), { u with device := f, erased := goal })
    | (.error e, f) => poison (.flash e) { u with device := f }

/-- Programs data at the place that was reached, and counts what the device reports. -/
def programNext (data : Bytes) : Step φ Unit := fun u =>
  match Flash.program (u.region.address + UInt32.ofNat u.written) data u.device with
  | (.ok n, f) =>
    let n := min n data.length
    let u := { u with device := f, written := u.written + n }
    if n < data.length then poison .incompleteWrite u else (.ok (), u)
  | (.error e, f) => poison (.flash e) { u with device := f }

/-- Whether an update is open for data. -/
def requireWriting : Step φ Unit := fun u =>
  if u.phase = .writing then (.ok (), u) else (.error .invalidArgument, u)

/-- Poisons the update unless `n` more bytes fit the declared size. -/
def requireSpace (n : Nat) : Step φ Unit := fun u =>
  if u.written + n ≤ u.updateSize then (.ok (), u) else poison .outOfSpace u

/-- Writes the next piece of the update. -/
def write (data : Bytes) : Step φ Unit := do
  requireWriting
  requireSpace data.length
  let u ← get
  eraseUpTo (u.written + data.length)
  programNext data

/-- Ends the update, if there is one, and leaves the device as it is. -/
def release (u : Updater φ) : Updater φ :=
  { u with updateSize := 0, written := 0, erased := 0, phase := .idle }

end Updater

end PlatformGuard
