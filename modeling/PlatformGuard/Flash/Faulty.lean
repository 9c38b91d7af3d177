import PlatformGuard.Flash

/-!
# Devices that fail on demand

Such a device fails where it is told to, programs fewer bytes than it is given, says that it programmed
more, and keeps a list of what it was asked to change.
-/

namespace PlatformGuard.Flash

/-- The calls that can fail. -/
inductive Call where
  | size | read | program | erase
  deriving DecidableEq, Repr

instance : Coded Call where
  all := [.size, .read, .program, .erase]
  number
    | .size => 0
    | .read => 1
    | .program => 2
    | .erase => 3
  name
    | .size => "size"
    | .read => "read"
    | .program => "program"
    | .erase => "erase"

/-- What a device was asked to change. -/
inductive Request where
  /-- Of `given` bytes the device took those in `taken`. -/
  | program (address : UInt32) (given : Nat) (taken : Bytes)
  | erase (region : Region)
  deriving DecidableEq, Repr

/-- How a device misbehaves. -/
structure Faults where
  failure : Option Error := none
  /-- The calls that fail; all of them, if there are none. -/
  calls : List Call := []
  /-- The largest number of bytes that are programmed at a time. -/
  short : Option Nat := none
  /-- What is added to the number of bytes that were programmed. -/
  excess : Nat := 0
  deriving Repr

namespace Faults

/-- The failure of a call, if there is one. -/
def at? (f : Faults) (c : Call) : Option Error :=
  if f.calls.isEmpty || f.calls.contains c then f.failure else none

/-- Runs a step unless the call fails. -/
def guard {σ α : Type} (f : Faults) (c : Call) (step : ExceptT Error (StateM σ) α) :
    ExceptT Error (StateM σ) α :=
  match f.at? c with
  | some e => throw e
  | none => step

end Faults

/-- A device with faults, and what it was asked to change, first request first. -/
structure Faulty (φ : Type) where
  device : φ
  /-- Sizes to report instead of the device's own. -/
  sector : Option Nat := none
  block : Option Nat := none
  faults : Faults := {}
  requests : List Request := []

namespace Faulty

variable {φ : Type}

/-- The requests, and a device whose list of requests begins anew. -/
def drain (f : Faulty φ) : List Request × Faulty φ := (f.requests, { f with requests := [] })

variable [Flash φ]

def readFrom (f : Faulty φ) (address : UInt32) (n : Nat) : Except Error Bytes :=
  match f.faults.at? .read with
  | some e => .error e
  | none => Flash.read f.device address n

theorem length_readFrom {f : Faulty φ} {a : UInt32} {n : Nat} {bs : Bytes}
    (h : f.readFrom a n = .ok bs) : bs.length = n := by
  unfold readFrom at h
  split at h
  · cases h
  · exact Flash.length_read h

/-- Notes a request and runs a step of the device. -/
def request {α : Type} (r : Request) (step : ExceptT Error (StateM φ) α) :
    ExceptT Error (StateM (Faulty φ)) α := fun f =>
  let (x, d) := step f.device
  (x, { f with device := d, requests := f.requests ++ [r] })

def programFrom (address : UInt32) (bs : Bytes) : ExceptT Error (StateM (Faulty φ)) Nat := do
  let f ← get
  let taken := bs.take (f.faults.short.getD bs.length)
  let n ← request (.program address bs.length taken) (Flash.program address taken)
  return n + f.faults.excess

instance : Flash (Faulty φ) where
  size f :=
    match f.faults.at? .size with
    | some e => .error e
    | none => Flash.size f.device
  sectorSize f := f.sector.getD (Flash.sectorSize f.device)
  blockSize f := f.block.getD (Flash.blockSize f.device)
  read := readFrom
  length_read := length_readFrom
  program address bs := do
    let f ← get
    f.faults.guard .program (programFrom address bs)
  erase r := do
    let f ← get
    f.faults.guard .erase (request (.erase r) (Flash.erase r))
  flush := fun f =>
    let (r, d) := Flash.flush f.device
    (r, { f with device := d })

end Faulty

end PlatformGuard.Flash
