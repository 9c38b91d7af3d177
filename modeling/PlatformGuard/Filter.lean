import PlatformGuard.Manifest.Error

/-!
# Failures of the bus filters
-/

namespace PlatformGuard.Filter

/-- Why a filter operation fails. -/
inductive Error where
  /-- A table or an entry is locked. -/
  | locked
  /-- The command is not on the safe list. -/
  | commandNotAllowed (opcode : UInt8)
  | tableFull
  /-- The command is not in the table. -/
  | notPresent
  /-- The hardware has no such address, device or bus. -/
  | outOfRange
  | tooManyRanges
  /-- There is no such slot, or its address is taken. -/
  | badSlot
  /-- The event queue is full. -/
  | full
  /-- The hardware failed. -/
  | driver
  | manifest (cause : Manifest.Error)
  deriving DecidableEq, Repr

namespace Error

def plain : List Error :=
  [locked, tableFull, notPresent, outOfRange, tooManyRanges, badSlot, full, driver]

def label : Error → String
  | locked => "Locked"
  | commandNotAllowed n => Status.withPayload "CommandNotAllowed" (toString n.toNat)
  | tableFull => "TableFull"
  | notPresent => "NotPresent"
  | outOfRange => "OutOfRange"
  | tooManyRanges => "TooManyRanges"
  | badSlot => "BadSlot"
  | full => "Full"
  | driver => "Driver"
  | manifest e => Status.withPayload "Manifest" (Status.label e)

instance : Status Error where
  subsystem
    | manifest e => Status.subsystem e
    | _ => .filter
  localCode
    | locked => 0
    | commandNotAllowed _ => 1
    | tableFull => 2
    | notPresent => 3
    | outOfRange => 4
    | tooManyRanges => 5
    | badSlot => 6
    | full => 7
    | driver => 8
    | manifest e => Status.localCode e
  label := label
  ofLabel? s :=
    Status.find? label plain s
      <|> Status.numbered? "CommandNotAllowed" (fun n => commandNotAllowed (UInt8.ofNat n)) s
      <|> Status.wrapped? "Manifest" manifest s

end Error

end PlatformGuard.Filter
