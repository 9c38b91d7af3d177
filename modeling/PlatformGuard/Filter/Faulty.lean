import PlatformGuard.Fault
import PlatformGuard.Filter.Hardware

/-!
# Filter hardware that fails on demand

The hardware keeps a list of the calls that were made to it, those that failed included.
-/

namespace PlatformGuard.Filter

/-- The calls of filter hardware. -/
inductive Call where
  | spiLocked (device : UInt8)
  | writeCommands (device : UInt8)
  | writePrivileges (device : UInt8)
  | lockSpi (device : UInt8)
  | i2cLocked (bus : UInt8)
  | writeSlot (bus : UInt8) (index : Nat) (device : UInt8)
  | enable (bus : UInt8) (on : Bool)
  | lockI2c (bus : UInt8)
  deriving DecidableEq, Repr

/-- The name of a call, without what it is about. -/
def Call.name : Call → String
  | spiLocked _ => "spi_locked"
  | writeCommands _ => "write_spi_commands"
  | writePrivileges _ => "write_spi_privileges"
  | lockSpi _ => "lock_spi"
  | i2cLocked _ => "i2c_locked"
  | writeSlot _ _ _ => "write_i2c_slot"
  | enable _ _ => "enable_i2c"
  | lockI2c _ => "lock_i2c"

/-- Hardware with a fault, and the calls that were made to it, first call first. -/
structure Faulty (δ : Type) where
  hardware : δ
  fault : Option (Fault String Error) := none
  calls : List Call := []

namespace Faulty

variable {δ α : Type}

/-- The calls, and hardware whose list of calls begins anew. -/
def drain (f : Faulty δ) : List Call × Faulty δ := (f.calls, { f with calls := [] })

/-- Notes a call and runs a step of the hardware, unless the fault is due. -/
def call (c : Call) (step : ExceptT Error (StateM δ) α) : ExceptT Error (StateM (Faulty δ)) α :=
  fun f =>
    let calls := f.calls ++ [c]
    match f.fault.bind fun x => x.due? c.name with
    | some e => (.error e, { f with calls })
    | none =>
      let (r, hardware) := step f.hardware
      let fault := if r.isOk then f.fault.map fun x => x.spend c.name else f.fault
      (r, { hardware, fault, calls })

instance [Hardware δ] : Hardware (Faulty δ) where
  spiLocked d := call (.spiLocked d) (Hardware.spiLocked d)
  writeCommands d ws := call (.writeCommands d) (Hardware.writeCommands d ws)
  writePrivileges d r w := call (.writePrivileges d) (Hardware.writePrivileges d r w)
  lockSpi d := call (.lockSpi d) (Hardware.lockSpi d)
  i2cLocked b := call (.i2cLocked b) (Hardware.i2cLocked b)
  writeSlot b i s := call (.writeSlot b i s.device) (Hardware.writeSlot b i s)
  enable b on := call (.enable b on) (Hardware.enable b on)
  lockI2c b := call (.lockI2c b) (Hardware.lockI2c b)

end Faulty

end PlatformGuard.Filter
