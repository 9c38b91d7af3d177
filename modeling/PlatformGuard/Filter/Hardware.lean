import PlatformGuard.Filter.Command
import PlatformGuard.Filter.Range
import PlatformGuard.Filter.Slot

/-!
# Filter hardware

The registers of the SPI monitors and of the I2C filters.  What is locked stays locked until the
hardware is reset, and programming it fails.
-/

namespace PlatformGuard.Filter

/-- Filter hardware with states `δ`. -/
class Hardware (δ : Type) where
  /-- Whether any table of an SPI monitor is locked. -/
  spiLocked : (device : UInt8) → ExceptT Error (StateM δ) Bool
  writeCommands : (device : UInt8) → CommandWords → ExceptT Error (StateM δ) Unit
  writePrivileges : (device : UInt8) → (read write : PrivilegeTable) → ExceptT Error (StateM δ) Unit
  /-- Locks every table of an SPI monitor. -/
  lockSpi : (device : UInt8) → ExceptT Error (StateM δ) Unit
  i2cLocked : (bus : UInt8) → ExceptT Error (StateM δ) Bool
  writeSlot : (bus : UInt8) → (index : Nat) → Slot → ExceptT Error (StateM δ) Unit
  /-- Turns the filter of a bus on or off. -/
  enable : (bus : UInt8) → Bool → ExceptT Error (StateM δ) Unit
  lockI2c : (bus : UInt8) → ExceptT Error (StateM δ) Unit

/-! ### A model of the hardware -/

/-- Bits of a lock register. -/
def readTableLock : UInt32 := 0x80000000
def writeTableLock : UInt32 := 0x40000000

/-- The registers of an SPI monitor. -/
structure SpiMonitor where
  commands : CommandWords
  read : PrivilegeTable
  write : PrivilegeTable
  lock : UInt32
  deriving DecidableEq

namespace SpiMonitor

/-- The registers after a reset. -/
def reset : SpiMonitor :=
  ⟨Vector.replicate slotCount 0, Vector.replicate privilegeWords 0, Vector.replicate privilegeWords 0,
    0⟩

def hasLockedSlot (m : SpiMonitor) : Bool := m.commands.any isLockedWord

def isLocked (m : SpiMonitor) : Bool := m.lock != 0 || m.hasLockedSlot

end SpiMonitor

/-- The registers of an I2C filter. -/
structure I2cFilter where
  slots : Vector Slot busSlots
  enabled : Bool
  locked : Bool
  deriving DecidableEq

namespace I2cFilter

/-- The registers after a reset. -/
def reset : I2cFilter := ⟨Vector.replicate busSlots ⟨0, .denyAll⟩, false, false⟩

/-- The slots whose registers are not those after a reset. -/
def programmed (f : I2cFilter) : List (Fin busSlots × Slot) :=
  (List.finRange busSlots).filterMap fun i =>
    let slot := f.slots.get i
    if slot = ⟨0, .denyAll⟩ then none else some (i, slot)

end I2cFilter

/-- The number of SPI monitors and of filtered buses. -/
def monitorCount : Nat := 2
def busCount : Nat := 5

/-- A model of the filter hardware. -/
structure SoftFilter where
  monitors : Vector SpiMonitor monitorCount
  buses : Vector I2cFilter busCount
  deriving DecidableEq

namespace SoftFilter

def reset : SoftFilter :=
  ⟨Vector.replicate monitorCount .reset, Vector.replicate busCount .reset⟩

/-- Runs a step on one monitor, if there is such a one. -/
def onMonitor {α : Type} (device : UInt8) (step : ExceptT Error (StateM SpiMonitor) α) :
    ExceptT Error (StateM SoftFilter) α := fun f =>
  if h : device.toNat < monitorCount then
    let (r, m) := step f.monitors[device.toNat]
    (r, { f with monitors := f.monitors.set device.toNat m })
  else
    (.error .outOfRange, f)

/-- Runs a step on the filter of one bus, if there is such a one. -/
def onBus {α : Type} (bus : UInt8) (step : ExceptT Error (StateM I2cFilter) α) :
    ExceptT Error (StateM SoftFilter) α := fun f =>
  if h : bus.toNat < busCount then
    let (r, b) := step f.buses[bus.toNat]
    (r, { f with buses := f.buses.set bus.toNat b })
  else
    (.error .outOfRange, f)

/-- Changes the filter of one bus, unless it is locked. -/
def change (bus : UInt8) (step : I2cFilter → Except Error I2cFilter) :
    ExceptT Error (StateM SoftFilter) Unit :=
  onBus bus fun b =>
    if b.locked then (.error .locked, b)
    else
      match step b with
      | .ok c => (.ok (), c)
      | .error e => (.error e, b)

instance : Hardware SoftFilter where
  spiLocked device := onMonitor device fun m => (.ok m.isLocked, m)
  writeCommands device commands :=
    onMonitor device fun m =>
      if m.hasLockedSlot then (.error .locked, m) else (.ok (), { m with commands })
  writePrivileges device read write :=
    onMonitor device fun m =>
      if m.lock &&& (readTableLock ||| writeTableLock) != 0 then (.error .locked, m)
      else (.ok (), { m with read, write })
  lockSpi device :=
    onMonitor device fun m =>
      (.ok (), { m with
        lock := m.lock ||| readTableLock ||| writeTableLock
        commands := m.commands.map (· ||| lockBit) })
  i2cLocked bus := onBus bus fun b => (.ok b.locked, b)
  writeSlot bus index slot :=
    change bus fun b =>
      if h : index < busSlots then .ok { b with slots := b.slots.set index slot }
      else .error .badSlot
  enable bus on := change bus fun b => .ok { b with enabled := on }
  lockI2c bus := change bus fun b => .ok { b with locked := true }

end SoftFilter

end PlatformGuard.Filter
