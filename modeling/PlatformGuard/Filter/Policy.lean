import PlatformGuard.Filter.Hardware
import PlatformGuard.Filter.Target
import PlatformGuard.Manifest

/-!
# Filter policies

A policy is what the filters enforce while the host runs one version of a firmware.  It is derived from
a verified manifest, starting from a policy that denies everything, and then programmed.
-/

namespace PlatformGuard.Filter

/-- What one SPI monitor enforces. -/
structure SpiPolicy where
  device : UInt8
  commands : CommandTable
  privileges : Privileges
  deriving DecidableEq

/-- What the filters of a target enforce. -/
structure Policy where
  spi : SpiPolicy
  i2c : BusPolicy
  deriving DecidableEq

namespace Policy

def denyAll (t : Target) : Policy := ⟨⟨t.spiDevice, .empty, .none⟩, .denyAll t.i2cBus⟩

def isReadAllowed (p : Policy) (address : Nat) : Bool := p.spi.privileges.isReadAllowed address

def isWriteAllowed (p : Policy) (address : Nat) : Bool := p.spi.privileges.isWriteAllowed address

def isWriteEnforced (p : Policy) (address : Nat) : Bool := p.spi.privileges.isWriteEnforced address

/-! ### Derivation -/

/-- The table with every safe command. -/
def safeTable : Except Error CommandTable :=
  safeCommands.foldlM (fun t c => (t.add c.opcode .always).map Prod.fst) .empty

/-- Allows what a version says: its read-write regions may be read and written, its image regions may
be read. -/
def versionPrivileges (v : Manifest.Version) : Except Error Privileges := do
  let p ← v.rwRegions.foldlM
    (fun p r => do
      let p ← p.allowWrite r.region
      p.allowRead r.region)
    Privileges.none
  (v.images.flatMap Manifest.Image.regions).foldlM Privileges.allowRead p

/-- Gives the slots of a bus to the devices of its rules. -/
def ruleSlots (bus : UInt8) (rules : List Manifest.SmbusRule) : Except Error BusPolicy :=
  (rules.filter fun r => r.bus == bus).foldlM
    (fun (p : BusPolicy) (r : Manifest.SmbusRule) => p.bind r.rule.toNat (r.device >>> 1) ⟨r.words⟩)
    (.denyAll bus)

/-- The policy for one version of a firmware. -/
def ofManifest (m : Manifest) (firmware : Option Bytes) (version : Bytes) (t : Target) :
    Except Error Policy := do
  let v ← (m.findVersion firmware version).mapError .manifest
  let commands ← safeTable
  let privileges ← versionPrivileges v
  let i2c ← ruleSlots t.i2cBus m.smbusRules
  return ⟨⟨t.spiDevice, commands, privileges⟩, i2c⟩

/-- Derives the policy for one version of a firmware, unless the target is locked. -/
def synthesize {δ : Type} [Hardware δ] (m : Manifest) (firmware : Option Bytes) (version : Bytes)
    (t : Target) : ExceptT Error (StateM δ) Policy := do
  if ← Hardware.spiLocked t.spiDevice then throw .locked
  if ← Hardware.i2cLocked t.i2cBus then throw .locked
  MonadExcept.ofExcept (ofManifest m firmware version t)

end Policy

/-! ### Programming -/

section hardware
variable {δ : Type} [Hardware δ]

/-- Programs an SPI monitor, and locks it if asked to. -/
def SpiPolicy.apply (p : SpiPolicy) (lock : Bool) : ExceptT Error (StateM δ) Unit := do
  if ← Hardware.spiLocked p.device then throw .locked
  Hardware.writeCommands p.device p.commands.words
  Hardware.writePrivileges p.device p.privileges.readTable p.privileges.writeTable
  if lock then Hardware.lockSpi p.device

/-- Programs slots in turn, from the `index`th on; an empty slot denies everything. -/
def writeSlots (bus : UInt8) : (index : Nat) → List (Option Slot) → ExceptT Error (StateM δ) Unit
  | _, [] => pure ()
  | index, s :: rest => do
    Hardware.writeSlot bus index (s.getD ⟨0, .denyAll⟩)
    writeSlots bus (index + 1) rest

/-- Programs the filter of a bus and turns it on, and locks it if asked to. -/
def BusPolicy.apply (p : BusPolicy) (lock : Bool) : ExceptT Error (StateM δ) Unit := do
  if ← Hardware.i2cLocked p.bus then throw .locked
  writeSlots p.bus 0 p.slots.toList
  Hardware.enable p.bus true
  if lock then Hardware.lockI2c p.bus

/-- Programs both filters of a policy. -/
def Policy.apply (p : Policy) (lock : Bool) : ExceptT Error (StateM δ) Unit := do
  p.spi.apply lock
  p.i2c.apply lock

end hardware

end PlatformGuard.Filter
