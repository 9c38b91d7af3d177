import PlatformGuard.Bytes
import PlatformGuard.Region
import PlatformGuard.Status

/-!
# Flash devices

A device is read and programmed at any address and erased in whole sectors.  Every operation may
fail, and a device may program fewer bytes than it was given, or say so.
-/

namespace PlatformGuard

namespace Flash

/-- Why a flash device fails. -/
inductive Error where
  | outOfRange | misaligned | locked | internal | unspecified
  deriving DecidableEq, Repr

namespace Error

def all : List Error := [outOfRange, misaligned, locked, internal, unspecified]

instance : Status Error :=
  let label : Error → String
    | outOfRange => "OutOfRange"
    | misaligned => "Misaligned"
    | locked => "Locked"
    | internal => "Internal"
    | unspecified => "Unspecified"
  { subsystem := fun _ => .flash
    localCode := fun
      | outOfRange => 0
      | misaligned => 1
      | locked => 2
      | internal => 3
      | unspecified => 4
    label
    ofLabel? := Status.find? label all }

end Error

/-- The value of an erased byte. -/
def erasedByte : UInt8 := 0xff

/-- The usual sizes of a sector and a block. -/
def defaultSectorSize : Nat := 0x1000
def defaultBlockSize : Nat := 0x10000

end Flash

/-- A flash device with states `φ`. -/
class Flash (φ : Type) where
  size : φ → Except Flash.Error Nat
  /-- The smallest unit that can be erased. -/
  sectorSize : φ → Nat
  /-- The large unit that can be erased. -/
  blockSize : φ → Nat
  /-- The `n` bytes from an address on. -/
  read : φ → UInt32 → (n : Nat) → Except Flash.Error Bytes
  length_read : ∀ {f : φ} {a : UInt32} {n : Nat} {bs : Bytes}, read f a n = .ok bs → bs.length = n
  /-- Programs bytes from an address on and gives the number of bytes programmed. -/
  program : UInt32 → Bytes → ExceptT Flash.Error (StateM φ) Nat
  /-- Erases a region. -/
  erase : Region → ExceptT Flash.Error (StateM φ) Unit
  /-- Completes what was programmed. -/
  flush : ExceptT Flash.Error (StateM φ) Unit

end PlatformGuard
