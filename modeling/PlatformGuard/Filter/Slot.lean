import PlatformGuard.Bits
import PlatformGuard.Filter

/-!
# Slots of the I2C filters

The filter of a bus has sixteen slots.  A slot names a device and the register offsets that the host
may reach on it; a device without a slot is out of reach.
-/

namespace PlatformGuard.Filter

/-! ### Bitmaps -/

/-- One bit for each of the 256 register offsets of a device. -/
structure Bitmap where
  words : Vector UInt32 8
  deriving DecidableEq, Repr

namespace Bitmap

def denyAll : Bitmap := ⟨Vector.replicate 8 0⟩

def allowAll : Bitmap := ⟨Vector.replicate 8 0xffffffff⟩

def permits (b : Bitmap) (offset : UInt8) : Bool := Bits.testIn b.words offset.toNat

/-- The bitmap with another answer for one offset. -/
def update (b : Bitmap) (offset : UInt8) (answer : Bool) : Bitmap :=
  ⟨Bits.table 8 fun i => if i = offset.toNat then answer else Bits.testIn b.words i⟩

def allow (b : Bitmap) (offset : UInt8) : Bitmap := b.update offset true

def deny (b : Bitmap) (offset : UInt8) : Bitmap := b.update offset false

end Bitmap

/-! ### Policies of a bus -/

/-- The number of slots of a bus. -/
def busSlots : Nat := 16

/-- The largest address of a device. -/
def maxDevice : UInt8 := 0x7f

/-- A device and what the host may reach on it. -/
structure Slot where
  device : UInt8
  bitmap : Bitmap
  deriving DecidableEq, Repr

/-- What the host may reach on one bus. -/
structure BusPolicy where
  bus : UInt8
  slots : Vector (Option Slot) busSlots
  deriving DecidableEq, Repr

namespace BusPolicy

def denyAll (bus : UInt8) : BusPolicy := ⟨bus, Vector.replicate busSlots none⟩

/-- Whether a slot other than the `index`th has the device. -/
def isTaken (p : BusPolicy) (index : Nat) (device : UInt8) : Bool :=
  (List.finRange busSlots).any fun i =>
    i.val != index && p.slots[i].any fun s => s.device == device

/-- Gives a slot to a device, which can have only one. -/
def bind (p : BusPolicy) (index : Nat) (device : UInt8) (bitmap : Bitmap) :
    Except Error BusPolicy :=
  if h : index < busSlots then
    if device ≤ maxDevice ∧ !p.isTaken index device then
      .ok { p with slots := p.slots.set index (some ⟨device, bitmap⟩) }
    else
      .error .badSlot
  else
    .error .badSlot

/-- Empties a slot. -/
def clear (p : BusPolicy) (index : Nat) : Except Error BusPolicy :=
  if h : index < busSlots then .ok { p with slots := p.slots.set index none } else .error .badSlot

/-- What the host may reach on a device. -/
def bitmapFor (p : BusPolicy) (device : UInt8) : Bitmap :=
  match p.slots.toList.reduceOption.find? fun s => s.device == device with
  | some s => s.bitmap
  | none => .denyAll

/-- The slots that have a device. -/
def bound (p : BusPolicy) : List (Fin busSlots × Slot) :=
  (List.finRange busSlots).filterMap fun i => p.slots[i].map (i, ·)

def permits (p : BusPolicy) (device offset : UInt8) : Bool := (p.bitmapFor device).permits offset

end BusPolicy

end PlatformGuard.Filter
