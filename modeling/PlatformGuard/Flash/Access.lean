import PlatformGuard.Flash

/-!
# Accesses

What a flash device can be asked about its bytes, in one type.

A device may have to add addresses before it can be asked, and such a sum may leave the address space.  A
program that checks its sums ends there.  In one that does not, the sum wraps around, and the device is asked
about other bytes.  The operations of a device are those of the second kind; a device that is `Checked` says
for which accesses the two kinds differ.
-/

namespace PlatformGuard.Flash

/-- What a device can be asked about some of its bytes. -/
inductive Access where
  | read (address : UInt32) (n : Nat)
  | program (address : UInt32) (bs : Bytes)
  | erase (region : Region)

/-- What comes of an access. -/
inductive Outcome where
  | bytes (bs : Bytes)
  | programmed (n : Nat)
  | erased
  deriving DecidableEq

/-- A device that says which accesses need a sum of addresses that leaves the address space. -/
class Checked (φ : Type) extends Flash φ where
  overflows : φ → Access → Bool

namespace Access

def address : Access → UInt32
  | read a _ => a
  | program a _ => a
  | erase r => r.address

def length : Access → Nat
  | read _ n => n
  | program _ bs => bs.length
  | erase r => r.length.toNat

/-- The same access further behind. -/
def moved (base : UInt32) : Access → Access
  | read a n => read (base + a) n
  | program a bs => program (base + a) bs
  | erase r => erase ⟨base + r.address, r.length⟩

variable {φ : Type}

/-- Asks a device, whatever its sums come to. -/
def run [Flash φ] : Access → ExceptT Error (StateM φ) Outcome
  | read a n => fun f => ((Flash.read f a n).map .bytes, f)
  | program a bs => fun f => ((Flash.program a bs f).1.map .programmed, (Flash.program a bs f).2)
  | erase r => fun f => ((Flash.erase r f).1.map fun _ => .erased, (Flash.erase r f).2)

/-- Asks a device in a program that checks its sums: there is no outcome where the program ends. -/
def ask [Checked φ] (c : Access) : StateT φ Option (Except Error Outcome) := fun f =>
  if Checked.overflows f c then none else some (c.run f)

end Access

end PlatformGuard.Flash
