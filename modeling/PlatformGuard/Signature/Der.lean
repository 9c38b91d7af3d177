import PlatformGuard.Bytes

/-!
# Distinguished encoding

The part of X.690 that private keys use: elements with a one-byte tag and a definite length of at
most 65535 in its shortest form, and integers that are not negative.
-/

namespace PlatformGuard.Der

/-- A step that takes elements from the front of a byte string. -/
abbrev Reader := StateT Bytes Option

namespace Tag

def integer : UInt8 := 0x02
def octetString : UInt8 := 0x04
def sequence : UInt8 := 0x30
def context0 : UInt8 := 0xa0

end Tag

def byte : Reader UInt8 := fun s =>
  match s with
  | [] => none
  | b :: s => some (b, s)

def take (n : Nat) : Reader Bytes := fun s =>
  if n ≤ s.length then some (s.take n, s.drop n) else none

/-- The length of an element's content, in the shortest form. -/
def length : Reader Nat := do
  let b ← byte
  if b < 0x80 then
    return b.toNat
  else if b = 0x81 then
    let n ← Bytes.toNatBE <$> take 1
    if n < 0x80 then failure else return n
  else if b = 0x82 then
    let n ← Bytes.toNatBE <$> take 2
    if n < 0x100 then failure else return n
  else
    failure

/-- The content of the next element, which has the given tag. -/
def element (tag : UInt8) : Reader Bytes := do
  let t ← byte
  if t = tag then
    let n ← length
    take n
  else
    failure

/-- Reads a byte string to its end. -/
def whole {α : Type} (r : Reader α) (s : Bytes) : Option α :=
  match r s with
  | some (a, []) => some a
  | _ => none

/-- The digits of an integer that is not negative, highest byte first and without the zero that only
marks the sign. -/
def digits? : Bytes → Option Bytes
  | [] => none
  | [0] => some [0]
  | 0 :: b :: bs => if b < 0x80 then none else some (b :: bs)
  | b :: bs => if b < 0x80 then some (b :: bs) else none

def natural : Reader Bytes := do
  let content ← element Tag.integer
  StateT.lift (digits? content)

/-- An integer that is not zero. -/
def positive : Reader Bytes := do
  let ds ← natural
  if ds = [0] then failure else return ds

/-- An integer that fits in a byte. -/
def small : Reader UInt8 := do
  match ← natural with
  | [b] => return b
  | _ => failure

end PlatformGuard.Der
