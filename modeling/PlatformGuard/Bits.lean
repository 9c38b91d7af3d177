/-!
# Bits of words

Tables of the filter hardware hold one bit for each thing that may be allowed, thirty-two to a word.
-/

namespace PlatformGuard.Bits

/-- The bits of a word. -/
def wordSize : Nat := 32

/-- The number whose bits are given, lowest bit first. -/
def pack : List Bool → Nat
  | [] => 0
  | b :: bs => b.toNat + 2 * pack bs

/-- The word whose bit `i` is `p i`. -/
def word (p : Nat → Bool) : UInt32 := UInt32.ofNat (pack ((List.range wordSize).map p))

/-- Bit `i` of a word. -/
def test (w : UInt32) (i : Nat) : Bool := w.toNat.testBit i

/-- Bit `i` of a table of words; a bit outside the table is clear. -/
def testIn {n : Nat} (table : Vector UInt32 n) (i : Nat) : Bool :=
  match table[i / wordSize]? with
  | some w => test w (i % wordSize)
  | none => false

/-- The table whose bit `i` is `p i`. -/
def table (n : Nat) (p : Nat → Bool) : Vector UInt32 n :=
  Vector.ofFn fun k => word fun j => p (wordSize * k.val + j)

end PlatformGuard.Bits
