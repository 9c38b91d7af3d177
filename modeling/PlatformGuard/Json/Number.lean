/-!
# Numbers of JSON texts

A number is kept as it is written.  It is an integer if it has neither a point nor an exponent and 64
bits hold it.  Every other number is a double: the double nearest to its leading digits, as many as 64
bits hold, times the double nearest to a power of ten.
-/

namespace PlatformGuard.Json

/-- A number as it is written. -/
structure Number where
  negative : Bool
  /-- The digits before the point. -/
  integral : List Nat
  /-- The digits behind the point. -/
  fraction : List Nat := []
  exponent : Int := 0
  /-- Whether the number has neither a point nor an exponent. -/
  whole : Bool := true
  deriving DecidableEq, Repr

/-- The value of decimal digits. -/
def decimal (ds : List Nat) : Nat := ds.foldl (fun n d => 10 * n + d) 0

/-- The number as an integer of 64 bits with or without sign; a zero with a sign is none. -/
def Number.integer? (n : Number) : Option Int :=
  let magnitude := decimal n.integral
  if !n.whole then none
  else if n.negative then
    if 0 < magnitude ∧ magnitude ≤ 1 <<< 63 then some (-(magnitude : Int)) else none
  else if magnitude < 1 <<< 64 then some magnitude
  else none

/-! ### Doubles -/

/-- The number of bits of a double's significand. -/
def doublePrecision : Nat := 53

/-- The least number that is too large for a double, halfway between the largest double and the power
of two behind it. -/
def doubleLimit : Nat := 1 <<< 1024 - 1 <<< 970

/-- The largest power of ten that a double is multiplied by. -/
def maxPower : Int := 308

/-- The double nearest to a number below `doubleLimit`; a tie goes to the even significand. -/
def nearestDouble (n : Nat) : Nat :=
  let unit := 1 <<< (n.log2 + 1 - doublePrecision)
  let q := n / unit
  let r := n % unit
  if unit < 2 * r ∨ unit = 2 * r ∧ q % 2 = 1 then (q + 1) * unit else q * unit

/-- Appends digits to a number until one does not fit 64 bits, and gives what is left of the digits. -/
def absorb (n : Nat) : List Nat → Nat × List Nat
  | [] => (n, [])
  | d :: ds => if 10 * n + d < 1 <<< 64 then absorb (10 * n + d) ds else (n, d :: ds)

/-- The leading digits of a number, and the power of ten that belongs to them.  Digits before the point
that do not fit count as zeros; those behind it are dropped. -/
def Number.scaled (n : Number) : Nat × Int :=
  let (leading, lost) := absorb 0 n.integral
  let (significand, dropped) := absorb leading n.fraction
  (significand, n.exponent + lost.length - (n.fraction.length - dropped.length : Nat))

/-- Whether the number is a double; one that is too large is none. -/
def Number.isDouble (n : Number) : Bool :=
  let (significand, power) := n.scaled
  if significand = 0 ∨ power < 0 then true
  else if maxPower < power then false
  else decide (nearestDouble significand * nearestDouble (Nat.pow 10 power.toNat) < doubleLimit)

end PlatformGuard.Json
