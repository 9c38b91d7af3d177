import PlatformGuard.Status

/-!
# Faults

Engines and devices that fail on demand, to try out what happens then, are built from faults: after a
number of calls at one point succeeded, every further one fails.
-/

namespace PlatformGuard

/-- A fault at a point of kind `κ`. -/
structure Fault (κ ε : Type) where
  point : κ
  /-- How many more calls succeed. -/
  spare : Nat
  error : ε
  deriving Repr

namespace Fault

variable {κ ε α σ : Type} [BEq κ]

/-- The failure of the next call at a point, if it is due. -/
def due? (f : Fault κ ε) (p : κ) : Option ε :=
  if f.point == p && f.spare == 0 then some f.error else none

/-- The fault after a call at a point succeeded. -/
def spend (f : Fault κ ε) (p : κ) : Fault κ ε :=
  if f.point == p then { f with spare := f.spare - 1 } else f

end Fault

end PlatformGuard
