import PlatformGuard.Status

/-!
# Exclusive use

An engine exists once, and several users want it.  Whoever claims it has it alone until the claim is
released; everybody else is told that it is busy.
-/

namespace PlatformGuard

/-- Why a claim fails. -/
inductive Exclusive.Error where
  | busy
  deriving DecidableEq, Repr

namespace Exclusive.Error

instance : Status Exclusive.Error :=
  let label : Exclusive.Error → String
    | busy => "Busy"
  { subsystem := fun _ => .session
    localCode := fun
      | busy => 1
    label
    ofLabel? := Status.find? label [busy] }

end Exclusive.Error

/-- A value that one user at a time can claim. -/
structure Exclusive (α : Type) where
  value : α
  claimed : Bool := false
  deriving DecidableEq, Repr

namespace Exclusive

variable {α : Type}

/-- Claims the value, unless somebody else has. -/
def claim : ExceptT Error (StateM (Exclusive α)) Unit := fun x =>
  if x.claimed then (.error .busy, x) else (.ok (), { x with claimed := true })

def release (x : Exclusive α) : Exclusive α := { x with claimed := false }

end Exclusive

end PlatformGuard
