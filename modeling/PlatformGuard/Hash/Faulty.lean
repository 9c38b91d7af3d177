import PlatformGuard.Fault
import PlatformGuard.Hash

/-!
# Hash engines that fail on demand
-/

namespace PlatformGuard.Hash

/-- The calls that can fail. -/
inductive Call where
  | start | write | finish
  deriving DecidableEq, Repr

instance : Coded Call where
  all := [.start, .write, .finish]
  number
    | .start => 0
    | .write => 1
    | .finish => 2
  name
    | .start => "start"
    | .write => "write"
    | .finish => "finish"

/-- An engine with a fault. -/
structure Faulty (η : Type) where
  engine : η
  fault : Option (Fault Call Error) := none

namespace Faulty

variable {η α : Type}

/-- Runs a step of the engine, or `failed` if the fault is due. -/
def call (c : Call) (step : ExceptT Error (StateM η) α) (failed : η → η) :
    ExceptT Error (StateM (Faulty η)) α := fun f =>
  match f.fault.bind fun x => x.due? c with
  | some e => (.error e, { f with engine := failed f.engine })
  | none =>
    let (r, engine) := step f.engine
    (r, ⟨engine, if r.isOk then f.fault.map fun x => x.spend c else f.fault⟩)

/-- A call that fails does not reach the engine, but failing to finish ends the session. -/
instance [Engine η] : Engine (Faulty η) where
  supports f a := Engine.supports f.engine a
  start a := call .start (Engine.start a) id
  write bs := call .write (Engine.write bs) id
  finish n := call .finish (Engine.finish n) Engine.cancel
  cancel f := { f with engine := Engine.cancel f.engine }

end Faulty

end PlatformGuard.Hash
