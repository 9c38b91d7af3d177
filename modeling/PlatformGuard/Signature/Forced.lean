import PlatformGuard.Signature

/-!
# Verifiers with a forced answer
-/

namespace PlatformGuard.Signature

/-- A verifier that gives the same answer to every question, if it has one. -/
structure Forced (ν : Type) where
  verifier : ν
  answer : Option (Except Error Unit) := none

instance {ν : Type} [Verifier ν] : Verifier (Forced ν) where
  verify q f :=
    match f.answer with
    | some r => (r, f)
    | none =>
      let (r, v) := Verifier.verify q f.verifier
      (r, { f with verifier := v })

end PlatformGuard.Signature
