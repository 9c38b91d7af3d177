import PlatformGuard.Hash
import PlatformGuard.Signature

/-!
# Pairs of engines

What is signed or verified needs two engines: one that hashes, and one that signs or verifies.
-/

namespace PlatformGuard

/-- A hash engine, and an engine that signs or verifies. -/
structure Engines (η κ : Type) where
  hash : η
  signature : κ
  deriving Repr

namespace Engines

variable {η κ δ ε α : Type}

/-- Runs a step of the hash engine and renames its failures. -/
def onHash (cause : δ → ε) (step : ExceptT δ (StateM η) α) : ExceptT ε (StateM (Engines η κ)) α :=
  fun e =>
    let (r, h) := step e.hash
    (r.mapError cause, { e with hash := h })

/-- Runs a step of the other engine and renames its failures. -/
def onSignature (cause : δ → ε) (step : ExceptT δ (StateM κ) α) :
    ExceptT ε (StateM (Engines η κ)) α := fun e =>
  let (r, k) := step e.signature
  (r.mapError cause, { e with signature := k })

section verifying
variable {ν : Type} [Hash.Engine η] [Signature.Verifier ν]

/-- Checks a signature over the digest of the covered bytes.  The digest has to be the expected one,
if there is one.  Every failure is reported as `refusal`. -/
def verifySigned (refusal : ε) (key : PublicKey) (covered signature : Bytes)
    (expected : Option Bytes) : ExceptT ε (StateM (Engines η ν)) Unit := do
  let digest ← onHash (fun _ => refusal)
    (Hash.contiguous .sha256 covered Hash.Algorithm.sha256.size)
  if !expected.all (Bytes.ctEq digest) then throw refusal
  onSignature (fun _ => refusal) (Signature.Verifier.verify ⟨key, signature, digest⟩)

end verifying

end Engines

end PlatformGuard
