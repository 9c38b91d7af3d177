import PlatformGuard.Signature.Key

/-!
# Signature engines

Every signature covers the digest of the protected bytes: the caller hashes them first and passes the
digest as the message.
-/

namespace PlatformGuard.Signature

/-- Why a signature operation fails. -/
inductive Error where
  | badSignature | unsupportedKey | unspecified
  deriving DecidableEq, Repr

namespace Error

def all : List Error := [badSignature, unsupportedKey, unspecified]

instance : Status Error :=
  let label : Error → String
    | badSignature => "BadSignature"
    | unsupportedKey => "UnsupportedKey"
    | unspecified => "Unspecified"
  { subsystem := fun _ => .crypto
    localCode := fun
      | badSignature => 0x10
      | unsupportedKey => 0x11
      | unspecified => 0x12
    label
    ofLabel? := Status.find? label all }

end Error

/-- What a verifier is asked: whether `signature` is a signature of `message` under `key`. -/
structure Question where
  key : PublicKey
  signature : Bytes
  message : Bytes
  deriving DecidableEq

/-- A verifier with states `ν`. -/
class Verifier (ν : Type) where
  verify : Question → ExceptT Error (StateM ν) Unit

/-- A signer with states `σ`, already holding its private key. -/
class Signer (σ : Type) where
  /-- The length of its signatures. -/
  size : σ → Nat
  sign : (message : Bytes) → ExceptT Error (StateM σ) Bytes

/-- Signs into a buffer of `n` bytes, which a signature has to fill. -/
def signSized {σ : Type} [Signer σ] (n : Nat) (message : Bytes) : ExceptT Error (StateM σ) Bytes := do
  if n = Signer.size (← get) then Signer.sign message else throw .unspecified

/-! ### Transcripts -/

/-- A verifier together with the questions that it was asked, first question first. -/
structure Transcript (ν : Type) where
  verifier : ν
  asked : List Question := []

/-- The questions, and a transcript that begins anew. -/
def Transcript.drain {ν : Type} (t : Transcript ν) : List Question × Transcript ν :=
  (t.asked, { t with asked := [] })

instance {ν : Type} [Verifier ν] : Verifier (Transcript ν) where
  verify q t :=
    let (r, v) := Verifier.verify q t.verifier
    (r, ⟨v, t.asked ++ [q]⟩)

end PlatformGuard.Signature
