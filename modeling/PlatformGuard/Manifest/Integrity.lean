import PlatformGuard.Engines
import PlatformGuard.Manifest.Record

/-!
# Integrity of images

An image is intact if the digest of its regions, as the flash holds them, is the one that the manifest
gives, or is signed with the key that the manifest gives.
-/

namespace PlatformGuard.Manifest.Image

variable {φ η ν : Type} [Flash φ] [Hash.Engine η] [Signature.Verifier ν]

/-- How many bytes are read from the flash at a time. -/
def chunkSize : Nat := 64

/-- Feeds `length` bytes of the flash, from an address on, to the open session. -/
def feedFlash (f : φ) (address : UInt32) (length : Nat) : ExceptT Error (StateM η) Unit :=
  if length = 0 then pure ()
  else
    let n := min length chunkSize
    match Flash.read f address n with
    | .error e => throw (.flash e)
    | .ok bs => do
      ExceptT.adapt (fun _ => .verifyFailed) (Hash.Engine.write bs)
      feedFlash f (address + UInt32.ofNat n) (length - n)
termination_by length
decreasing_by
  simp only [chunkSize]
  omega

/-- Feeds regions of the flash in turn. -/
def feedRegions (f : φ) : List Region → ExceptT Error (StateM η) Unit
  | [] => pure ()
  | r :: rs => do
    feedFlash f r.address r.length.toNat
    feedRegions f rs

/-- The digest of the image as the flash holds it. -/
def digest (i : Image) (f : φ) : ExceptT Error (StateM η) Bytes := do
  ExceptT.adapt (fun _ => .verifyFailed) (Hash.Engine.start i.algorithm)
  Hash.feeding (feedRegions f i.regions)
  ExceptT.adapt (fun _ => .verifyFailed) (Hash.close i.algorithm i.algorithm.size)

/-- Checks that the image in the flash is intact. -/
def verify (i : Image) (f : φ) : ExceptT Error (StateM (Engines η ν)) Unit := do
  let digest ← Engines.onHash (fun e => e) (i.digest f)
  match i.check with
  | .hash expected => if Bytes.ctEq digest expected then pure () else throw .verifyFailed
  | .signature signature key =>
    Engines.onSignature (fun _ => .verifyFailed)
      (Signature.Verifier.verify ⟨key, signature, digest⟩)

end PlatformGuard.Manifest.Image
