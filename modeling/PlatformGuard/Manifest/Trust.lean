import PlatformGuard.Engines
import PlatformGuard.Manifest.Error

/-!
# Trust anchors

An anchor says which key may sign manifests: a root key itself, or the digest of a key's blob.
-/

namespace PlatformGuard.Manifest

/-- What is trusted from the start. -/
inductive Anchor where
  /-- The signing key is this key. -/
  | rootKey (key : PublicKey)
  /-- The blob of the signing key has this SHA-256 digest. -/
  | keyDigest (digest : Bytes)

namespace Anchor

section hashing
variable {η : Type} [Hash.Engine η]

/-- Writes byte strings one after the other to the open session. -/
def writeEach : List Bytes → ExceptT Hash.Error (StateM η) Unit
  | [] => pure ()
  | bs :: rest => do
    Hash.Engine.write bs
    writeEach rest

/-- Compares the digest of a key's blob with the expected one. -/
def expectBlob (key : PublicKey) (digest : Bytes) : ExceptT Hash.Error (StateM η) Unit := do
  Hash.Engine.start .sha256
  Hash.feeding (writeEach key.fields)
  Hash.expect .sha256 digest

/-- Checks that the anchor vouches for a key; every failure is reported in the same way. -/
def admits (a : Anchor) (key : PublicKey) : ExceptT Error (StateM η) Unit :=
  match a with
  | rootKey root => if root.ctEq key then pure () else throw .verifyFailed
  | keyDigest digest => ExceptT.adapt (fun _ => .verifyFailed) (expectBlob key digest)

/-- The key that signed a manifest: the key that came with it, if the anchor vouches for that, or the
root key where none came. -/
def signer (a : Anchor) (stored : Option PublicKey) : ExceptT Error (StateM η) PublicKey :=
  match stored, a with
  | some key, _ => do
    a.admits key
    return key
  | none, rootKey root => pure root
  | none, keyDigest _ => throw .invalidArgument

end hashing

end Anchor

end PlatformGuard.Manifest
