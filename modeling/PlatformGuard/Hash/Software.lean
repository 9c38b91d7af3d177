import PlatformGuard.Hash
import PlatformGuard.Hash.Sha2

/-!
# The software hash engine

It keeps the bytes of its session and computes the digest at the end, so that the digest cannot
depend on how a message is cut into writes.
-/

namespace PlatformGuard.Hash

/-- The digest of a message. -/
def Algorithm.digest : Algorithm → Bytes → Bytes
  | .sha256 => Sha2.sha256
  | .sha384 => Sha2.sha384
  | .sha512 => Sha2.sha512

/-- A hash engine that supports every algorithm. -/
inductive SoftEngine where
  | idle
  | hashing (algorithm : Algorithm) (written : Array UInt8)
  deriving Repr

namespace SoftEngine

def isBusy : SoftEngine → Bool
  | idle => false
  | hashing _ _ => true

instance : Engine SoftEngine where
  supports _ _ := true
  start a
    | idle => (.ok (), hashing a #[])
    | e => (.error .busy, e)
  write bs
    | idle => (.error .idle, idle)
    | hashing a written => (.ok (), hashing a (written ++ bs))
  finish size
    | idle => (.error .idle, idle)
    | hashing a written =>
      if size = a.size then (.ok (a.digest written.toList), idle) else (.error .wrongSize, idle)
  cancel _ := idle

end SoftEngine

end PlatformGuard.Hash
