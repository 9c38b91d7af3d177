import PlatformGuard.Bytes.Decoder

/-!
# Hash engines and their sessions

A hash engine holds at most one session.  A session is opened by `start`, fed by `write`, and closed
by `finish` or `cancel`; every use of an engine in this library closes the session that it opened.
-/

namespace PlatformGuard.Hash

/-- The digests that a manifest may ask for. -/
inductive Algorithm where
  | sha256 | sha384 | sha512
  deriving DecidableEq, Repr

namespace Algorithm

instance : Coded Algorithm where
  all := [sha256, sha384, sha512]
  number
    | sha256 => 0
    | sha384 => 1
    | sha512 => 2
  name
    | sha256 => "Sha256"
    | sha384 => "Sha384"
    | sha512 => "Sha512"

/-- The length of a digest in bits. -/
def bits : Algorithm → Nat
  | sha256 => 256
  | sha384 => 384
  | sha512 => 512

/-- The length of a digest in bytes. -/
def size (a : Algorithm) : Nat := a.bits / 8

end Algorithm

/-- Why a hash engine fails. -/
inductive Error where
  | wrongSize | idle | busy | unsupported | unspecified
  deriving DecidableEq, Repr

namespace Error

def all : List Error := [wrongSize, idle, busy, unsupported, unspecified]

instance : Status Error :=
  let label : Error → String
    | wrongSize => "WrongSize"
    | idle => "Idle"
    | busy => "Busy"
    | unsupported => "Unsupported"
    | unspecified => "Unspecified"
  { subsystem := fun _ => .crypto
    localCode := fun
      | wrongSize => 0
      | idle => 1
      | busy => 2
      | unsupported => 3
      | unspecified => 4
    label
    ofLabel? := Status.find? label all }

end Error

/-- A hash engine with states `η`. -/
class Engine (η : Type) where
  supports : η → Algorithm → Bool
  /-- Opens a session. -/
  start : Algorithm → ExceptT Error (StateM η) Unit
  /-- Adds bytes to the open session. -/
  write : Bytes → ExceptT Error (StateM η) Unit
  /-- Closes the open session and gives its digest in a buffer of the given size. -/
  finish : (size : Nat) → ExceptT Error (StateM η) Bytes
  /-- Gives up the open session, if there is one. -/
  cancel : η → η

/-! ### Sessions -/

variable {η ε : Type} [Engine η]

/-- Feeds the open session and gives it up if that fails. -/
def feeding (feed : ExceptT ε (StateM η) Unit) : ExceptT ε (StateM η) Unit := fun e =>
  match feed e with
  | (.ok (), e) => (.ok (), e)
  | (.error x, e) => (.error x, Engine.cancel e)

/-- Closes a session of algorithm `a`; a buffer that does not have the size of the digest is refused
without asking the engine. -/
def close (a : Algorithm) (size : Nat) : ExceptT Error (StateM η) Bytes := fun e =>
  if size = a.size then Engine.finish size e else (.error .wrongSize, Engine.cancel e)

/-- Closes a session of algorithm `a` and compares its digest with the expected one. -/
def expect (a : Algorithm) (expected : Bytes) : ExceptT Error (StateM η) Unit := do
  let digest ← close a a.size
  if Bytes.ctEq digest expected then pure () else throw .unspecified

/-- The digest of one byte string. -/
def contiguous (a : Algorithm) (message : Bytes) (size : Nat) : ExceptT Error (StateM η) Bytes := do
  Engine.start a
  feeding (Engine.write message)
  close a size

end PlatformGuard.Hash
