import PlatformGuard.Bytes.Decoder

/-!
# Writing to a sink of limited room
-/

namespace PlatformGuard

/-- What a sink does with bytes for which it has too little room. -/
inductive Overflow where
  /-- Nothing is written. -/
  | refuse
  /-- What fits is written. -/
  | fill
  deriving DecidableEq, Repr

/-- A place for at most `capacity` bytes. -/
structure Sink where
  overflow : Overflow
  capacity : Nat
  held : Bytes := []
  deriving Repr

namespace Sink

def room (s : Sink) : Nat := s.capacity - s.held.length

/-- A step that writes to a sink. -/
abbrev Writer := ExceptT Bytes.Error (StateM Sink)

/-- Writes all of the bytes, or fails. -/
def write (bs : Bytes) : Writer Unit := fun s =>
  if bs.length ≤ s.room then (.ok (), { s with held := s.held ++ bs })
  else
    match s.overflow with
    | .refuse => (.error .exhausted, s)
    | .fill => (.error .internal, { s with held := s.held ++ bs.take s.room })

/-- Writes each byte string in turn and stops at the first that fails. -/
def writeAll : List Bytes → Writer Unit
  | [] => pure ()
  | bs :: rest => do
    write bs
    writeAll rest

/-- A byte repeated `n` times, in groups of at most sixteen. -/
def groups (b : UInt8) (n : Nat) : List Bytes :=
  List.replicate (n / 16) (List.replicate 16 b) ++ [List.replicate (n % 16) b]

/-- Writes `n` copies of a byte, sixteen at a time. -/
def writeFill (b : UInt8) (n : Nat) : Writer Unit := writeAll (groups b n)

end Sink

end PlatformGuard
