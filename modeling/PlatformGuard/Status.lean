/-!
# Status codes

Every cause of failure is reported in two ways: as a 16-bit number whose high byte names the
subsystem, and as a label that can be read back.  `Coded` is the same idea for the finite sets of
alternatives that are stored as small numbers.
-/

namespace PlatformGuard

/-- The high bytes of status codes. -/
inductive Subsystem where
  | manifest | pfm | flashUpdater | filter | crypto | flash | recovery | session | io
  deriving DecidableEq, Repr

namespace Subsystem

def number : Subsystem → Nat
  | manifest => 1
  | pfm => 2
  | flashUpdater => 3
  | filter => 4
  | crypto => 5
  | flash => 6
  | recovery => 7
  | session => 8
  | io => 9

def name : Subsystem → String
  | manifest => "Manifest"
  | pfm => "Pfm"
  | flashUpdater => "FlashUpdater"
  | filter => "Filter"
  | crypto => "Crypto"
  | flash => "Flash"
  | recovery => "Recovery"
  | session => "Session"
  | io => "Io"

end Subsystem

/-! ### Causes of failure -/

/-- A cause of failure that can be reported. -/
class Status (ε : Type) where
  /-- The subsystem that the report is filed under. -/
  subsystem : ε → Subsystem
  /-- The number of the cause within its subsystem. -/
  localCode : ε → Nat
  /-- The name of the cause, with its payload in parentheses. -/
  label : ε → String
  /-- The cause that a label names. -/
  ofLabel? : String → Option ε

namespace Status

/-- The status code: the subsystem in the high byte, the local code in the low one. -/
def code {ε : Type} [Status ε] (e : ε) : Nat := 256 * (subsystem e).number + localCode e

/-- The cause among `causes` with a given label. -/
def find? {ε : Type} (label : ε → String) (causes : List ε) (s : String) : Option ε :=
  causes.find? fun e => label e == s

/-- A name with its payload, the inverse of `payload?`. -/
def withPayload (name payload : String) : String := name ++ "(" ++ payload ++ ")"

/-- The payload of a label that has the given name and one pair of parentheses around the rest. -/
def payload? (name label : String) : Option String :=
  let opened := name.toList ++ ['(']
  let cs := label.toList
  if opened.isPrefixOf cs && cs.getLast? == some ')' then
    some (String.ofList (cs.drop opened.length).dropLast)
  else
    none

/-- The cause that `wrap` builds from a payload of another kind. -/
def wrapped? {ε δ : Type} [Status δ] (name : String) (wrap : δ → ε) (label : String) : Option ε :=
  (payload? name label).bind fun s => (ofLabel? s).map wrap

/-- The cause that `wrap` builds from a payload that is a decimal number. -/
def numbered? {ε : Type} (name : String) (wrap : Nat → ε) (label : String) : Option ε :=
  (payload? name label).bind fun s => s.toNat?.map wrap

end Status

/-! ### Small numbers with names -/

/-- A finite set of alternatives, each with a number and a name. -/
class Coded (α : Type) where
  all : List α
  number : α → Nat
  name : α → String

namespace Coded

variable {α : Type} [Coded α]

/-- The alternative with a given number. -/
def ofNumber? (n : Nat) : Option α := (all (α := α)).find? fun a => number a == n

/-- The alternative with a given name. -/
def ofName? (s : String) : Option α := (all (α := α)).find? fun a => name a == s

end Coded

end PlatformGuard
