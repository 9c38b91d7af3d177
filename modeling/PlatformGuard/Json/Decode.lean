import PlatformGuard.Json
import PlatformGuard.Json.Scan
import PlatformGuard.Status
import PlatformGuard.Text.Quoted

/-!
# Interpreting JSON texts

A tree that was scanned is interpreted from left to right, so that the first fault of a text is the
one reported: a fault of its grammar, a value of the wrong kind, or one of the faults that have a
message of their own.
-/

namespace PlatformGuard.Json

/-! ### Faults -/

/-- What a number was expected to be. -/
inductive Expected where
  /-- An unsigned integer of the given width. -/
  | width (bits : Nat)
  /-- An integer up to the given one. -/
  | atMost (max : Nat)
  deriving DecidableEq, Repr

/-- Why a text is refused. -/
inductive Error where
  /-- The text is not JSON, or a value is of the wrong kind. -/
  | malformed
  | missingField (name : String)
  | duplicateField (name : String)
  | unknownVariant (found : String) (expected : List String)
  | outOfRange (found : Int) (expected : Expected)
  | oddHex (length : Nat)
  | notHex (found : List Char)
  | emptyInteger
  | badDigit
  | integerTooLarge
  deriving DecidableEq, Repr

def Expected.describe : Expected → String
  | width bits => "u" ++ toString bits
  | atMost max => "an integer no larger than " ++ toString max

/-- A name as messages quote it. -/
def ticked (s : String) : String := "`" ++ s ++ "`"

/-- What a variant was expected to be. -/
def oneOf : List String → String
  | [a] => ticked a
  | [a, b] => ticked a ++ " or " ++ ticked b
  | as => "one of " ++ ", ".intercalate (as.map ticked)

/-- The message of a fault that has one. -/
def Error.message? : Error → Option String
  | malformed => none
  | missingField n => some ("missing field " ++ ticked n)
  | duplicateField n => some ("duplicate field " ++ ticked n)
  | unknownVariant s names => some ("unknown variant " ++ ticked s ++ ", expected " ++ oneOf names)
  | outOfRange i e =>
    some ("invalid value: integer " ++ ticked (toString i) ++ ", expected " ++ e.describe)
  | oddHex n =>
    some ("invalid length " ++ toString n ++ ", expected an even number of hex digits")
  | notHex s => some ("invalid value: string " ++ Text.quoted s ++ ", expected a hex string")
  | emptyInteger => some "cannot parse integer from empty string"
  | badDigit => some "invalid digit found in string"
  | integerTooLarge => some "number too large to fit in target type"

/-! ### Skipped and kept values -/

namespace Scan

mutual

/-- Whether a value that nobody interprets follows the grammar. -/
def isSound : Scan → Bool
  | broken => false
  | string _ clean => clean
  | array items closed => allSound items && closed
  | object members closed => allMembersSound members && closed
  | null | bool _ | number _ => true

def allSound : List Scan → Bool
  | [] => true
  | v :: vs => v.isSound && allSound vs

def allMembersSound : List (Bytes × Bool × Scan) → Bool
  | [] => true
  | (_, clean, v) :: ms => clean && v.isSound && allMembersSound ms

end

/-- The text of a string without control characters. -/
def textOf (bytes : Bytes) (clean : Bool) : Except Error String :=
  if clean then
    match bytes.toText? with
    | some s => .ok s
    | none => .error .malformed
  else
    .error .malformed

def isText (bytes : Bytes) (clean : Bool) : Bool := clean && bytes.toText?.isSome

mutual

/-- Whether a value can be kept for later: it follows the grammar, its strings are texts, its numbers
are doubles, and it nests at most `depth` arrays and objects. -/
def isKept (depth : Nat) : Scan → Bool
  | broken => false
  | null | bool _ => true
  | number n => n.isDouble
  | string bytes clean => isText bytes clean
  | array items closed => decide (0 < depth) && allKept (depth - 1) items && closed
  | object members closed => decide (0 < depth) && allMembersKept (depth - 1) members && closed

def allKept (depth : Nat) : List Scan → Bool
  | [] => true
  | v :: vs => v.isKept depth && allKept depth vs

def allMembersKept (depth : Nat) : List (Bytes × Bool × Scan) → Bool
  | [] => true
  | (k, clean, v) :: ms => isText k clean && v.isKept depth && allMembersKept depth ms

end

/-! ### Scalars -/

def asText : Scan → Except Error String
  | string bytes clean => textOf bytes clean
  | _ => .error .malformed

def asBool : Scan → Except Error Bool
  | .bool b => .ok b
  | _ => .error .malformed

/-- An unsigned integer of `bits` bits, written as a number. -/
def asUnsigned (bits : Nat) : Scan → Except Error Nat
  | .number n =>
    match n.integer? with
    | some i =>
      if 0 ≤ i ∧ i.toNat < 1 <<< bits then .ok i.toNat else .error (.outOfRange i (.width bits))
    | none => .error .malformed
  | _ => .error .malformed

/-- The value of a digit in a base of at most 16. -/
def digitValue? (base : Nat) (c : Char) : Option Nat :=
  let value :=
    if '0' ≤ c ∧ c ≤ '9' then c.toNat - '0'.toNat
    else if 'a' ≤ c ∧ c ≤ 'f' then c.toNat - 'a'.toNat + 10
    else if 'A' ≤ c ∧ c ≤ 'F' then c.toNat - 'A'.toNat + 10
    else base
  if value < base then some value else none

/-- Reads digits behind the number `n`; it may not exceed `max`. -/
def readDigits (base max n : Nat) : List Char → Except Error Nat
  | [] => .ok n
  | c :: cs =>
    match digitValue? base c with
    | none => .error .badDigit
    | some d =>
      if base * n + d ≤ max then readDigits base max (base * n + d) cs
      else .error .integerTooLarge

/-- A number of at least one digit, up to `max`; a plus sign may stand in front. -/
def readInteger (base max : Nat) : List Char → Except Error Nat
  | [] => .error .emptyInteger
  | ['+'] => .error .badDigit
  | '+' :: cs => readDigits base max 0 cs
  | cs => readDigits base max 0 cs

/-- A number in base 10, or in the base that its first two characters say. -/
def readRadix (max : Nat) : List Char → Except Error Nat
  | '0' :: 'x' :: cs | '0' :: 'X' :: cs => readInteger 16 max cs
  | '0' :: 'o' :: cs | '0' :: 'O' :: cs => readInteger 8 max cs
  | '0' :: 'b' :: cs | '0' :: 'B' :: cs => readInteger 2 max cs
  | cs => readInteger 10 max cs

/-- An integer up to `max`, written as a number or as the text of one. -/
def asRadix (max : Nat) : Scan → Except Error Nat
  | .number n =>
    match n.integer? with
    | some i =>
      if i < 0 then .error .malformed
      else if i ≤ max then .ok i.toNat
      else .error (.outOfRange i (.atMost max))
    | none => .error .malformed
  | string bytes clean => do
    let s ← textOf bytes clean
    readRadix max s.toList
  | _ => .error .malformed

/-! ### Byte strings -/

/-- Refuses a zero, which no byte string may hold. -/
def refuseZeros (bs : Bytes) : Except Error Bytes :=
  if bs.any (· == 0) then .error .malformed else .ok bs

/-- Bytes other than zero, written as a string or as an array of numbers. -/
def asByteString : Scan → Except Error Bytes
  | string bytes _ => refuseZeros bytes
  | array items closed => do
    let ns ← items.mapM (asUnsigned 8)
    if closed then refuseZeros (ns.map UInt8.ofNat) else .error .malformed
  | _ => .error .malformed

/-- The byte of a pair of hexadecimal digits; a plus sign may stand for the first. -/
def hexPair? (a b : UInt8) : Option UInt8 :=
  match Mark.hexValue? a, Mark.hexValue? b with
  | some x, some y => some (UInt8.ofNat (16 * x + y))
  | none, some y => if a == Mark.plus then some (UInt8.ofNat y) else none
  | _, none => none

def hexPairs? : Bytes → Option Bytes
  | [] => some []
  | [_] => none
  | a :: b :: bs => (hexPair? a b).bind fun x => (hexPairs? bs).map (x :: ·)

/-- What is left when no `0x` stands in front any more. -/
def dropHexMarks : List Char → List Char
  | '0' :: 'x' :: cs => dropHexMarks cs
  | cs => cs

/-- The bytes of a text of hexadecimal digits. -/
def readHex (s : String) : Except Error Bytes :=
  let digits := dropHexMarks s.toList
  let bytes := digits.flatMap String.utf8EncodeChar
  if bytes.length % 2 = 1 then .error (.oddHex bytes.length)
  else
    match hexPairs? bytes with
    | some bs => .ok bs
    | none => .error (.notHex digits)

def asHex (v : Scan) : Except Error Bytes := do
  let s ← asText v
  readHex s

/-! ### Variants -/

def variant {α : Type} [Coded α] (s : String) : Except Error α :=
  match Coded.ofName? s with
  | some a => .ok a
  | none => .error (.unknownVariant s ((Coded.all (α := α)).map Coded.name))

/-- An alternative, written as its name or as an object with that name and `null`. -/
def asVariant {α : Type} [Coded α] : Scan → Except Error α
  | string bytes clean => do
    let s ← textOf bytes clean
    variant s
  | object ((bytes, clean, v) :: ms) closed => do
    let s ← textOf bytes clean
    let a ← variant s
    match v, ms, closed with
    | null, [], true => return a
    | _, _, _ => throw .malformed
  | _ => .error .malformed

/-! ### Arrays and options -/

def asList {α : Type} (item : Scan → Except Error α) : Scan → Except Error (List α)
  | array items closed => do
    let as ← items.mapM item
    if closed then return as else throw .malformed
  | _ => .error .malformed

def asOption {α : Type} (item : Scan → Except Error α) : Scan → Except Error (Option α)
  | null => .ok none
  | v => (item v).map some

end Scan

end PlatformGuard.Json
