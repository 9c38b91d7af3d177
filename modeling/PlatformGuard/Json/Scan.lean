import PlatformGuard.Bytes
import PlatformGuard.Json.Number

/-!
# Reading JSON texts

`Scan.document` reads a byte string as far as it follows the grammar of RFC 8259.  Where it stops to
do so the tree ends in `broken`, or in an array or an object that is not closed, so that whoever
interprets the tree from left to right meets its faults in the order of the text.
-/

namespace PlatformGuard.Json

/-! ### Bytes with a meaning -/

namespace Mark

@[match_pattern] abbrev quote : UInt8 := 0x22
@[match_pattern] abbrev plus : UInt8 := 0x2b
@[match_pattern] abbrev comma : UInt8 := 0x2c
@[match_pattern] abbrev minus : UInt8 := 0x2d
@[match_pattern] abbrev point : UInt8 := 0x2e
@[match_pattern] abbrev colon : UInt8 := 0x3a
@[match_pattern] abbrev openBracket : UInt8 := 0x5b
@[match_pattern] abbrev backslash : UInt8 := 0x5c
@[match_pattern] abbrev closeBracket : UInt8 := 0x5d
@[match_pattern] abbrev letterU : UInt8 := 0x75
@[match_pattern] abbrev openBrace : UInt8 := 0x7b
@[match_pattern] abbrev closeBrace : UInt8 := 0x7d

def isBlank (b : UInt8) : Bool := b == 0x20 || b == 0x0a || b == 0x09 || b == 0x0d

def isDigit (b : UInt8) : Bool := 0x30 ≤ b && b ≤ 0x39

/-- The value of a hexadecimal digit. -/
def hexValue? (b : UInt8) : Option Nat :=
  if 0x30 ≤ b && b ≤ 0x39 then some (b.toNat - 0x30)
  else if 0x61 ≤ b && b ≤ 0x66 then some (b.toNat - 0x61 + 10)
  else if 0x41 ≤ b && b ≤ 0x46 then some (b.toNat - 0x41 + 10)
  else none

/-- The value of the letter after a backslash. -/
def escaped? (b : UInt8) : Option UInt8 :=
  match b with
  | 0x22 => some 0x22
  | 0x5c => some 0x5c
  | 0x2f => some 0x2f
  | 0x62 => some 0x08
  | 0x66 => some 0x0c
  | 0x6e => some 0x0a
  | 0x72 => some 0x0d
  | 0x74 => some 0x09
  | _ => none

end Mark

def skipBlanks (s : Bytes) : Bytes := s.dropWhile Mark.isBlank

/-! ### Numbers -/

/-- The digits at the front, at least one. -/
def scanDigits (s : Bytes) : Option (List Nat × Bytes) :=
  match s.span Mark.isDigit with
  | ([], _) => none
  | (ds, s) => some (ds.map fun d => d.toNat - 0x30, s)

/-- The digits behind a point, if there is a point. -/
def scanFraction (s : Bytes) : Option (Option (List Nat) × Bytes) :=
  match s with
  | Mark.point :: s => (scanDigits s).map fun (ds, s) => (some ds, s)
  | s => some (none, s)

/-- The exponent, if there is one. -/
def scanExponent (s : Bytes) : Option (Option Int × Bytes) :=
  match s with
  | b :: s' =>
    if b == 0x65 || b == 0x45 then
      match s' with
      | Mark.minus :: s => (scanDigits s).map fun (ds, s) => (some (-(decimal ds : Int)), s)
      | Mark.plus :: s => (scanDigits s).map fun (ds, s) => (some (decimal ds : Int), s)
      | s => (scanDigits s).map fun (ds, s) => (some (decimal ds : Int), s)
    else
      some (none, s)
  | [] => some (none, [])

/-- A number at the front, without leading zeros. -/
def scanNumber (s : Bytes) : Option (Number × Bytes) := do
  let (negative, s) := match s with
    | Mark.minus :: s => (true, s)
    | s => (false, s)
  let (integral, s) ← scanDigits s
  if integral.head? = some 0 ∧ integral.length ≠ 1 then failure
  let (fraction, s) ← scanFraction s
  let (exponent, s) ← scanExponent s
  return ({ negative
            integral
            fraction := fraction.getD []
            exponent := exponent.getD 0
            whole := fraction.isNone && exponent.isNone }, s)

/-! ### Strings -/

/-- A part of a string: a byte, or a unit that is escaped by its number. -/
inductive Piece where
  | byte (b : UInt8)
  | unit (n : Nat)
  deriving DecidableEq, Repr

/-- The number of four hexadecimal digits. -/
def unit? (a b c d : UInt8) : Option Nat := do
  let a ← Mark.hexValue? a
  let b ← Mark.hexValue? b
  let c ← Mark.hexValue? c
  let d ← Mark.hexValue? d
  return 4096 * a + 256 * b + 16 * c + d

/-- The pieces up to the closing quote, and whether none of the bytes is a control character. -/
def scanPieces : Bytes → Option (List Piece × Bool × Bytes)
  | [] => none
  | Mark.quote :: s => some ([], true, s)
  | Mark.backslash :: Mark.letterU :: a :: b :: c :: d :: s =>
    (unit? a b c d).bind fun n => (scanPieces s).map fun (ps, clean, s) => (.unit n :: ps, clean, s)
  | Mark.backslash :: e :: s =>
    (Mark.escaped? e).bind fun b => (scanPieces s).map fun (ps, clean, s) => (.byte b :: ps, clean, s)
  | b :: s => (scanPieces s).map fun (ps, clean, s) => (.byte b :: ps, decide (0x20 ≤ b) && clean, s)

/-- The bytes of a code point in the scheme of UTF-8, surrogates included. -/
def encodePoint (n : Nat) : Bytes :=
  if n < 0x80 then [UInt8.ofNat n]
  else if n < 0x800 then [UInt8.ofNat (0xc0 + n / 64), UInt8.ofNat (0x80 + n % 64)]
  else if n < 0x10000 then
    [UInt8.ofNat (0xe0 + n / 4096), UInt8.ofNat (0x80 + n / 64 % 64), UInt8.ofNat (0x80 + n % 64)]
  else
    [UInt8.ofNat (0xf0 + n / 262144), UInt8.ofNat (0x80 + n / 4096 % 64),
      UInt8.ofNat (0x80 + n / 64 % 64), UInt8.ofNat (0x80 + n % 64)]

def isHighSurrogate (n : Nat) : Bool := 0xd800 ≤ n && n < 0xdc00
def isLowSurrogate (n : Nat) : Bool := 0xdc00 ≤ n && n < 0xe000

/-- The bytes of a string.  Two surrogates that belong together become one code point; a surrogate
that stands alone keeps three bytes, which no text has. -/
def assemble : List Piece → Bytes
  | [] => []
  | .byte b :: ps => b :: assemble ps
  | .unit n :: .unit m :: ps =>
    if isHighSurrogate n && isLowSurrogate m then
      encodePoint (0x10000 + (n - 0xd800) * 1024 + (m - 0xdc00)) ++ assemble ps
    else
      encodePoint n ++ assemble (.unit m :: ps)
  | .unit n :: ps => encodePoint n ++ assemble ps

/-! ### Values -/

/-- What could be read of a value. -/
inductive Scan where
  /-- The text breaks off, or goes against the grammar. -/
  | broken
  | null
  | bool (b : Bool)
  | number (n : Number)
  /-- A string of bytes, and whether it holds no control character that is not escaped. -/
  | string (bytes : Bytes) (clean : Bool)
  | array (items : List Scan) (closed : Bool)
  | object (members : List (Bytes × Bool × Scan)) (closed : Bool)

namespace Scan

/-- The words and their values. -/
def words : List (Bytes × Scan) :=
  [(Bytes.ofText "null", null), (Bytes.ofText "true", bool true), (Bytes.ofText "false", bool false)]

/-- A word or a number at the front. -/
def scalar (s : Bytes) : Scan × Option Bytes :=
  match words.find? fun (w, _) => w.isPrefixOf s with
  | some (w, v) => (v, some (s.drop w.length))
  | none =>
    match scanNumber s with
    | some (n, s) => (number n, some s)
    | none => (broken, none)

mutual

/-- The value at the front, and the rest unless the value is broken. -/
def value (fuel : Nat) (s : Bytes) : Scan × Option Bytes :=
  match fuel with
  | 0 => (broken, none)
  | fuel + 1 =>
    match s with
    | Mark.quote :: s =>
      match scanPieces s with
      | some (ps, clean, s) => (string (assemble ps) clean, some s)
      | none => (broken, none)
    | Mark.openBracket :: s =>
      match skipBlanks s with
      | Mark.closeBracket :: s => (array [] true, some s)
      | s =>
        let (vs, rest) := elements fuel s
        (array vs rest.isSome, rest)
    | Mark.openBrace :: s =>
      match skipBlanks s with
      | Mark.closeBrace :: s => (object [] true, some s)
      | s =>
        let (ms, rest) := members fuel s
        (object ms rest.isSome, rest)
    | s => scalar s

/-- The items of an array that has at least one, and the rest behind its bracket. -/
def elements (fuel : Nat) (s : Bytes) : List Scan × Option Bytes :=
  match fuel with
  | 0 => ([], none)
  | fuel + 1 =>
    let (v, rest) := value fuel s
    match rest.map skipBlanks with
    | some (Mark.closeBracket :: s) => ([v], some s)
    | some (Mark.comma :: s) =>
      let (vs, rest) := elements fuel (skipBlanks s)
      (v :: vs, rest)
    | _ => ([v], none)

/-- The members of an object that has at least one, and the rest behind its brace. -/
def members (fuel : Nat) (s : Bytes) : List (Bytes × Bool × Scan) × Option Bytes :=
  match fuel with
  | 0 => ([], none)
  | fuel + 1 =>
    match s with
    | Mark.quote :: s =>
      match scanPieces s with
      | none => ([], none)
      | some (ps, clean, s) =>
        let key := assemble ps
        match skipBlanks s with
        | Mark.colon :: s =>
          let (v, rest) := value fuel (skipBlanks s)
          match rest.map skipBlanks with
          | some (Mark.closeBrace :: s) => ([(key, clean, v)], some s)
          | some (Mark.comma :: s) =>
            let (ms, rest) := members fuel (skipBlanks s)
            ((key, clean, v) :: ms, rest)
          | _ => ([(key, clean, v)], none)
        | _ => ([(key, clean, broken)], none)
    | _ => ([], none)

end

/-- The value of a whole text, and whether nothing but blanks follows it. -/
def document (s : Bytes) : Scan × Bool :=
  let (v, rest) := value (2 * s.length + 2) (skipBlanks s)
  match rest with
  | some s => (v, (skipBlanks s).isEmpty)
  | none => (v, false)

end Scan

end PlatformGuard.Json
