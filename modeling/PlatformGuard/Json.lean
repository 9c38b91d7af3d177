import PlatformGuard.Bytes

/-!
# JSON values and their texts

The values that this library writes, with the compact text and the indented one.
-/

namespace PlatformGuard.Json

/-- A JSON value with natural numbers, whose objects keep the order of their members. -/
inductive Value where
  | null
  | bool (b : Bool)
  | number (n : Nat)
  | text (s : String)
  | array (items : List Value)
  | object (members : List (String × Value))

/-! ### Tokens -/

/-- Four lower-case digits. -/
def fourDigits (n : Nat) : List Char :=
  [Bytes.digitChar (n / 4096 % 16), Bytes.digitChar (n / 256 % 16),
    Bytes.digitChar (n / 16 % 16), Bytes.digitChar (n % 16)]

/-- A character inside quotes; control characters, the quote and the backslash are escaped. -/
def escape (c : Char) : List Char :=
  if c = '"' then ['\\', '"']
  else if c = '\\' then ['\\', '\\']
  else if c = '\x08' then ['\\', 'b']
  else if c = '\x0c' then ['\\', 'f']
  else if c = '\n' then ['\\', 'n']
  else if c = '\r' then ['\\', 'r']
  else if c = '\t' then ['\\', 't']
  else if c.toNat < 0x20 then '\\' :: 'u' :: fourDigits c.toNat
  else [c]

def quote (s : String) : List Char := '"' :: s.toList.flatMap escape ++ ['"']

def bool (b : Bool) : List Char := if b then ['t', 'r', 'u', 'e'] else ['f', 'a', 'l', 's', 'e']

def null : List Char := ['n', 'u', 'l', 'l']

def openBrace : Char := '\x7b'
def closeBrace : Char := '\x7d'

/-! ### The compact text -/

namespace Value

mutual

/-- The text without blanks. -/
def compact : Value → List Char
  | null => Json.null
  | bool b => Json.bool b
  | number n => (toString n).toList
  | text s => quote s
  | array items => '[' :: compactItems items ++ [']']
  | object members => openBrace :: compactMembers members ++ [closeBrace]

/-- The items with commas between them. -/
def compactItems : List Value → List Char
  | [] => []
  | [v] => v.compact
  | v :: vs => v.compact ++ ',' :: compactItems vs

/-- The members with commas between them. -/
def compactMembers : List (String × Value) → List Char
  | [] => []
  | [(k, v)] => quote k ++ ':' :: v.compact
  | (k, v) :: ms => quote k ++ ':' :: v.compact ++ ',' :: compactMembers ms

end

/-! ### The indented text -/

/-- A line break and two blanks for each level. -/
def lineBreak (level : Nat) : List Char := '\n' :: List.replicate (2 * level) ' '

mutual

/-- The text with one item or member on a line, at a level of nesting. -/
def indented (level : Nat) : Value → List Char
  | null => Json.null
  | bool b => Json.bool b
  | number n => (toString n).toList
  | text s => quote s
  | array [] => ['[', ']']
  | array items =>
    '[' :: lineBreak (level + 1) ++ indentedItems (level + 1) items ++ lineBreak level ++ [']']
  | object [] => [openBrace, closeBrace]
  | object members =>
    openBrace :: lineBreak (level + 1) ++ indentedMembers (level + 1) members ++ lineBreak level
      ++ [closeBrace]

def indentedItems (level : Nat) : List Value → List Char
  | [] => []
  | [v] => v.indented level
  | v :: vs => v.indented level ++ ',' :: lineBreak level ++ indentedItems level vs

def indentedMembers (level : Nat) : List (String × Value) → List Char
  | [] => []
  | [(k, v)] => quote k ++ ':' :: ' ' :: v.indented level
  | (k, v) :: ms =>
    quote k ++ ':' :: ' ' :: v.indented level ++ ',' :: lineBreak level ++ indentedMembers level ms

end

/-- The compact text. -/
def render (v : Value) : String := String.ofList v.compact

/-- The indented text. -/
def renderIndented (v : Value) : String := String.ofList (v.indented 0)

end Value

end PlatformGuard.Json
