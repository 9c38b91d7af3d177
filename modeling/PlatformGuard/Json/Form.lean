import PlatformGuard.Json.Decode

/-!
# JSON forms

A form writes the values of a type as JSON and reads them back.  The form of a record is put together
from the forms of its fields, so that one description says both what is written and what is read.
-/

namespace PlatformGuard.Json

/-- How the values of a type are written and read. -/
structure Form (α : Type) where
  write : α → Value
  read : Scan → Except Error α

/-- Reads a whole text. -/
def read {α : Type} (form : Form α) (text : Bytes) : Except Error α := do
  let (v, ended) := Scan.document text
  let a ← form.read v
  if ended then return a else throw .malformed

namespace Form

variable {α β : Type}

/-! ### Scalars -/

def bool : Form Bool := ⟨.bool, Scan.asBool⟩

def text : Form String := ⟨.text, Scan.asText⟩

/-- An unsigned integer that is written as a number. -/
def unsigned8 : Form UInt8 :=
  ⟨fun n => .number n.toNat, fun v => (Scan.asUnsigned 8 v).map UInt8.ofNat⟩

def unsigned32 : Form UInt32 :=
  ⟨fun n => .number n.toNat, fun v => (Scan.asUnsigned 32 v).map UInt32.ofNat⟩

/-- A number as a text in base 16. -/
def writeRadix (n : Nat) : Value := .text (String.ofList ('0' :: 'x' :: Text.hexDigits n))

/-- An unsigned integer that is written as a text in base 16. -/
def radix8 : Form UInt8 :=
  ⟨fun n => writeRadix n.toNat, fun v => (Scan.asRadix 0xff v).map UInt8.ofNat⟩

def radix32 : Form UInt32 :=
  ⟨fun n => writeRadix n.toNat, fun v => (Scan.asRadix 0xffffffff v).map UInt32.ofNat⟩

/-- Bytes other than zero, as an array of numbers. -/
def byteString : Form Bytes :=
  ⟨fun bs => .array (bs.map fun b => .number b.toNat), Scan.asByteString⟩

/-- Bytes as a text of hexadecimal digits. -/
def hex : Form Bytes := ⟨fun bs => .text bs.toHex, Scan.asHex⟩

/-- An alternative as its name. -/
def variant [Coded α] : Form α := ⟨fun a => .text (Coded.name a), Scan.asVariant⟩

/-! ### Lists and options -/

def list (form : Form α) : Form (List α) :=
  ⟨fun as => .array (as.map form.write), Scan.asList form.read⟩

def option (form : Form α) : Form (Option α) :=
  ⟨fun a => (a.map form.write).getD .null, Scan.asOption form.read⟩

end Form

/-! ### Records -/

/-- The fields of a record: how they are written, and how they are collected in slots. -/
structure Fields (α : Type) where
  Slots : Type
  /-- The names of the fields in their order. -/
  names : List String
  /-- The slots before any field was found. -/
  empty : Slots
  /-- Takes in a field; `none` where no field has that name. -/
  put : Slots → String → Scan → Option (Except Error Slots)
  /-- The record, where the fields without a default were found. -/
  finish : Slots → Except Error α
  /-- The fields that are written. -/
  members : α → List (String × Value)

namespace Fields

variable {α β : Type}

/-- One field.  Without a default it is required; a value that `hidden` holds of is not written. -/
def field (name : String) (form : Form α) (default : Option α) (hidden : α → Bool) : Fields α where
  Slots := Option α
  names := [name]
  empty := none
  put slot n v :=
    if n = name then
      match slot with
      | some _ => some (.error (.duplicateField name))
      | none => some ((form.read v).map some)
    else
      none
  finish slot :=
    match slot.or default with
    | some a => .ok a
    | none => .error (.missingField name)
  members a := if hidden a then [] else [(name, form.write a)]

def required (name : String) (form : Form α) : Fields α := field name form none fun _ => false

def defaulted (name : String) (form : Form α) (default : α) : Fields α :=
  field name form (some default) fun _ => false

/-- A field that is written only where it differs from its default. -/
def omissible [BEq α] (name : String) (form : Form α) (default : α) : Fields α :=
  field name form (some default) (· == default)

/-- The fields of `f`, and then those of `g`. -/
def both (f : Fields α) (g : Fields β) : Fields (α × β) where
  Slots := f.Slots × g.Slots
  names := f.names ++ g.names
  empty := (f.empty, g.empty)
  put s n v :=
    match f.put s.1 n v with
    | some r => some (r.map fun t => (t, s.2))
    | none => (g.put s.2 n v).map fun r => r.map fun t => (s.1, t)
  finish s := do
    let a ← f.finish s.1
    let b ← g.finish s.2
    return (a, b)
  members a := f.members a.1 ++ g.members a.2

/-- The same fields for another type. -/
def convert (f : Fields α) (make : α → β) (parts : β → α) : Fields β where
  Slots := f.Slots
  names := f.names
  empty := f.empty
  put := f.put
  finish s := (f.finish s).map make
  members b := f.members (parts b)

/-! ### Reading records -/

/-- Takes in a member; one that is no field has only to follow the grammar. -/
def member (f : Fields α) (s : f.Slots) (m : Bytes × Bool × Scan) : Except Error f.Slots := do
  let name ← Scan.textOf m.1 m.2.1
  match f.put s name m.2.2 with
  | some r => r
  | none => if m.2.2.isSound then return s else throw .malformed

/-- Takes in an item as the field with a given name. -/
def item (f : Fields α) (s : f.Slots) (i : String × Scan) : Except Error f.Slots :=
  (f.put s i.1 i.2).getD (.ok s)

/-- Reads a record from an object, or from an array that has its fields in order. -/
def read (f : Fields α) : Scan → Except Error α
  | .object members closed => do
    let s ← members.foldlM f.member f.empty
    if closed then f.finish s else throw .malformed
  | .array items closed => do
    let s ← (f.names.zip items).foldlM f.item f.empty
    if closed && decide (items.length ≤ f.names.length) then
      (f.finish s).mapError fun _ => .malformed
    else
      throw .malformed
  | _ => .error .malformed

/-- The form of the record. -/
def form (f : Fields α) : Form α := ⟨fun a => .object (f.members a), f.read⟩

end Fields

end PlatformGuard.Json
