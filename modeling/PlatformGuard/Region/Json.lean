import PlatformGuard.Json.Form
import PlatformGuard.Region

/-!
# The JSON form of regions

A region is an object with an address and a length.  The address stands in a part of its own, which is
read only after all members were seen; until then every member but the length is kept.
-/

namespace PlatformGuard.Region

open Json

/-- The members of a region's object that were seen. -/
structure Seen where
  length : Option UInt32 := none
  addresses : List Scan := []

namespace Seen

/-- Takes in a member; what is kept for later may nest to the given depth. -/
def member (depth : Nat) (s : Seen) (m : Bytes × Bool × Scan) : Except Json.Error Seen := do
  let name ← Scan.textOf m.1 m.2.1
  if name = "len" then
    if s.length.isSome then throw (.duplicateField name)
    let n ← Form.unsigned32.read m.2.2
    return { s with length := some n }
  else if !m.2.2.isKept depth then
    throw .malformed
  else if name = "address" then
    return { s with addresses := s.addresses ++ [m.2.2] }
  else
    return s

/-- The region, where both parts were found once. -/
def finish (s : Seen) : Except Json.Error Region :=
  match s.length, s.addresses with
  | none, _ => .error (.missingField "len")
  | some _, [] => .error (.missingField "address")
  | some length, v :: vs => do
    let address ← Form.unsigned32.read v
    if vs.isEmpty then return ⟨address, length⟩ else throw (.duplicateField "address")

end Seen

/-- The form of an address alone. -/
def addressForm : Form UInt32 := (Fields.required "address" .unsigned32).form

/-- The form of a region whose members may nest to the given depth. -/
def form (depth : Nat) : Form Region where
  write r := .object [("address", .number r.address.toNat), ("len", .number r.length.toNat)]
  read
    | .object members closed => do
      let s ← members.foldlM (Seen.member depth) {}
      if closed then s.finish else throw .malformed
    | _ => .error .malformed

end PlatformGuard.Region
