import PlatformGuard.Bits
import PlatformGuard.Filter
import PlatformGuard.Region

/-!
# Address privileges

Which addresses the host may read and which it may write is kept as regions and rendered as tables
with one bit for each block.  A block is readable if a readable region touches it, and writable only
if writable regions cover all of it, so that rendering never grants a write that was not allowed.
-/

namespace PlatformGuard.Filter

/-! ### Blocks -/

/-- How many addresses one bit of a privilege table stands for. -/
def blockSize : Nat := 0x4000

/-- The number of words of a privilege table. -/
def privilegeWords : Nat := 512

/-- The first address behind the privilege tables. -/
def addressSpace : Nat := blockSize * Bits.wordSize * privilegeWords

/-- A privilege table. -/
abbrev PrivilegeTable := Vector UInt32 privilegeWords

/-- Whether a table grants an address. -/
def grants (table : PrivilegeTable) (address : Nat) : Bool := Bits.testIn table (address / blockSize)

/-! ### Sets of regions -/

/-- The number of regions that a set can hold. -/
def maxRegions : Nat := 64

/-- A set of addresses, as regions in the order in which they were added. -/
structure RangeSet where
  regions : List Region
  length_le : regions.length ≤ maxRegions
  bounded : ∀ r ∈ regions, r.length ≠ 0 ∧ r.limit ≤ addressSpace
  deriving DecidableEq

namespace RangeSet

def empty : RangeSet := ⟨[], by decide, by simp⟩

theorem length_snoc_le {s : RangeSet} (r : Region) (h : s.regions.length < maxRegions) :
    (s.regions ++ [r]).length ≤ maxRegions := by
  rw [List.length_append]
  exact h

theorem bounded_snoc {s : RangeSet} {r : Region} (he : r.length ≠ 0)
    (hb : ¬ addressSpace < r.limit) :
    ∀ q ∈ s.regions ++ [r], q.length ≠ 0 ∧ q.limit ≤ addressSpace := by
  intro q hq
  rcases List.mem_append.1 hq with h | h
  · exact s.bounded q h
  · rw [List.mem_singleton.1 h]
    exact ⟨he, Nat.le_of_not_lt hb⟩

/-- Adds a region; an empty one adds nothing. -/
def insert (s : RangeSet) (r : Region) : Except Error RangeSet :=
  if hb : addressSpace < r.limit then .error .outOfRange
  else if he : r.length = 0 then .ok s
  else if hl : s.regions.length < maxRegions then
    .ok ⟨s.regions ++ [r], length_snoc_le r hl, bounded_snoc he hb⟩
  else .error .tooManyRanges

def contains (s : RangeSet) (address : Nat) : Bool := s.regions.any fun r => decide (address ∈ r)

def isEmpty (s : RangeSet) : Bool := s.regions.isEmpty

end RangeSet

/-! ### Spans -/

/-- The addresses from `first` up to but not including `limit`. -/
structure Span where
  first : Nat
  limit : Nat
  deriving DecidableEq, Repr

namespace Span

def ofRegion (r : Region) : Span := ⟨r.address.toNat, r.limit⟩

/-- Joins a span with those that follow in the order of their first addresses, where they touch. -/
def mergeFrom (s : Span) : List Span → List Span
  | [] => [s]
  | t :: ts =>
    if t.first ≤ s.limit then mergeFrom ⟨s.first, max s.limit t.limit⟩ ts else s :: mergeFrom t ts

/-- The spans that are left when all those that touch are joined. -/
def merge (spans : List Span) : List Span :=
  match spans.mergeSort fun s t => decide (s.first ≤ t.first) with
  | [] => []
  | s :: ts => mergeFrom s ts

/-- Whether some address of a block lies in the span. -/
def touches (s : Span) (block : Nat) : Bool :=
  decide (s.first / blockSize ≤ block) && decide (block < (s.limit + blockSize - 1) / blockSize)

/-- Whether all addresses of a block lie in the span. -/
def covers (s : Span) (block : Nat) : Bool :=
  decide ((s.first + blockSize - 1) / blockSize ≤ block) && decide (block < s.limit / blockSize)

end Span

/-- The spans of a set, joined where they touch. -/
def RangeSet.spans (s : RangeSet) : List Span := Span.merge (s.regions.map Span.ofRegion)

/-- The table of the blocks for which some span has the property `p`. -/
def render (p : Span → Nat → Bool) (spans : List Span) : PrivilegeTable :=
  Bits.table privilegeWords fun block => spans.any fun s => p s block

/-! ### Privileges -/

/-- What the host may read and write. -/
structure Privileges where
  readable : RangeSet
  writable : RangeSet
  deriving DecidableEq

namespace Privileges

/-- Nothing is allowed. -/
def none : Privileges := ⟨.empty, .empty⟩

def allowRead (p : Privileges) (r : Region) : Except Error Privileges :=
  (p.readable.insert r).map fun s => { p with readable := s }

def allowWrite (p : Privileges) (r : Region) : Except Error Privileges :=
  (p.writable.insert r).map fun s => { p with writable := s }

def isReadAllowed (p : Privileges) (address : Nat) : Bool := p.readable.contains address

def isWriteAllowed (p : Privileges) (address : Nat) : Bool := p.writable.contains address

/-- The table of the blocks that a readable region touches. -/
def readTable (p : Privileges) : PrivilegeTable := render Span.touches p.readable.spans

/-- The table of the blocks that writable regions cover. -/
def writeTable (p : Privileges) : PrivilegeTable := render Span.covers p.writable.spans

/-- Whether the rendered table lets the host write an address. -/
def isWriteEnforced (p : Privileges) (address : Nat) : Bool := grants p.writeTable address

end Privileges

end PlatformGuard.Filter
