import PlatformGuard.Bits

/-!
# Runs of words

Most words of a table are zero or equal to their neighbours, so tables are written down as runs.
-/

namespace PlatformGuard.Bits

/-- Equal words at consecutive places of a table. -/
structure Run where
  start : Nat
  count : Nat
  word : UInt32
  deriving DecidableEq, Repr

/-- The longest runs of words, from the `i`th place on. -/
def runsFrom (i : Nat) : List UInt32 → List Run
  | [] => []
  | w :: ws =>
    match runsFrom (i + 1) ws with
    | r :: rest =>
      if r.word = w then ⟨i, r.count + 1, w⟩ :: rest else ⟨i, 1, w⟩ :: r :: rest
    | [] => [⟨i, 1, w⟩]

/-- The longest runs of words other than zero. -/
def runs {n : Nat} (table : Vector UInt32 n) : List Run :=
  (runsFrom 0 table.toList).filter fun r => r.word != 0

/-- The table with the given runs; places outside all runs are zero. -/
def ofRuns (n : Nat) (rs : List Run) : Vector UInt32 n :=
  Vector.ofFn fun i =>
    match rs.find? fun r => decide (r.start ≤ i.val ∧ i.val < r.start + r.count) with
    | some r => r.word
    | none => 0

end PlatformGuard.Bits
