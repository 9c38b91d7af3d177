import PlatformGuard.Proofs.Policies

/-!
# Privileges, call by call

Regions are added to privileges one at a time, and some are refused.  What may be read or written is then
what the accepted regions hold, and the rendered tables say the same of whole blocks: a block may be
written if all of it is allowed, and read if some of it is.  A table is known by its bits, so it depends on
the allowed addresses alone: neither the order of the calls nor how they cut the addresses shows in it.
-/

namespace PlatformGuard.Filter

/-! ### Refused regions -/

/-- Which regions a set refuses, and why. -/
theorem RangeSet.insert_eq_error {s : RangeSet} {r : Region} {e : Error} :
    s.insert r = .error e ↔ (addressSpace < r.limit ∧ e = .outOfRange) ∨
      (r.limit ≤ addressSpace ∧ r.length ≠ 0 ∧ maxRegions ≤ s.regions.length ∧ e = .tooManyRanges) := by
  unfold insert
  by_cases hb : addressSpace < r.limit
  · simp [hb, eq_comm, Nat.not_le_of_lt hb]
  · by_cases he : r.length = 0
    · simp [hb, he]
    · by_cases hl : s.regions.length < maxRegions
      · simp [hb, he, hl, Nat.not_le_of_lt hl]
      · simp [hb, he, hl, eq_comm, Nat.le_of_not_lt hb, Nat.le_of_not_lt hl]

namespace Privileges

/-! ### Calls -/

/-- The calls that add a region. -/
inductive Call where
  | allowRead (r : Region)
  | allowWrite (r : Region)
  deriving DecidableEq

namespace Call

def region : Call → Region
  | allowRead r => r
  | allowWrite r => r

/-- The set that the region is added to. -/
def target : Call → Privileges → RangeSet
  | allowRead _, p => p.readable
  | allowWrite _, p => p.writable

/-- The privileges with the region added, if it is not refused. -/
def apply : Call → Privileges → Except Error Privileges
  | allowRead r, p => p.allowRead r
  | allowWrite r, p => p.allowWrite r

/-- A call on privileges that are changed in place. -/
def step (c : Call) : ExceptT Error (StateM Privileges) Unit := fun p =>
  match c.apply p with
  | .ok q => (.ok (), q)
  | .error e => (.error e, p)

theorem apply_eq_error {c : Call} {p : Privileges} {e : Error} :
    c.apply p = .error e ↔ (c.target p).insert c.region = .error e := by
  have hmap : ∀ {s : Except Error RangeSet} {f : RangeSet → Privileges},
      s.map f = .error e ↔ s = .error e := by
    intro s f
    cases s <;> simp [Except.map]
  cases c with
  | allowRead r => exact hmap
  | allowWrite r => exact hmap

/-- A refused call changes nothing. -/
theorem step_eq_error {c : Call} {p q : Privileges} {e : Error} :
    c.step p = (.error e, q) ↔ q = p ∧ (c.target p).insert c.region = .error e := by
  rw [← apply_eq_error]
  unfold step
  rcases c.apply p with e' | q'
  · constructor
    · intro h
      cases h
      exact ⟨rfl, rfl⟩
    · rintro ⟨rfl, h⟩
      cases h
      rfl
  · constructor
    · intro h
      cases h
    · rintro ⟨-, h⟩
      cases h

end Call

/-- The privileges after calls, of which some may be refused. -/
def after (p : Privileges) (cs : List Call) : Privileges := cs.foldl (fun p c => (c.step p).2) p

/-- The calls that are not refused. -/
def accepted (p : Privileges) : List Call → List Call
  | [] => []
  | c :: cs =>
    match c.apply p with
    | .ok q => c :: accepted q cs
    | .error _ => accepted p cs

/-- An accepted call adds the addresses of its region where it says, and nothing else. -/
theorem apply_ok {c : Call} {p q : Privileges} (h : c.apply p = .ok q) (a : Nat) :
    (a ∈ q.readable ↔ a ∈ p.readable ∨ ∃ r, c = .allowRead r ∧ a ∈ r) ∧
      (a ∈ q.writable ↔ a ∈ p.writable ∨ ∃ r, c = .allowWrite r ∧ a ∈ r) := by
  cases c with
  | allowRead r =>
    obtain ⟨hw, hr⟩ := allowRead_ok h
    simp [hw, hr]
  | allowWrite r =>
    obtain ⟨hr, hw⟩ := allowWrite_ok h
    simp [hw, hr]

/-- What is allowed after calls are the addresses of the accepted regions. -/
theorem mem_after (p : Privileges) (cs : List Call) (a : Nat) :
    (a ∈ (p.after cs).readable ↔ a ∈ p.readable ∨ ∃ r, .allowRead r ∈ p.accepted cs ∧ a ∈ r) ∧
      (a ∈ (p.after cs).writable ↔ a ∈ p.writable ∨ ∃ r, .allowWrite r ∈ p.accepted cs ∧ a ∈ r) := by
  induction cs generalizing p with
  | nil => simp [after, accepted]
  | cons c cs ih =>
    rcases hc : c.apply p with e | q
    · have hafter : p.after (c :: cs) = p.after cs := by simp [after, Call.step, hc]
      have haccepted : p.accepted (c :: cs) = p.accepted cs := by simp [accepted, hc]
      rw [hafter, haccepted]
      exact ih p
    · have hafter : p.after (c :: cs) = q.after cs := by simp [after, Call.step, hc]
      have haccepted : p.accepted (c :: cs) = c :: q.accepted cs := by simp [accepted, hc]
      obtain ⟨hr, hw⟩ := apply_ok hc a
      obtain ⟨ihr, ihw⟩ := ih q
      rw [hafter, haccepted, ihr, ihw, hr, hw]
      simp only [List.mem_cons, or_and_right, exists_or, or_assoc, eq_comm (a := c), and_self]

/-! ### Tables and addresses -/

theorem isReadAllowed_iff {p : Privileges} {a : Nat} : p.isReadAllowed a = true ↔ a ∈ p.readable :=
  RangeSet.contains_iff

theorem isWriteAllowed_iff {p : Privileges} {a : Nat} : p.isWriteAllowed a = true ↔ a ∈ p.writable :=
  RangeSet.contains_iff

/-- The rendered tables say of whole blocks what is allowed. -/
structure Exact (p : Privileges) : Prop where
  /-- A block may be written if all of it may be. -/
  writes : ∀ a, grants p.writeTable a = true ↔
    ∀ b, b / blockSize = a / blockSize → p.isWriteAllowed b = true
  /-- A block may be read if some of it may be. -/
  reads : ∀ a, grants p.readTable a = true ↔
    ∃ b, b / blockSize = a / blockSize ∧ p.isReadAllowed b = true
  bounded : ∀ a, 0x10000000 ≤ a → grants p.writeTable a = false ∧ grants p.readTable a = false

theorem exact (p : Privileges) : p.Exact := by
  have hspace : addressSpace = 0x10000000 := rfl
  refine ⟨fun a => ?_, fun a => ?_, fun a ha => ⟨?_, ?_⟩⟩
  · rw [grants_writeTable]
    simp only [isWriteAllowed_iff]
    exact ⟨fun h => h.2, fun h => ⟨RangeSet.lt_addressSpace (h a rfl), h⟩⟩
  · rw [grants_readTable]
    simp only [isReadAllowed_iff]
  · rw [Bool.eq_false_iff]
    intro h
    have := ((grants_writeTable p a).1 h).1
    omega
  · rw [Bool.eq_false_iff]
    intro h
    -- the block of an address behind the tables has no address before their end
    obtain ⟨b, hb, hmem⟩ := (grants_readTable p a).1 h
    have hlt := RangeSet.lt_addressSpace hmem
    unfold blockSize at hb
    omega

/-- A table is known by what it grants. -/
theorem table_ext {s t : PrivilegeTable} (h : ∀ a, grants s a = grants t a) : s = t := by
  refine Bits.eq_of_testIn fun i => ?_
  have hi := h (i * blockSize)
  rwa [grants, grants, Nat.mul_div_cancel i (by decide)] at hi

/-- What may be written decides the write table. -/
theorem writeTable_congr {p q : Privileges} (h : ∀ a, p.isWriteAllowed a = q.isWriteAllowed a) :
    p.writeTable = q.writeTable := by
  refine table_ext fun a => Bool.eq_iff_iff.2 ?_
  rw [p.exact.writes, q.exact.writes]
  simp only [h]

/-- What may be read decides the read table. -/
theorem readTable_congr {p q : Privileges} (h : ∀ a, p.isReadAllowed a = q.isReadAllowed a) :
    p.readTable = q.readTable := by
  refine table_ext fun a => Bool.eq_iff_iff.2 ?_
  rw [p.exact.reads, q.exact.reads]
  simp only [h]

/-- **Rendered tables are exact.**  After any calls, refused ones among them, the allowed addresses are those
of the accepted regions, and the tables grant the blocks that these fill or touch.  So no write is granted
that is not allowed and no read refused that is, and two runs that allow the same addresses end with the
same tables.  A refused call leaves everything as it is; what is refused are regions that reach behind the
tables, and non-empty ones when the set is full. -/
theorem tables_exact (cs : List Call) :
    let p := none.after cs
    (∀ a, (p.isReadAllowed a = true ↔ ∃ r, .allowRead r ∈ none.accepted cs ∧ a ∈ r) ∧
      (p.isWriteAllowed a = true ↔ ∃ r, .allowWrite r ∈ none.accepted cs ∧ a ∈ r)) ∧
    p.Exact ∧
    (∀ a, (grants p.writeTable a = true → p.isWriteAllowed a = true) ∧
      (p.isReadAllowed a = true → grants p.readTable a = true)) ∧
    (∀ ds, let q := none.after ds
      ((∀ a, p.isWriteAllowed a = q.isWriteAllowed a) → p.writeTable = q.writeTable) ∧
      ((∀ a, p.isReadAllowed a = q.isReadAllowed a) → p.readTable = q.readTable)) ∧
    ∀ (c : Call) e q, c.step p = (.error e, q) ↔ q = p ∧
      ((addressSpace < c.region.limit ∧ e = .outOfRange) ∨
        (c.region.limit ≤ addressSpace ∧ c.region.length ≠ 0 ∧
          maxRegions ≤ (c.target p).regions.length ∧ e = .tooManyRanges)) := by
  intro p
  refine ⟨fun a => ?_, p.exact, fun a => ⟨fun h => ?_, fun h => ?_⟩,
    fun ds => ⟨writeTable_congr, readTable_congr⟩, fun c e q => ?_⟩
  · obtain ⟨hr, hw⟩ := mem_after none cs a
    rw [isReadAllowed_iff, isWriteAllowed_iff, hr, hw]
    simp [none, RangeSet.notMem_empty]
  · exact (p.exact.writes a).1 h a rfl
  · exact (p.exact.reads a).2 ⟨a, rfl, h⟩
  · rw [Call.step_eq_error, RangeSet.insert_eq_error]

/-- Two halves of a block, a region that reaches behind the tables, and a byte to read. -/
def halves : List Call :=
  [.allowWrite ⟨0, 0x2000⟩, .allowWrite ⟨0xfffffff, 2⟩, .allowWrite ⟨0x2000, 0x2000⟩, .allowRead ⟨0x5000, 1⟩]

/-- Overlapping regions in another order. -/
def overlapping : List Call :=
  [.allowRead ⟨0x5000, 1⟩, .allowWrite ⟨0x1000, 0x3000⟩, .allowWrite ⟨0, 0x1800⟩]

/-- Both allow the same writes. -/
theorem halves_exact : (none.after halves).Exact ∧ (none.after halves).isReadAllowed 0x5000 = true ∧
    grants (none.after halves).readTable 0x5000 = true ∧
    (none.after halves).writeTable = (none.after overlapping).writeTable := by
  obtain ⟨hallowed, hexact, hcover, hsame, -⟩ := tables_exact halves
  have hread : (none.after halves).isReadAllowed 0x5000 = true := by decide
  refine ⟨hexact, hread, (hcover 0x5000).2 hread, (hsame overlapping).1 fun a => ?_⟩
  have hp : none.accepted halves =
      [.allowWrite ⟨0, 0x2000⟩, .allowWrite ⟨0x2000, 0x2000⟩, .allowRead ⟨0x5000, 1⟩] := by rfl
  have hq : none.accepted overlapping = overlapping := by rfl
  rw [Bool.eq_iff_iff, (hallowed a).2, ((tables_exact overlapping).1 a).2, hp, hq]
  simp [overlapping, Region.mem_def, Region.limit]
  omega

end Privileges

end PlatformGuard.Filter
