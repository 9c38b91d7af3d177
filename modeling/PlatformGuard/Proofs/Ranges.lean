import PlatformGuard.Filter.Range
import PlatformGuard.Proofs.Bits
import PlatformGuard.Proofs.Steps
import Mathlib.Data.List.Pairwise

/-!
# Tables of address privileges

A table that is rendered from a set of regions has the bit of a block exactly if some region touches
the block, when reading is rounded up, and exactly if the regions together cover the block, when writing
is rounded down.  The second needs that merged spans leave a gap between each two: an address at the end
of a span lies in no other.
-/

namespace PlatformGuard.Filter

/-! ### Spans -/

namespace Span

instance : Membership Nat Span := ⟨fun s a => s.first ≤ a ∧ a < s.limit⟩

theorem mem_def {s : Span} {a : Nat} : a ∈ s ↔ s.first ≤ a ∧ a < s.limit := Iff.rfl

theorem mem_ofRegion {r : Region} {a : Nat} : a ∈ ofRegion r ↔ a ∈ r := Iff.rfl

/-- Spans in the order of their first addresses. -/
def Ordered (spans : List Span) : Prop := spans.Pairwise fun s t => s.first ≤ t.first

/-- Where two spans touch, joining them keeps the order. -/
theorem ordered_join {s t : Span} {ts : List Span} {n : Nat} (h : Ordered (s :: t :: ts)) :
    Ordered (⟨s.first, n⟩ :: ts) := by
  obtain ⟨hs, ht⟩ := List.pairwise_cons.1 h
  exact List.pairwise_cons.2 ⟨fun b hb => hs b (List.mem_cons_of_mem t hb), ht.of_cons⟩

/-- Merging starts where the first span starts. -/
theorem first_le_of_mem_mergeFrom {s x : Span} {ts : List Span} (h : Ordered (s :: ts))
    (hx : x ∈ mergeFrom s ts) : s.first ≤ x.first := by
  induction ts generalizing s with
  | nil =>
    rw [mergeFrom, List.mem_singleton] at hx
    exact hx ▸ Nat.le_refl _
  | cons t ts ih =>
    rw [mergeFrom] at hx
    split at hx
    · exact ih (s := ⟨s.first, max s.limit t.limit⟩) (ordered_join h) hx
    · obtain ⟨hs, ht⟩ := List.pairwise_cons.1 h
      rcases List.mem_cons.1 hx with rfl | hx
      · exact Nat.le_refl _
      · exact Nat.le_trans (hs t List.mem_cons_self) (ih ht hx)

/-- Merging keeps the addresses. -/
theorem mem_mergeFrom {s : Span} {ts : List Span} {a : Nat} (h : Ordered (s :: ts)) :
    (∃ x ∈ mergeFrom s ts, a ∈ x) ↔ a ∈ s ∨ ∃ x ∈ ts, a ∈ x := by
  induction ts generalizing s with
  | nil => simp [mergeFrom]
  | cons t ts ih =>
    obtain ⟨hs, ht⟩ := List.pairwise_cons.1 h
    have hst := hs t List.mem_cons_self
    rw [mergeFrom]
    split
    · rename_i htouch
      have hjoin : a ∈ (⟨s.first, max s.limit t.limit⟩ : Span) ↔ a ∈ s ∨ a ∈ t := by
        simp only [mem_def]
        omega
      rw [ih (ordered_join h), hjoin]
      simp only [List.mem_cons, exists_eq_or_imp, or_assoc]
    · simp only [List.mem_cons, exists_eq_or_imp, ih ht]

/-- Merging leaves a gap between each two spans. -/
theorem pairwise_mergeFrom {s : Span} {ts : List Span} (h : Ordered (s :: ts)) :
    (mergeFrom s ts).Pairwise fun a b => a.limit < b.first := by
  induction ts generalizing s with
  | nil => exact List.pairwise_singleton _ _
  | cons t ts ih =>
    rw [mergeFrom]
    split
    · exact ih (ordered_join h)
    · rename_i hgap
      obtain ⟨hs, ht⟩ := List.pairwise_cons.1 h
      refine List.pairwise_cons.2 ⟨fun x hx => ?_, ih ht⟩
      exact Nat.lt_of_lt_of_le (Nat.lt_of_not_le hgap) (first_le_of_mem_mergeFrom ht hx)

/-- Merging makes no empty span. -/
theorem lt_of_mem_mergeFrom {s x : Span} {ts : List Span} (hs : s.first < s.limit)
    (ht : ∀ t ∈ ts, t.first < t.limit) (hx : x ∈ mergeFrom s ts) : x.first < x.limit := by
  induction ts generalizing s with
  | nil =>
    rw [mergeFrom, List.mem_singleton] at hx
    exact hx ▸ hs
  | cons t ts ih =>
    have hts : ∀ u ∈ ts, u.first < u.limit := fun u hu => ht u (List.mem_cons_of_mem t hu)
    rw [mergeFrom] at hx
    split at hx
    · refine ih (s := ⟨s.first, max s.limit t.limit⟩) ?_ hts hx
      exact Nat.lt_of_lt_of_le hs (Nat.le_max_left _ _)
    · rcases List.mem_cons.1 hx with rfl | hx
      · exact hs
      · exact ih (ht t List.mem_cons_self) hts hx

/-- The spans in the order of their first addresses. -/
def sorted (spans : List Span) : List Span := spans.mergeSort fun s t => decide (s.first ≤ t.first)

theorem ordered_sorted (spans : List Span) : Ordered (sorted spans) := by
  have htrans : ∀ a b c : Span, decide (a.first ≤ b.first) = true → decide (b.first ≤ c.first) = true →
      decide (a.first ≤ c.first) = true := by
    intro a b c hab hbc
    rw [decide_eq_true_eq] at hab hbc ⊢
    exact Nat.le_trans hab hbc
  have htotal : ∀ a b : Span, (decide (a.first ≤ b.first) || decide (b.first ≤ a.first)) = true := by
    intro a b
    rw [Bool.or_eq_true, decide_eq_true_eq, decide_eq_true_eq]
    exact Nat.le_total _ _
  have h := List.pairwise_mergeSort htrans htotal spans
  simpa [sorted, Ordered] using h

theorem mem_sorted {spans : List Span} {s : Span} : s ∈ sorted spans ↔ s ∈ spans :=
  List.mem_mergeSort

theorem merge_eq (spans : List Span) :
    merge spans = match sorted spans with
      | [] => []
      | s :: ts => mergeFrom s ts := rfl

theorem mem_merge {spans : List Span} {a : Nat} :
    (∃ x ∈ merge spans, a ∈ x) ↔ ∃ x ∈ spans, a ∈ x := by
  have hp := ordered_sorted spans
  have hm : (∃ x ∈ sorted spans, a ∈ x) ↔ ∃ x ∈ spans, a ∈ x := by simp only [mem_sorted]
  rw [merge_eq, ← hm]
  rcases hs : sorted spans with _ | ⟨s, ts⟩
  · exact Iff.rfl
  · rw [hs] at hp
    rw [mem_mergeFrom hp]
    simp only [List.mem_cons, exists_eq_or_imp]

theorem pairwise_merge (spans : List Span) :
    (merge spans).Pairwise fun a b => a.limit < b.first := by
  have hp := ordered_sorted spans
  rw [merge_eq]
  rcases hs : sorted spans with _ | ⟨s, ts⟩
  · exact List.Pairwise.nil
  · rw [hs] at hp
    exact pairwise_mergeFrom hp

theorem lt_of_mem_merge {spans : List Span} {s : Span} (h : ∀ s ∈ spans, s.first < s.limit)
    (hs : s ∈ merge spans) : s.first < s.limit := by
  rw [merge_eq] at hs
  rcases hsort : sorted spans with _ | ⟨t, ts⟩
  · rw [hsort] at hs
    cases hs
  · rw [hsort] at hs
    have hall : ∀ u ∈ t :: ts, u.first < u.limit := fun u hu => h u (mem_sorted.1 (hsort ▸ hu))
    exact lt_of_mem_mergeFrom (hall t List.mem_cons_self)
      (fun u hu => hall u (List.mem_cons_of_mem t hu)) hs

/-- The end of a merged span that is not empty lies in no merged span. -/
theorem limit_notMem_merge {spans : List Span} {s x : Span} {a : Nat} (hs : s ∈ merge spans)
    (hx : x ∈ merge spans) (ha : a ∈ s) : s.limit ∉ x := by
  have hgap : (merge spans).Pairwise fun a b => a.limit < b.first ∨ b.limit < a.first :=
    (pairwise_merge spans).imp Or.inl
  have : Std.Symm fun a b : Span => a.limit < b.first ∨ b.limit < a.first := ⟨fun _ _ => Or.symm⟩
  intro hmem
  simp only [mem_def] at ha hmem
  rcases eq_or_ne s x with rfl | hne
  · omega
  · rcases hgap.forall hs hx hne with h | h
    · omega
    · omega

/-! ### Blocks of spans -/

theorem touches_iff {s : Span} {block : Nat} (hs : s.first < s.limit) :
    s.touches block = true ↔ ∃ a, a / blockSize = block ∧ a ∈ s := by
  simp only [touches, Bool.and_eq_true, decide_eq_true_eq, mem_def]
  unfold blockSize
  constructor
  · rintro ⟨h₁, h₂⟩
    exact ⟨max s.first (block * 0x4000), by omega, by omega, by omega⟩
  · rintro ⟨a, rfl, h₁, h₂⟩
    omega

theorem covers_iff {s : Span} {block : Nat} :
    s.covers block = true ↔ ∀ a, a / blockSize = block → a ∈ s := by
  simp only [covers, Bool.and_eq_true, decide_eq_true_eq, mem_def]
  unfold blockSize
  constructor
  · rintro ⟨h₁, h₂⟩ a rfl
    omega
  · intro h
    have hfirst := h (block * 0x4000) (by omega)
    have hlast := h (block * 0x4000 + 0x3fff) (by omega)
    omega

/-- A block that merged spans cover together is covered by one of them. -/
theorem merge_covers_iff {spans : List Span} {block : Nat} :
    (∃ s ∈ merge spans, s.covers block = true) ↔
      ∀ a, a / blockSize = block → ∃ s ∈ spans, a ∈ s := by
  constructor
  · rintro ⟨s, hs, hc⟩ a ha
    exact mem_merge.1 ⟨s, hs, covers_iff.1 hc a ha⟩
  · intro h
    have hb : block * blockSize / blockSize = block := Nat.mul_div_cancel block (by decide)
    obtain ⟨s, hs, hfirst⟩ := mem_merge.2 (h _ hb)
    refine ⟨s, hs, covers_iff.2 fun a ha => ?_⟩
    by_contra hout
    -- the span ends inside the block, at an address that would have to lie in another span
    have hend : s.limit / blockSize = block := by
      simp only [mem_def, blockSize] at *
      omega
    obtain ⟨x, hx, hmem⟩ := mem_merge.2 (h s.limit hend)
    exact limit_notMem_merge hs hx hfirst hmem

theorem merge_touches_iff {spans : List Span} {block : Nat} (h : ∀ s ∈ spans, s.first < s.limit) :
    (∃ s ∈ merge spans, s.touches block = true) ↔
      ∃ a, a / blockSize = block ∧ ∃ s ∈ spans, a ∈ s := by
  constructor
  · rintro ⟨s, hs, ht⟩
    obtain ⟨a, ha, hmem⟩ := (touches_iff (lt_of_mem_merge h hs)).1 ht
    exact ⟨a, ha, mem_merge.1 ⟨s, hs, hmem⟩⟩
  · rintro ⟨a, ha, hmem⟩
    obtain ⟨s, hs, hmem⟩ := mem_merge.2 hmem
    exact ⟨s, hs, (touches_iff (lt_of_mem_merge h hs)).2 ⟨a, ha, hmem⟩⟩

end Span

/-! ### Sets of regions -/

namespace RangeSet

/-- Some region of the set has the address. -/
instance : Membership Nat RangeSet := ⟨fun s a => ∃ r ∈ s.regions, a ∈ r⟩

theorem mem_def {s : RangeSet} {a : Nat} : a ∈ s ↔ ∃ r ∈ s.regions, a ∈ r := Iff.rfl

theorem notMem_empty (a : Nat) : a ∉ empty := by simp [mem_def, empty]

theorem contains_iff {s : RangeSet} {a : Nat} : s.contains a = true ↔ a ∈ s := by
  simp [contains, mem_def]

/-- Adding a region adds its addresses. -/
theorem mem_insert {s t : RangeSet} {r : Region} (h : s.insert r = .ok t) (a : Nat) :
    a ∈ t ↔ a ∈ s ∨ a ∈ r := by
  unfold insert at h
  split at h
  · cases h
  · split at h
    · rename_i hr
      cases h
      have hn : a ∉ r := by
        rw [Region.mem_def, Region.limit, hr]
        simp only [UInt32.toNat_zero]
        omega
      simp [hn]
    · split at h
      · cases h
        simp only [mem_def, List.mem_append, List.mem_singleton, or_and_right, exists_or,
          exists_eq_left]
      · cases h

theorem lt_addressSpace {s : RangeSet} {a : Nat} (h : a ∈ s) : a < addressSpace := by
  obtain ⟨r, hr, ha⟩ := h
  exact Nat.lt_of_lt_of_le ha.2 (s.bounded r hr).2

theorem exists_mem_spans {s : RangeSet} {a : Nat} :
    (∃ x ∈ s.regions.map Span.ofRegion, a ∈ x) ↔ a ∈ s := by
  simp only [List.mem_map, exists_exists_and_eq_and, Span.mem_ofRegion, mem_def]

theorem spans_nonempty (s : RangeSet) : ∀ x ∈ s.regions.map Span.ofRegion, x.first < x.limit := by
  intro x hx
  obtain ⟨r, hr, rfl⟩ := List.mem_map.1 hx
  have hl := (s.bounded r hr).1
  have hpos : r.length.toNat ≠ 0 := fun h => hl (UInt32.toNat_inj.1 h)
  simp only [Span.ofRegion, Region.limit]
  omega

end RangeSet

/-! ### Rendered tables -/

/-- A rendered table has the bit of a block if some span has the property there. -/
theorem grants_render (p : Span → Nat → Bool) (spans : List Span) (a : Nat) :
    grants (render p spans) a = true ↔ a < addressSpace ∧ ∃ s ∈ spans, p s (a / blockSize) = true := by
  have hlt : a / blockSize < Bits.wordSize * privilegeWords ↔ a < addressSpace := by
    simp only [blockSize, Bits.wordSize, privilegeWords, addressSpace]
    omega
  unfold grants render
  rw [Bits.testIn_table, Bool.and_eq_true, decide_eq_true_eq, hlt, List.any_eq_true]

/-- **The table of writable blocks.**  An address is granted if its whole block may be written. -/
theorem grants_writeTable (p : Privileges) (a : Nat) :
    grants p.writeTable a = true ↔
      a < addressSpace ∧ ∀ b, b / blockSize = a / blockSize → b ∈ p.writable := by
  unfold Privileges.writeTable RangeSet.spans
  rw [grants_render, Span.merge_covers_iff]
  simp only [RangeSet.exists_mem_spans]

/-- **The table of readable blocks.**  An address is granted if some of its block may be read. -/
theorem grants_readTable (p : Privileges) (a : Nat) :
    grants p.readTable a = true ↔ ∃ b, b / blockSize = a / blockSize ∧ b ∈ p.readable := by
  unfold Privileges.readTable RangeSet.spans
  rw [grants_render, Span.merge_touches_iff (RangeSet.spans_nonempty _)]
  simp only [RangeSet.exists_mem_spans]
  constructor
  · rintro ⟨-, h⟩
    exact h
  · rintro ⟨b, hb, hmem⟩
    have hlt := RangeSet.lt_addressSpace hmem
    refine ⟨?_, b, hb, hmem⟩
    simp only [blockSize, addressSpace, Bits.wordSize, privilegeWords] at *
    omega

end PlatformGuard.Filter
