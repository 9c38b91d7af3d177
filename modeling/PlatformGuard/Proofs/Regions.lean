import PlatformGuard.Region

/-!
# Regions as sets of addresses

Regions are compared by their bounds, and what is asked are facts about addresses.  The bounds are words,
but a region may end outside the address space, and its two bounds may be one.  Where a region lies within
another, and what two bounds make, is exactly what the addresses say.  Overlapping is that as well, but for
one case: an empty region overlaps every region that has addresses on both sides of it (`Splits`), although
it has no address to share.
-/

namespace PlatformGuard.Region

variable {r s t : Region} {first last : UInt32}

/-! ### Bounds -/

theorem address_le_limit (r : Region) : r.address.toNat ≤ r.limit := Nat.le_add_right _ _

theorem ofBounds?_eq_some : ofBounds? first last = some r ↔ first < last ∧ r = ⟨first, last - first⟩ := by
  unfold ofBounds?
  split
  · rename_i h
    simp [h, eq_comm]
  · rename_i h
    simp [h]

theorem add_length (first last : UInt32) : first + (last - first) = last := by
  rw [UInt32.add_comm, UInt32.sub_add_cancel]

/-- What was made from two bounds starts at the first. -/
theorem address_ofBounds? (h : ofBounds? first last = some r) : r.address = first := by
  obtain ⟨-, rfl⟩ := ofBounds?_eq_some.1 h
  rfl

/-- What was made from two bounds ends at the second. -/
theorem limit_ofBounds? (h : ofBounds? first last = some r) : r.limit = last.toNat := by
  obtain ⟨hlt, rfl⟩ := ofBounds?_eq_some.1 h
  have hlength : (last - first).toNat = last.toNat - first.toNat :=
    UInt32.toNat_sub_of_le _ _ (UInt32.le_of_lt hlt)
  have hlt' := UInt32.lt_iff_toNat_lt.1 hlt
  unfold limit
  dsimp only
  omega

theorem mem_ofBounds? (h : ofBounds? first last = some r) {a : Nat} :
    a ∈ r ↔ first.toNat ≤ a ∧ a < last.toNat := by
  rw [mem_def, address_ofBounds? h, limit_ofBounds? h]

theorem end?_eq_some {a : UInt32} : r.end? = some a ↔ r.limit < addressLimit ∧ a.toNat = r.limit := by
  unfold end?
  by_cases h : r.limit < addressLimit
  · have hn : (UInt32.ofNat r.limit).toNat = r.limit := UInt32.toNat_ofNat_of_lt' h
    rw [if_pos h, Option.some.injEq]
    constructor
    · rintro rfl
      exact ⟨h, hn⟩
    · rintro ⟨-, ha⟩
      exact UInt32.toNat_inj.1 (hn.trans ha.symm)
  · rw [if_neg h]
    simp [h]

theorem isSome_end? : r.end?.isSome = true ↔ r.limit < addressLimit := by
  unfold end?
  split <;> simp [*]

/-! ### Regions inside regions -/

/-- All of `r`, which may be empty, lies between the bounds of `s`. -/
def Inside (r s : Region) : Prop := s.address.toNat ≤ r.address.toNat ∧ r.limit ≤ s.limit

theorem Inside.refl (r : Region) : r.Inside r := ⟨Nat.le_refl _, Nat.le_refl _⟩

theorem Inside.trans (hr : r.Inside s) (hs : s.Inside t) : r.Inside t :=
  ⟨Nat.le_trans hs.1 hr.1, Nat.le_trans hr.2 hs.2⟩

theorem Inside.mem (h : r.Inside s) {a : Nat} (ha : a ∈ r) : a ∈ s :=
  ⟨Nat.le_trans h.1 ha.1, Nat.lt_of_lt_of_le ha.2 h.2⟩

theorem isWithin_iff :
    r.isWithin s = true ↔ r.limit < addressLimit ∧ s.limit < addressLimit ∧ r.Inside s := by
  unfold isWithin
  split
  · rename_i a b ha hb
    obtain ⟨hr, ha⟩ := end?_eq_some.1 ha
    obtain ⟨hs, hb⟩ := end?_eq_some.1 hb
    rw [Bool.and_eq_true, decide_eq_true_eq, decide_eq_true_eq, UInt32.le_iff_toNat_le,
      UInt32.le_iff_toNat_le, ha, hb]
    exact ⟨fun h => ⟨hr, hs, h⟩, fun h => h.2.2⟩
  · rename_i hnone
    refine ⟨nofun, fun ⟨hr, hs, _⟩ => ?_⟩
    obtain ⟨a, ha⟩ := Option.isSome_iff_exists.1 (isSome_end?.2 hr)
    obtain ⟨b, hb⟩ := Option.isSome_iff_exists.1 (isSome_end?.2 hs)
    exact (hnone a b ha hb).elim

theorem inside_of_isWithin (h : r.isWithin s = true) : r.Inside s := (isWithin_iff.1 h).2.2

/-! ### Regions that overlap -/

/-- Some address lies in both regions. -/
def Meets (r s : Region) : Prop := ∃ a : Nat, a ∈ r ∧ a ∈ s

/-- `r` is empty, and `s` has addresses on both sides of it. -/
def Splits (r s : Region) : Prop :=
  r.length = 0 ∧ s.address.toNat < r.address.toNat ∧ r.address.toNat < s.limit

instance (r s : Region) : Decidable (r.Splits s) :=
  inferInstanceAs (Decidable (r.length = 0 ∧ s.address.toNat < r.address.toNat ∧ r.address.toNat < s.limit))

/-- If two regions share an address, they share the higher of their first addresses. -/
theorem meets_iff : r.Meets s ↔ max r.address.toNat s.address.toNat < min r.limit s.limit := by
  constructor
  · rintro ⟨a, hr, hs⟩
    obtain ⟨hr₁, hr₂⟩ := mem_def.1 hr
    obtain ⟨hs₁, hs₂⟩ := mem_def.1 hs
    omega
  · intro h
    refine ⟨max r.address.toNat s.address.toNat, mem_def.2 ?_, mem_def.2 ?_⟩ <;> omega

/-- Regions that share an address share one inside the address space. -/
theorem meets_iff_word : r.Meets s ↔ ∃ a : UInt32, a.toNat ∈ r ∧ a.toNat ∈ s := by
  constructor
  · intro h
    have hlt := meets_iff.1 h
    rcases Nat.le_total r.address.toNat s.address.toNat with hle | hle
    · exact ⟨s.address, mem_def.2 (by omega), mem_def.2 (by omega)⟩
    · exact ⟨r.address, mem_def.2 (by omega), mem_def.2 (by omega)⟩
  · rintro ⟨a, hr, hs⟩
    exact ⟨_, hr, hs⟩

theorem overlaps_iff : r.overlaps s = true ↔ r.address.toNat < s.limit ∧ s.address.toNat < r.limit := by
  rw [overlaps, Bool.and_eq_true, decide_eq_true_eq, decide_eq_true_eq]

/-- Regions do not overlap if one ends before the other starts. -/
theorem overlaps_eq_false :
    r.overlaps s = false ↔ r.limit ≤ s.address.toNat ∨ s.limit ≤ r.address.toNat := by
  rw [← Bool.not_eq_true, overlaps_iff]
  omega

theorem overlaps_comm (r s : Region) : r.overlaps s = s.overlaps r := Bool.and_comm _ _

theorem overlaps_iff_meets : r.overlaps s = true ↔ r.Meets s ∨ r.Splits s ∨ s.Splits r := by
  have hzero : ∀ q : Region, q.length = 0 ↔ q.length.toNat = 0 := fun q => UInt32.toNat_inj.symm
  rw [overlaps_iff, meets_iff, Splits, Splits, hzero, hzero]
  unfold limit
  omega

/-- What splits a region has no address. -/
theorem Splits.notMem (h : r.Splits s) (a : Nat) : a ∉ r := by
  intro ha
  have hlength : r.length.toNat = 0 := congrArg UInt32.toNat h.1
  obtain ⟨hfirst, hlast⟩ := mem_def.1 ha
  unfold limit at hlast
  omega

/-- Overlapping is sharing an address exactly where neither region splits the other. -/
theorem overlaps_exact : (r.overlaps s = true ↔ r.Meets s) ↔ ¬ r.Splits s ∧ ¬ s.Splits r := by
  have hr : r.Splits s → ¬ r.Meets s := fun h ⟨a, ha, _⟩ => h.notMem a ha
  have hs : s.Splits r → ¬ r.Meets s := fun h ⟨a, _, ha⟩ => h.notMem a ha
  rw [overlaps_iff_meets]
  constructor
  · intro h
    exact ⟨fun hsplits => hr hsplits (h.1 (.inr (.inl hsplits))),
      fun hsplits => hs hsplits (h.1 (.inr (.inr hsplits)))⟩
  · rintro ⟨hr, hs⟩
    simp only [hr, hs, or_false]

/-- **What the operations say about addresses.**  Two regions overlap exactly if they share an address or one
of them splits the other; if they share one, then also inside the address space.  One lies within the other
exactly if both end inside the address space and the bounds of the first are between those of the second;
its addresses are then addresses of the second, and it lies within any third in which the second lies.  Two
bounds make a region exactly if they are in order; it has the addresses from the first up to the second,
where it ends. -/
theorem operations_exact (r s t : Region) (first last : UInt32) :
    (r.overlaps s = true ↔ r.Meets s ∨ r.Splits s ∨ s.Splits r) ∧
    ((r.overlaps s = true ↔ r.Meets s) ↔ ¬ r.Splits s ∧ ¬ s.Splits r) ∧
    (r.Meets s ↔ ∃ a : UInt32, a.toNat ∈ r ∧ a.toNat ∈ s) ∧
    r.overlaps s = s.overlaps r ∧
    (r.isWithin s = true ↔ r.limit < addressLimit ∧ s.limit < addressLimit ∧ r.Inside s) ∧
    (r.isWithin s = true → ∀ a ∈ r, a ∈ s) ∧
    (r.isWithin s = true → s.isWithin t = true → r.isWithin t = true) ∧
    ((∃ q, ofBounds? first last = some q) ↔ first < last) ∧
    ∀ q, ofBounds? first last = some q →
      (∀ a, a ∈ q ↔ first.toNat ≤ a ∧ a < last.toNat) ∧ q.end? = some last := by
  refine ⟨overlaps_iff_meets, overlaps_exact, meets_iff_word, overlaps_comm r s, isWithin_iff, ?_, ?_, ?_, ?_⟩
  · exact fun h _ => (inside_of_isWithin h).mem
  · intro hrs hst
    obtain ⟨hr, -, hrs⟩ := isWithin_iff.1 hrs
    obtain ⟨-, ht, hst⟩ := isWithin_iff.1 hst
    exact isWithin_iff.2 ⟨hr, ht, hrs.trans hst⟩
  · exact ⟨fun ⟨_, hq⟩ => (ofBounds?_eq_some.1 hq).1, fun h => ⟨_, ofBounds?_eq_some.2 ⟨h, rfl⟩⟩⟩
  · intro q hq
    have hlimit := limit_ofBounds? hq
    exact ⟨fun _ => mem_ofBounds? hq, end?_eq_some.2 ⟨hlimit ▸ last.toNat_lt, hlimit.symm⟩⟩

/-- An empty region overlaps one that it splits, and they share no address. -/
theorem split_overlaps : (⟨2, 0⟩ : Region).overlaps ⟨0, 4⟩ = true ∧
    ¬ ∃ a : Nat, a ∈ (⟨2, 0⟩ : Region) ∧ a ∈ (⟨0, 4⟩ : Region) := by
  have hsplits : (⟨2, 0⟩ : Region).Splits ⟨0, 4⟩ := by decide
  exact ⟨overlaps_iff_meets.2 (.inr (.inl hsplits)), fun ⟨a, ha, _⟩ => hsplits.notMem a ha⟩

end PlatformGuard.Region
