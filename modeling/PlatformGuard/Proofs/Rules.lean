import PlatformGuard.Proofs.Programming
import Mathlib.Data.List.ReduceOption

/-!
# Which rules of a bus are granted

The rules of a bus are bound to its slots one after the other, each to the slot that its number names.  A later
rule with the number of an earlier one takes the slot over, and what the earlier one permitted is lost; two slots
never have the same device, so that nothing else is.  A rule *stands* if no later rule of its bus has its number:
a policy grants exactly what the rules that stand permit.

What one binding does to the slots is said once (`bind_eq_ok`); the slots then represent the rules bound so far
(`Represents`), from one binding to the next.
-/

namespace PlatformGuard.Filter.Policy

open Manifest (SmbusRule)

/-! ### Rules that stand -/

/-- No rule behind `r` has its number. -/
def Stands (rules : List SmbusRule) (r : SmbusRule) : Prop :=
  ∃ front back, rules = front ++ r :: back ∧ ∀ q ∈ back, q.rule ≠ r.rule

/-- The last rule with a number. -/
def standing (rules : List SmbusRule) (number : Nat) : Option SmbusRule :=
  rules.reverse.find? fun r => r.rule.toNat == number

theorem Stands.mem {rules : List SmbusRule} {r : SmbusRule} (h : Stands rules r) : r ∈ rules := by
  obtain ⟨front, back, rfl, -⟩ := h
  exact List.mem_append_right _ List.mem_cons_self

theorem standing_eq_some {rules : List SmbusRule} {number : Nat} {r : SmbusRule} :
    standing rules number = some r ↔ r.rule.toNat = number ∧ Stands rules r := by
  unfold standing
  rw [List.find?_eq_some_iff_append]
  constructor
  · rintro ⟨hr, back, front, hrules, hback⟩
    have hnumber : r.rule.toNat = number := by simpa using hr
    refine ⟨hnumber, front.reverse, back.reverse, ?_, fun q hq he => ?_⟩
    · rw [← List.reverse_reverse rules, hrules]
      simp
    · have hne := hback q (List.mem_reverse.1 hq)
      rw [he, hnumber] at hne
      simp at hne
  · rintro ⟨hnumber, front, back, rfl, hback⟩
    refine ⟨by simpa using hnumber, back.reverse, front.reverse, by simp, fun q hq => ?_⟩
    have hne := hback q (List.mem_reverse.1 hq)
    have hne' : q.rule.toNat ≠ number := fun he => hne (UInt8.toNat_inj.1 (he.trans hnumber.symm))
    simpa using hne'

theorem standing_snoc (rules : List SmbusRule) (r : SmbusRule) (number : Nat) :
    standing (rules ++ [r]) number = if r.rule.toNat = number then some r else standing rules number := by
  unfold standing
  rw [List.reverse_append, List.reverse_singleton, List.singleton_append, List.find?_cons]
  by_cases hn : r.rule.toNat = number
  · rw [if_pos hn, hn, beq_self_eq_true]
  · rw [if_neg hn, beq_false_of_ne hn]

/-- Where no two rules have the same number, all of them stand. -/
theorem stands_of_nodup {rules : List SmbusRule} (h : (rules.map SmbusRule.rule).Nodup) {r : SmbusRule}
    (hr : r ∈ rules) : Stands rules r := by
  obtain ⟨front, back, rfl⟩ := List.append_of_mem hr
  refine ⟨front, back, rfl, fun q hq he => ?_⟩
  rw [List.map_append, List.map_cons, List.nodup_append] at h
  have hnotMem := (List.nodup_cons.1 h.2.1).1
  rw [← he] at hnotMem
  exact hnotMem (List.mem_map_of_mem hq)

/-! ### Slots -/

/-- What a rule puts into its slot. -/
def slotOf (r : SmbusRule) : Slot := ⟨r.device >>> 1, ⟨r.words⟩⟩

/-- The slots of a policy represent rules: each slot has the last rule with its number, every rule has a slot of
its number, and no two slots have the same device. -/
structure Represents (p : BusPolicy) (rules : List SmbusRule) : Prop where
  slots : ∀ i : Fin busSlots, p.slots.get i = (standing rules i.val).map slotOf
  number : ∀ r ∈ rules, r.rule.toNat < busSlots
  device : ∀ (i j : Fin busSlots) (s t : Slot), p.slots.get i = some s → p.slots.get j = some t →
    s.device = t.device → i = j

theorem represents_denyAll (bus : UInt8) : Represents (.denyAll bus) [] := by
  have hslots : ∀ i : Fin busSlots, (BusPolicy.denyAll bus).slots.get i = none := fun i =>
    Vector.getElem_replicate i.isLt
  refine ⟨hslots, nofun, fun i j s t hs => ?_⟩
  rw [hslots] at hs
  cases hs

/-- One more rule is represented by one more binding. -/
theorem Represents.bind {p q : BusPolicy} {rules : List SmbusRule} {r : SmbusRule}
    (hp : Represents p rules) (h : p.bind r.rule.toNat (r.device >>> 1) ⟨r.words⟩ = .ok q) :
    Represents q (rules ++ [r]) := by
  obtain ⟨hindex, -, hfree, hslots⟩ := bind_eq_ok h
  refine ⟨fun i => ?_, fun r' hr' => ?_, fun i j s t hs ht hst => ?_⟩
  · rw [hslots, standing_snoc, hp.slots]
    by_cases hi : i.val = r.rule.toNat
    · rw [if_pos hi, if_pos hi.symm]
      rfl
    · rw [if_neg hi, if_neg (Ne.symm hi)]
  · rcases List.mem_append.1 hr' with hr' | hr'
    · exact hp.number r' hr'
    · rw [List.mem_singleton.1 hr']
      exact hindex
  · -- a clash needs the slot just bound, and that was bound only because no other has its device
    rw [hslots] at hs ht
    by_cases hi : i.val = r.rule.toNat
    · by_cases hj : j.val = r.rule.toNat
      · exact Fin.ext (hi.trans hj.symm)
      · rw [if_pos hi] at hs
        rw [if_neg hj] at ht
        cases hs
        exact absurd hst.symm (hfree j t hj ht)
    · rw [if_neg hi] at hs
      by_cases hj : j.val = r.rule.toNat
      · rw [if_pos hj] at ht
        cases ht
        exact absurd hst (hfree i s hi hs)
      · rw [if_neg hj] at ht
        exact hp.device i j s t hs ht hst

theorem Represents.foldlM_bind {p q : BusPolicy} {front rules : List SmbusRule} (hp : Represents p front)
    (h : rules.foldlM (fun (p : BusPolicy) (r : SmbusRule) =>
      p.bind r.rule.toNat (r.device >>> 1) ⟨r.words⟩) p = .ok q) : Represents q (front ++ rules) := by
  induction rules generalizing p front with
  | nil =>
    cases h
    rwa [List.append_nil]
  | cons r rules ih =>
    rw [List.foldlM_cons] at h
    obtain ⟨p', hp', h⟩ := Steps.exceptBind_eq_ok.1 h
    rw [← List.singleton_append, ← List.append_assoc]
    exact ih (hp.bind hp') h

/-- The rules of one bus. -/
def rulesOf (bus : UInt8) (rules : List SmbusRule) : List SmbusRule := rules.filter fun r => r.bus == bus

theorem represents_ruleSlots {bus : UInt8} {rules : List SmbusRule} {p : BusPolicy}
    (h : ruleSlots bus rules = .ok p) : Represents p (rulesOf bus rules) :=
  (represents_denyAll bus).foldlM_bind h

/-! ### Grants -/

namespace Represents

variable {p : BusPolicy} {rules : List SmbusRule}

/-- A rule that stands has the slot of its number. -/
theorem slot_eq (h : Represents p rules) {r : SmbusRule} (hr : Stands rules r) :
    p.slots.get (⟨r.rule.toNat, h.number r hr.mem⟩ : Fin busSlots) = some (slotOf r) := by
  rw [h.slots, standing_eq_some.2 ⟨rfl, hr⟩]
  rfl

/-- The slots that are bound are those of the rules that stand. -/
theorem mem_slots (h : Represents p rules) {s : Slot} :
    s ∈ p.slots.toList.reduceOption ↔ ∃ r, Stands rules r ∧ slotOf r = s := by
  rw [List.reduceOption_mem_iff, Vector.mem_toList_iff, Vector.mem_iff_getElem]
  constructor
  · rintro ⟨i, hi, hs⟩
    have hslot : (standing rules i).map slotOf = some s := (h.slots ⟨i, hi⟩).symm.trans hs
    obtain ⟨r, hr, hs⟩ := Option.map_eq_some_iff.1 hslot
    exact ⟨r, (standing_eq_some.1 hr).2, hs⟩
  · rintro ⟨r, hr, rfl⟩
    exact ⟨r.rule.toNat, h.number r hr.mem, h.slot_eq hr⟩

/-- Rules that stand have different devices. -/
theorem rule_eq (h : Represents p rules) {r q : SmbusRule} (hr : Stands rules r) (hq : Stands rules q)
    (hd : r.device >>> 1 = q.device >>> 1) : r = q := by
  have hi := h.device _ _ _ _ (h.slot_eq hr) (h.slot_eq hq) hd
  have hnumber : r.rule.toNat = q.rule.toNat := Fin.mk.inj hi
  have hrule := standing_eq_some.2 ⟨hnumber, hr⟩
  rw [standing_eq_some.2 ⟨rfl, hq⟩] at hrule
  exact (Option.some.inj hrule).symm

/-- What the rules that stand permit is granted, and nothing else. -/
theorem permits_iff (h : Represents p rules) (device offset : UInt8) :
    p.permits device offset = true ↔
      ∃ r, Stands rules r ∧ r.device >>> 1 = device ∧ r.permits offset = true := by
  unfold BusPolicy.permits BusPolicy.bitmapFor
  constructor
  · intro hpermits
    split at hpermits
    · rename_i s hs
      obtain ⟨r, hr, rfl⟩ := h.mem_slots.1 (List.mem_of_find?_eq_some hs)
      refine ⟨r, hr, by simpa [slotOf] using List.find?_some hs, ?_⟩
      rw [← r.permits_words]
      exact hpermits
    · rw [show Bitmap.denyAll.permits offset = false from unusedSlot_permits offset] at hpermits
      cases hpermits
  · rintro ⟨r, hr, hd, hoffset⟩
    have hmem := h.mem_slots.2 ⟨r, hr, rfl⟩
    split
    · rename_i s hs
      obtain ⟨q, hq, rfl⟩ := h.mem_slots.1 (List.mem_of_find?_eq_some hs)
      have hdevice : q.device >>> 1 = device := by simpa [slotOf] using List.find?_some hs
      rw [← h.rule_eq hr hq (hd.trans hdevice.symm)]
      exact (r.permits_words offset).trans hoffset
    · rename_i hnone
      have := List.find?_eq_none.1 hnone _ hmem
      exact absurd hd (by simpa [slotOf] using this)

end Represents

/-! ### Refusals -/

/-- After other rules a rule can be bound: its number is that of a slot, and no rule of another slot has its
device. -/
def Bindable (front : List SmbusRule) (r : SmbusRule) : Prop :=
  r.rule.toNat < busSlots ∧
    ∀ q, Stands front q → q.rule ≠ r.rule → q.device >>> 1 ≠ r.device >>> 1

theorem Represents.bind_isOk_iff {p : BusPolicy} {front : List SmbusRule} {r : SmbusRule}
    (hp : Represents p front) :
    (∃ q, p.bind r.rule.toNat (r.device >>> 1) ⟨r.words⟩ = .ok q) ↔ Bindable front r := by
  constructor
  · rintro ⟨q, h⟩
    obtain ⟨hindex, -, hfree, -⟩ := bind_eq_ok h
    exact ⟨hindex, fun q hq hne =>
      hfree _ _ (fun he => hne (UInt8.toNat_inj.1 he)) (hp.slot_eq hq)⟩
  · rintro ⟨hindex, hdevices⟩
    have hdevice : r.device >>> 1 ≤ maxDevice := by
      have hshift : (r.device >>> 1).toNat = r.device.toNat / 2 := UInt8.toNat_shiftRight _ _
      have hlt := r.device.toNat_lt
      refine UInt8.le_iff_toNat_le.2 ?_
      rw [hshift, show maxDevice.toNat = 127 from rfl]
      omega
    have hfree : p.isTaken r.rule.toNat (r.device >>> 1) = false := by
      rw [← Bool.not_eq_true, isTaken_iff]
      rintro ⟨i, s, hi, hs, hd⟩
      rw [hp.slots] at hs
      obtain ⟨q, hq, rfl⟩ := Option.map_eq_some_iff.1 hs
      obtain ⟨hnumber, hstands⟩ := standing_eq_some.1 hq
      exact hdevices q hstands (fun he => hi (hnumber.symm.trans (congrArg UInt8.toNat he))) hd
    unfold BusPolicy.bind
    rw [dif_pos hindex, if_pos ⟨hdevice, by rw [hfree]; rfl⟩]
    exact ⟨_, rfl⟩

theorem Represents.foldlM_isOk_iff {p : BusPolicy} {front rules : List SmbusRule}
    (hp : Represents p front) :
    (∃ q, rules.foldlM (fun (p : BusPolicy) (r : SmbusRule) =>
      p.bind r.rule.toNat (r.device >>> 1) ⟨r.words⟩) p = .ok q) ↔
      ∀ mid r back, rules = mid ++ r :: back → Bindable (front ++ mid) r := by
  induction rules generalizing p front with
  | nil => exact ⟨fun _ mid r back h => by simp at h, fun _ => ⟨p, rfl⟩⟩
  | cons r rules ih =>
    rw [List.foldlM_cons]
    constructor
    · rintro ⟨q, h⟩ mid r' back hsplit
      obtain ⟨p', hp', h⟩ := Steps.exceptBind_eq_ok.1 h
      cases mid with
      | nil =>
        cases hsplit
        rw [List.append_nil]
        exact hp.bind_isOk_iff.1 ⟨p', hp'⟩
      | cons m mid =>
        cases hsplit
        have hrest := (ih (hp.bind hp')).1 ⟨q, h⟩ mid r' back rfl
        rwa [List.append_assoc] at hrest
    · intro h
      have hfirst := h [] r rules rfl
      rw [List.append_nil] at hfirst
      obtain ⟨p', hp'⟩ := hp.bind_isOk_iff.2 hfirst
      obtain ⟨q, hq⟩ := (ih (hp.bind hp')).2 fun mid r' back hsplit => by
        rw [List.append_assoc]
        exact h (r :: mid) r' back (congrArg (r :: ·) hsplit)
      exact ⟨q, Steps.exceptBind_eq_ok.2 ⟨p', hp', hq⟩⟩

/-- Rules get their slots exactly if each can be bound when its turn comes. -/
theorem ruleSlots_isOk_iff {bus : UInt8} {rules : List SmbusRule} :
    (∃ p, ruleSlots bus rules = .ok p) ↔
      ∀ front r back, rulesOf bus rules = front ++ r :: back → Bindable front r :=
  (represents_denyAll bus).foldlM_isOk_iff

/-! ### Derived policies -/

/-- **Rules that stand are granted.**  A policy that was derived from a manifest grants on its bus what the rules
that stand permit, and nothing else; if no two rules of the bus have the same number, no rule is lost.  A rule
whose number is not that of a slot, or whose device another slot has, makes the derivation fail. -/
theorem synthesize_grants {δ : Type} [Hardware δ] {m : Manifest} {firmware : Option Bytes}
    {version : Bytes} {t : Target} {d d' : δ} {p : Policy}
    (h : synthesize m firmware version t d = (.ok p, d')) :
    (∀ device offset, p.i2c.permits device offset = true ↔
      ∃ r, Stands (rulesOf t.i2cBus m.smbusRules) r ∧ r.device >>> 1 = device ∧
        r.permits offset = true) ∧
    (((rulesOf t.i2cBus m.smbusRules).map SmbusRule.rule).Nodup →
      ∀ r ∈ m.smbusRules, r.bus = t.i2cBus → ∀ offset, r.permits offset = true →
        p.i2c.permits (r.device >>> 1) offset = true) ∧
    ∀ front r back, rulesOf t.i2cBus m.smbusRules = front ++ r :: back → Bindable front r := by
  obtain ⟨-, -, -, hslots⟩ := ofManifest_ok (synthesize_ok h)
  have hp := represents_ruleSlots hslots
  refine ⟨hp.permits_iff, fun hnodup r hr hbus offset hoffset => ?_, ruleSlots_isOk_iff.1 ⟨_, hslots⟩⟩
  have hmem : r ∈ rulesOf t.i2cBus m.smbusRules := List.mem_filter.2 ⟨hr, by simpa using hbus⟩
  exact (hp.permits_iff _ _).2 ⟨r, stands_of_nodup hnodup hmem, rfl, hoffset⟩

/-- A manifest whose firmware `f` has a version `v`, and two rules for bus one: number zero permits offset zero
of the device `0x50`, and the given number that of the device `0x58`. -/
def twoRules (number : UInt8) : Bytes :=
  [0x7c, 0x01, 0x6d, 0x70, 0, 0, 0, 0, 0x00, 0x01, 0, 0] ++ [1, 0, 0x41, 0] ++ [0xff, 1, 0, 0] ++
    [1, 1, 0, 0, 0x66, 0, 0, 0] ++ [0, 0, 1, 0, 0, 0, 0, 0, 0x76, 0, 0, 0] ++ [2, 0, 0, 0] ++
    [2, 0, 0, 0, 0, 1, 0, 0xa0, 1] ++ Bytes.zeros 31 ++
    [2, 0, 0, 0, 0, 1, number, 0xb0, 1] ++ Bytes.zeros 31 ++ Bytes.zeros 256

/-- The policy for this version, with the manifest. -/
def derived? (bytes : Bytes) : Option (Manifest × Policy) :=
  match Manifest.parse bytes with
  | .error _ => none
  | .ok m =>
    match synthesize m (some [0x66]) [0x76] ⟨0, 1⟩ SoftFilter.reset with
    | (.error _, _) => none
    | (.ok p, _) => some (m, p)

theorem derived?_eq_some {bytes : Bytes} {m : Manifest} {p : Policy} (h : derived? bytes = some (m, p)) :
    Manifest.parse bytes = .ok m ∧
      ∃ d, synthesize m (some [0x66]) [0x76] ⟨0, 1⟩ SoftFilter.reset = (.ok p, d) := by
  unfold derived? at h
  split at h
  · cases h
  · rename_i hm
    split at h
    · cases h
    · rename_i d hp
      cases h
      exact ⟨hm, d, hp⟩

/-- With two numbers both rules are granted. -/
theorem twoRules_granted : ∃ m p, derived? (twoRules 1) = some (m, p) ∧ m.smbusRules.length = 2 ∧
    ∀ r ∈ m.smbusRules, r.permits 0 = true ∧ p.i2c.permits (r.device >>> 1) 0 = true := by
  have hsome : ((derived? (twoRules 1)).any fun x => decide (x.1.smbusRules.length = 2 ∧
      ((rulesOf 1 x.1.smbusRules).map SmbusRule.rule).Nodup ∧
      ∀ r ∈ x.1.smbusRules, r.bus = 1 ∧ r.permits 0 = true)) = true := by decide +kernel
  obtain ⟨⟨m, p⟩, h, hm⟩ := (Option.any_eq_true _ _).1 hsome
  obtain ⟨hlength, hnodup, hrules⟩ := of_decide_eq_true hm
  obtain ⟨-, d, hp⟩ := derived?_eq_some h
  obtain ⟨-, hgranted, -⟩ := synthesize_grants hp
  exact ⟨m, p, h, hlength, fun r hr => ⟨(hrules r hr).2,
    hgranted hnodup r hr (hrules r hr).1 0 (hrules r hr).2⟩⟩

/-- With one number the first rule is lost, though the policy is derived. -/
theorem twoRules_lost : ∃ m p d, Manifest.parse (twoRules 0) = .ok m ∧
    synthesize m (some [0x66]) [0x76] ⟨0, 1⟩ SoftFilter.reset = (.ok p, d) ∧
    ∃ r ∈ m.smbusRules, r.bus = 1 ∧ r.permits 0 = true ∧ p.i2c.permits (r.device >>> 1) 0 = false := by
  have hsome : ((derived? (twoRules 0)).any fun x => decide (∃ r ∈ x.1.smbusRules,
      r.bus = 1 ∧ r.permits 0 = true ∧ x.2.i2c.permits (r.device >>> 1) 0 = false)) = true := by
    decide +kernel
  obtain ⟨⟨m, p⟩, h, hlost⟩ := (Option.any_eq_true _ _).1 hsome
  obtain ⟨hm, d, hp⟩ := derived?_eq_some h
  exact ⟨m, p, d, hm, hp, of_decide_eq_true hlost⟩

end PlatformGuard.Filter.Policy
