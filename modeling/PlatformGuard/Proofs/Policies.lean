import PlatformGuard.Filter.Policy
import PlatformGuard.Proofs.Ranges

/-!
# What a policy allows

A policy that was derived from a manifest grants the addresses of the version's regions, allows the
commands of the safe list, and gives the slots of its bus to the devices of the manifest's rules.
-/

namespace PlatformGuard

/-! ### Passlists -/

namespace Manifest.SmbusRule

/-- The bit of the passlist that an offset asks for. -/
theorem permits_eq (r : SmbusRule) (offset : UInt8) :
    r.permits offset = (r.passlist.getD (offset.toNat / 8) 0).toNat.testBit (offset.toNat % 8) := by
  unfold permits
  generalize r.passlist.getD (offset.toNat / 8) 0 = x
  have hbit : ((x >>> (offset % 8)) &&& 1).toNat = 1 &&& (x.toNat >>> (offset.toNat % 8)) := by
    rw [UInt8.toNat_and, UInt8.toNat_shiftRight, Nat.and_comm, UInt8.toNat_mod]
    simp
  rw [Nat.testBit, ← hbit]
  cases h : ((x >>> (offset % 8)) &&& 1) != 0 with
  | true => simpa [← UInt8.toNat_inj] using h
  | false => simpa [← UInt8.toNat_inj] using h

/-- The words of a rule permit what its passlist permits. -/
theorem permits_words (r : SmbusRule) (offset : UInt8) :
    Filter.Bitmap.permits ⟨r.words⟩ offset = r.permits offset := by
  have ho := offset.toNat_lt
  have hk : offset.toNat / Bits.wordSize < 8 := by
    unfold Bits.wordSize
    omega
  unfold Filter.Bitmap.permits Bits.testIn
  rw [Vector.getElem?_eq_getElem hk]
  simp only [words, Vector.getElem_ofFn, Bits.test]
  generalize hbs : (r.passlist.drop (4 * (offset.toNat / Bits.wordSize))).take 4 = bs
  have hlt : Bytes.toNatLE bs < 2 ^ 32 := by
    refine Nat.lt_of_lt_of_le (Bytes.toNatLE_lt bs) ?_
    have hl : bs.length ≤ 4 := hbs ▸ List.length_take_le 4 _
    exact Nat.pow_le_pow_right (by decide) hl
  -- the byte of the word is the byte of the passlist
  have hbyte : bs.getD (offset.toNat % Bits.wordSize / 8) 0 = r.passlist.getD (offset.toNat / 8) 0 := by
    unfold Bits.wordSize at hbs ⊢
    have hi : 4 * (offset.toNat / 32) + offset.toNat % 32 / 8 = offset.toNat / 8 := by omega
    rw [List.getD_eq_getElem?_getD, ← hbs, List.getElem?_take_of_lt (by omega), List.getElem?_drop, hi,
      List.getD_eq_getElem?_getD]
  have hbit : offset.toNat % Bits.wordSize % 8 = offset.toNat % 8 := by
    unfold Bits.wordSize
    omega
  rw [UInt32.toNat_ofNat_of_lt' hlt, Bits.testBit_toNatLE, hbyte, hbit, permits_eq]

end Manifest.SmbusRule

/-! ### Selected versions -/

namespace Manifest

/-- The first entry of a list with a property. -/
def IsFirst {α : Type} (p : α → Prop) (as : List α) (a : α) : Prop :=
  ∃ before after, as = before ++ a :: after ∧ p a ∧ ∀ b ∈ before, ¬p b

theorem find?_eq_some_iff {α : Type} {q : α → Bool} {p : α → Prop} (hq : ∀ a, q a = true ↔ p a) {as : List α}
    {a : α} : as.find? q = some a ↔ IsFirst p as a := by
  rw [List.find?_eq_some_iff_append]
  constructor
  · rintro ⟨ha, before, after, has, hbefore⟩
    refine ⟨before, after, has, (hq a).1 ha, fun b hb hp => ?_⟩
    have hb' := hbefore b hb
    rw [(hq b).2 hp] at hb'
    cases hb'
  · rintro ⟨before, after, has, ha, hbefore⟩
    refine ⟨(hq a).2 ha, before, after, has, fun b hb => ?_⟩
    rw [Bool.not_eq_true', Bool.eq_false_iff]
    exact fun h => hbefore b hb ((hq b).1 h)

/-- The versions of a firmware component: those of the first component with the id, or all versions of a
manifest that knows no components. -/
inductive Offers (m : Manifest) : Option Bytes → List Version → Prop
  | legacy {id : Option Bytes} {versions : List Version} : m.body = .legacy versions → Offers m id versions
  | component {id : Bytes} {blank : UInt8} {firmware : List Firmware} {rules : List SmbusRule}
      {f : Firmware} : m.body = .v2 blank firmware rules →
        IsFirst (fun f => f.id = some id) firmware f → Offers m (some id) f.versions

/-- The first version of the component with the name. -/
def Selects (m : Manifest) (id : Option Bytes) (name : Bytes) (v : Version) : Prop :=
  ∃ versions, m.Offers id versions ∧ IsFirst (fun w => w.version = name) versions v

variable {m : Manifest} {id : Option Bytes} {name : Bytes} {v : Version} {versions : List Version}

theorem offers_iff : m.Offers id versions ↔ ∃ f, m.findFirmware id = .ok f ∧ f.versions = versions := by
  unfold findFirmware
  constructor
  · rintro (hbody | ⟨hbody, hfirst⟩)
    · rw [hbody]
      exact ⟨_, rfl, rfl⟩
    · rw [hbody]
      dsimp only
      rw [(find?_eq_some_iff fun f => beq_iff_eq).2 hfirst]
      exact ⟨_, rfl, rfl⟩
  · rintro ⟨f, hfind, rfl⟩
    split at hfind
    case h_1 hbody =>
      cases hfind
      exact .legacy hbody
    case h_2 => cases hfind
    case h_3 hbody =>
      split at hfind
      case h_1 hf =>
        cases hfind
        exact .component hbody ((find?_eq_some_iff fun f => beq_iff_eq).1 hf)
      case h_2 => cases hfind

theorem Firmware.findVersion_eq_ok {f : Firmware} :
    f.findVersion name = .ok v ↔ IsFirst (fun w => w.version = name) f.versions v := by
  have hfirst : f.versions.find? (fun w => w.version == name) = some v ↔
      IsFirst (fun w => w.version = name) f.versions v := find?_eq_some_iff fun w => beq_iff_eq
  rw [← hfirst]
  unfold Firmware.findVersion
  cases f.versions.find? fun w => w.version == name with
  | none => exact ⟨nofun, nofun⟩
  | some w =>
    exact ⟨fun h => congrArg some (Except.ok.inj h), fun h => congrArg Except.ok (Option.some.inj h)⟩

theorem findVersion_eq_ok : m.findVersion id name = .ok v ↔ m.Selects id name v := by
  unfold findVersion Selects
  simp only [Steps.exceptBind_eq_ok, Firmware.findVersion_eq_ok, offers_iff]
  constructor
  · rintro ⟨f, hf, hv⟩
    exact ⟨_, ⟨f, hf, rfl⟩, hv⟩
  · rintro ⟨_, ⟨f, hf, rfl⟩, hv⟩
    exact ⟨f, hf, hv⟩

end Manifest

namespace Filter

/-! ### Privileges -/

namespace Privileges

theorem allowRead_ok {p q : Privileges} {r : Region} (h : p.allowRead r = .ok q) :
    q.writable = p.writable ∧ ∀ a, a ∈ q.readable ↔ a ∈ p.readable ∨ a ∈ r := by
  obtain ⟨s, hs, rfl⟩ := Steps.map_eq_ok.1 h
  exact ⟨rfl, RangeSet.mem_insert hs⟩

theorem allowWrite_ok {p q : Privileges} {r : Region} (h : p.allowWrite r = .ok q) :
    q.readable = p.readable ∧ ∀ a, a ∈ q.writable ↔ a ∈ p.writable ∨ a ∈ r := by
  obtain ⟨s, hs, rfl⟩ := Steps.map_eq_ok.1 h
  exact ⟨rfl, RangeSet.mem_insert hs⟩

/-- Allowing regions one after the other allows them all. -/
theorem foldlM_allowRead_ok {rs : List Region} {p q : Privileges}
    (h : rs.foldlM allowRead p = .ok q) :
    q.writable = p.writable ∧ ∀ a, a ∈ q.readable ↔ a ∈ p.readable ∨ ∃ r ∈ rs, a ∈ r := by
  induction rs generalizing p with
  | nil =>
    cases h
    simp
  | cons r rs ih =>
    rw [List.foldlM_cons] at h
    obtain ⟨p', hp, h⟩ := Steps.exceptBind_eq_ok.1 h
    obtain ⟨hw, hr⟩ := allowRead_ok hp
    obtain ⟨hw', hr'⟩ := ih h
    refine ⟨hw'.trans hw, fun a => ?_⟩
    simp only [hr', hr, List.mem_cons, exists_eq_or_imp, or_assoc]

end Privileges

namespace Policy

open Manifest (RwRegion Version)

/-- Allows a region that the host may write. -/
def allowRw (p : Privileges) (r : RwRegion) : Except Error Privileges := do
  let p ← p.allowWrite r.region
  p.allowRead r.region

theorem foldlM_allowRw_ok {rs : List RwRegion} {p q : Privileges} (h : rs.foldlM allowRw p = .ok q) :
    (∀ a, a ∈ q.writable ↔ a ∈ p.writable ∨ ∃ r ∈ rs, a ∈ r.region) ∧
      ∀ a, a ∈ q.readable ↔ a ∈ p.readable ∨ ∃ r ∈ rs, a ∈ r.region := by
  induction rs generalizing p with
  | nil =>
    cases h
    simp
  | cons r rs ih =>
    rw [List.foldlM_cons] at h
    obtain ⟨p₂, hp, h⟩ := Steps.exceptBind_eq_ok.1 h
    obtain ⟨p₁, hp₁, hp₂⟩ := Steps.exceptBind_eq_ok.1 hp
    obtain ⟨hr₁, hw₁⟩ := Privileges.allowWrite_ok hp₁
    obtain ⟨hw₂, hr₂⟩ := Privileges.allowRead_ok hp₂
    obtain ⟨hw, hr⟩ := ih h
    rw [hr₁] at hr₂
    rw [← hw₂] at hw₁
    refine ⟨fun a => ?_, fun a => ?_⟩
    · simp only [hw, hw₁, List.mem_cons, exists_eq_or_imp, or_assoc]
    · simp only [hr, hr₂, List.mem_cons, exists_eq_or_imp, or_assoc]

/-- The privileges for a version: its read-write regions may be written, these and the regions of its
images may be read. -/
theorem versionPrivileges_ok {v : Version} {p : Privileges} (h : versionPrivileges v = .ok p) :
    (∀ a, a ∈ p.writable ↔ ∃ r ∈ v.rwRegions, a ∈ r.region) ∧
      ∀ a, a ∈ p.readable ↔ (∃ r ∈ v.rwRegions, a ∈ r.region) ∨
        ∃ i ∈ v.images, ∃ r ∈ i.regions, a ∈ r := by
  obtain ⟨q, hq, h⟩ := Steps.exceptBind_eq_ok.1 h
  obtain ⟨hw, hr⟩ := foldlM_allowRw_ok hq
  obtain ⟨hw', hr'⟩ := Privileges.foldlM_allowRead_ok h
  refine ⟨fun a => ?_, fun a => ?_⟩
  · rw [hw', hw]
    simp [Privileges.none, RangeSet.notMem_empty]
  · rw [hr', hr]
    simp only [Privileges.none, RangeSet.notMem_empty, false_or, List.mem_flatMap]
    constructor
    · rintro (h | ⟨r, ⟨i, hi, hr⟩, ha⟩)
      · exact .inl h
      · exact .inr ⟨i, hi, r, hr, ha⟩
    · rintro (h | ⟨i, hi, r, hr, ha⟩)
      · exact .inl h
      · exact .inr ⟨r, ⟨i, hi, hr⟩, ha⟩

end Policy

/-! ### Commands -/

/-- A word of a command table without its lock. -/
def unlocked (w : UInt32) : UInt32 := w &&& ~~~lockBit

theorem unlocked_or_lockBit (w : UInt32) : unlocked (w ||| lockBit) = unlocked w :=
  Bits.or_and_of_disjoint (by decide) w

theorem unlocked_and {m : UInt32} (h : ~~~lockBit &&& m = m) (w : UInt32) : unlocked w &&& m = w &&& m := by
  rw [unlocked, UInt32.and_assoc, h]

/-- Without regard to locks a table has the safe commands, each in one slot, and nothing else. -/
structure HasSafe (words : CommandWords) : Prop where
  only : ∀ i : Fin slotCount, unlocked (words.get i) ≠ 0 →
    ∃ c ∈ safeCommands, unlocked (words.get i) = c.word ||| validBit
  each : ∀ c ∈ safeCommands, ∃ i : Fin slotCount, unlocked (words.get i) = c.word ||| validBit ∧
    ∀ j : Fin slotCount, unlocked (words.get j) = c.word ||| validBit → j = i

/-- A word lets an opcode pass. -/
def Enables (w : UInt32) (opcode : UInt8) : Prop := holds opcode w = true ∧ isValidWord w = true

/-- What a word holds and whether it is valid do not depend on its lock. -/
theorem holds_iff {opcode : UInt8} {w : UInt32} :
    holds opcode w = true ↔ unlocked w ≠ 0 ∧ unlocked w &&& 0xff = opcode.toUInt32 := by
  rw [unlocked_and (by decide), holds, isFreeWord, Bool.and_eq_true, Bool.not_eq_true', beq_iff_eq,
    beq_eq_false_iff_ne]
  rfl

theorem isValidWord_eq (w : UInt32) :
    isValidWord w = (unlocked w &&& (validOnceBit ||| validBit) != 0) := by
  rw [unlocked_and (by decide), isValidWord]

theorem safe_word {c : Command} (h : c ∈ safeCommands) :
    c.word ||| validBit ≠ 0 ∧ (c.word ||| validBit) &&& 0xff = c.opcode.toUInt32 ∧
      (c.word ||| validBit) &&& (validOnceBit ||| validBit) ≠ 0 := by
  have hall : ∀ c ∈ safeCommands, c.word ||| validBit ≠ 0 ∧
      (c.word ||| validBit) &&& 0xff = c.opcode.toUInt32 ∧
      (c.word ||| validBit) &&& (validOnceBit ||| validBit) ≠ 0 := by decide
  exact hall c h

theorem CommandTable.holds_of_find? {t : CommandTable} {opcode : UInt8} {i : Fin slotCount}
    (h : t.find? opcode = some i) : holds opcode (t.words.get i) = true :=
  List.find?_some (p := fun i : Fin slotCount => holds opcode (t.words.get i)) h

namespace HasSafe

variable {words : CommandWords}

/-- Whatever a slot holds is safe, and valid. -/
theorem valid_of_holds (h : HasSafe words) {opcode : UInt8} {i : Fin slotCount}
    (hi : holds opcode (words.get i) = true) :
    isValidWord (words.get i) = true ∧ ∃ c ∈ safeCommands, c.opcode = opcode := by
  obtain ⟨hne, hop⟩ := holds_iff.1 hi
  obtain ⟨c, hc, hw⟩ := h.only i hne
  obtain ⟨-, hcode, hvalid⟩ := safe_word hc
  rw [hw, hcode] at hop
  refine ⟨?_, c, hc, ?_⟩
  · rw [isValidWord_eq, hw, bne_iff_ne]
    exact hvalid
  · have := congrArg UInt32.toUInt8 hop
    simpa using this

/-- Some slot enables an opcode just if a safe command has it. -/
theorem enables_iff (h : HasSafe words) (opcode : UInt8) :
    (∃ i : Fin slotCount, Enables (words.get i) opcode) ↔ ∃ c ∈ safeCommands, c.opcode = opcode := by
  constructor
  · rintro ⟨i, hi, -⟩
    exact (h.valid_of_holds hi).2
  · rintro ⟨c, hc, rfl⟩
    obtain ⟨hne, hcode, -⟩ := safe_word hc
    obtain ⟨i, hi, -⟩ := h.each c hc
    have hholds : holds c.opcode (words.get i) = true := holds_iff.2 ⟨hi ▸ hne, hi ▸ hcode⟩
    exact ⟨i, hholds, (h.valid_of_holds hholds).1⟩

/-- The table allows an opcode just if a safe command has it. -/
theorem contains_iff (h : HasSafe words) (opcode : UInt8) :
    CommandTable.contains ⟨words⟩ opcode = true ↔ ∃ c ∈ safeCommands, c.opcode = opcode := by
  rw [← h.enables_iff opcode, CommandTable.contains, Option.any_eq_true]
  constructor
  · rintro ⟨i, hi, hv⟩
    exact ⟨i, CommandTable.holds_of_find? hi, hv⟩
  · rintro ⟨i, hi, -⟩
    cases hf : CommandTable.find? ⟨words⟩ opcode with
    | none =>
      have := List.find?_eq_none.1 hf i (List.mem_finRange i)
      exact absurd hi this
    | some j => exact ⟨j, rfl, (h.valid_of_holds (CommandTable.holds_of_find? hf)).1⟩

/-- Locking changes nothing of this. -/
theorem lock (h : HasSafe words) : HasSafe (words.map (· ||| lockBit)) := by
  have hw : ∀ i : Fin slotCount,
      unlocked ((words.map (· ||| lockBit)).get i) = unlocked (words.get i) := by
    intro i
    have hget : (words.map (· ||| lockBit)).get i = words.get i ||| lockBit :=
      Vector.getElem_map (· ||| lockBit) i.isLt
    rw [hget, unlocked_or_lockBit]
  refine ⟨fun i hi => ?_, fun c hc => ?_⟩
  · rw [hw] at hi ⊢
    exact h.only i hi
  · obtain ⟨i, hi, huniq⟩ := h.each c hc
    exact ⟨i, (hw i).trans hi, fun j hj => huniq j ((hw j).symm.trans hj)⟩

end HasSafe

/-- The table that every policy has. -/
theorem hasSafe_safeTable {t : CommandTable} (h : Policy.safeTable = .ok t) : HasSafe t.words := by
  have hall : (match Policy.safeTable with
      | .ok t => decide ((∀ i : Fin slotCount, unlocked (t.words.get i) ≠ 0 →
          ∃ c ∈ safeCommands, unlocked (t.words.get i) = c.word ||| validBit) ∧
          ∀ c ∈ safeCommands, ∃ i : Fin slotCount, unlocked (t.words.get i) = c.word ||| validBit ∧
            ∀ j : Fin slotCount, unlocked (t.words.get j) = c.word ||| validBit → j = i)
      | .error _ => false) = true := by decide +kernel
  rw [h] at hall
  obtain ⟨honly, heach⟩ := of_decide_eq_true hall
  exact ⟨honly, heach⟩

/-! ### Slots of a bus -/

namespace Policy

open Manifest (SmbusRule)

/-- A slot stands for one of the rules for its bus. -/
def SlotOf (bus : UInt8) (rules : List SmbusRule) (s : Slot) : Prop :=
  ∃ r ∈ rules, r.bus = bus ∧ s.device = r.device >>> 1 ∧ s.bitmap = ⟨r.words⟩

/-- A device is taken if another slot has it. -/
theorem isTaken_iff {p : BusPolicy} {index : Nat} {device : UInt8} :
    p.isTaken index device = true ↔
      ∃ (i : Fin busSlots) (s : Slot), i.val ≠ index ∧ p.slots.get i = some s ∧ s.device = device := by
  unfold BusPolicy.isTaken
  rw [List.any_eq_true]
  refine exists_congr fun i => ?_
  change (i ∈ List.finRange busSlots ∧
    (i.val != index && (p.slots.get i).any fun s => s.device == device) = true) ↔ _
  simp only [List.mem_finRange, true_and, Bool.and_eq_true, bne_iff_ne, Option.any_eq_true, beq_iff_eq,
    exists_and_left]

/-- A slot is bound if it exists and no other slot has the device. -/
theorem bind_eq_ok {p q : BusPolicy} {index : Nat} {device : UInt8} {bitmap : Bitmap}
    (h : p.bind index device bitmap = .ok q) :
    index < busSlots ∧ q.bus = p.bus ∧
      (∀ (i : Fin busSlots) (s : Slot), i.val ≠ index → p.slots.get i = some s → s.device ≠ device) ∧
      ∀ i : Fin busSlots, q.slots.get i = if i.val = index then some ⟨device, bitmap⟩ else p.slots.get i := by
  unfold BusPolicy.bind at h
  split at h
  · rename_i hindex
    split at h
    · rename_i hfree
      cases h
      refine ⟨hindex, rfl, fun i s hi hs hdevice => ?_, fun i => ?_⟩
      · rw [isTaken_iff.2 ⟨i, s, hi, hs, hdevice⟩] at hfree
        simp at hfree
      · change (p.slots.set index (some ⟨device, bitmap⟩) hindex)[i.val] = _
        rw [Vector.getElem_set]
        simp only [eq_comm (a := index)]
        rfl
    · cases h
  · cases h

/-- Binding a slot puts nothing else into the policy. -/
theorem bind_ok {p q : BusPolicy} {index : Nat} {device : UInt8} {bitmap : Bitmap}
    (h : p.bind index device bitmap = .ok q) :
    q.bus = p.bus ∧ ∀ s, some s ∈ q.slots → some s ∈ p.slots ∨ s = ⟨device, bitmap⟩ := by
  obtain ⟨-, hbus, -, hslots⟩ := bind_eq_ok h
  refine ⟨hbus, fun s hs => ?_⟩
  obtain ⟨i, hi, hs⟩ := Vector.mem_iff_getElem.1 hs
  have hslot : some s = if i = index then some ⟨device, bitmap⟩ else p.slots.get ⟨i, hi⟩ :=
    hs.symm.trans (hslots ⟨i, hi⟩)
  by_cases hindex : i = index
  · rw [if_pos hindex] at hslot
    exact .inr (Option.some.inj hslot)
  · rw [if_neg hindex] at hslot
    exact .inl (Vector.mem_iff_getElem.2 ⟨i, hi, hslot.symm⟩)

theorem foldlM_bind_ok {bus : UInt8} {all rules : List SmbusRule} {p q : BusPolicy}
    (hsub : ∀ r ∈ rules, r ∈ all ∧ r.bus = bus)
    (hp : p.bus = bus ∧ ∀ s, some s ∈ p.slots → SlotOf bus all s)
    (h : rules.foldlM (fun (p : BusPolicy) (r : SmbusRule) =>
      p.bind r.rule.toNat (r.device >>> 1) ⟨r.words⟩) p = .ok q) :
    q.bus = bus ∧ ∀ s, some s ∈ q.slots → SlotOf bus all s := by
  induction rules generalizing p with
  | nil =>
    cases h
    exact hp
  | cons r rules ih =>
    rw [List.foldlM_cons] at h
    obtain ⟨p', hp', h⟩ := Steps.exceptBind_eq_ok.1 h
    obtain ⟨hbus, hslots⟩ := bind_ok hp'
    refine ih (fun r' hr' => hsub r' (List.mem_cons_of_mem r hr')) ⟨hbus.trans hp.1, ?_⟩ h
    intro s hs
    rcases hslots s hs with hs | rfl
    · exact hp.2 s hs
    · obtain ⟨hmem, hb⟩ := hsub r List.mem_cons_self
      exact ⟨r, hmem, hb, rfl, rfl⟩

/-- Every slot stands for a rule. -/
theorem ruleSlots_ok {bus : UInt8} {rules : List SmbusRule} {p : BusPolicy}
    (h : ruleSlots bus rules = .ok p) :
    p.bus = bus ∧ ∀ s, some s ∈ p.slots → SlotOf bus rules s := by
  refine foldlM_bind_ok (fun r hr => ?_) ⟨rfl, fun s hs => ?_⟩ h
  · simpa using hr
  · have := Vector.eq_of_mem_replicate hs
    cases this

/-! ### Whole policies -/

theorem ofManifest_ok {m : Manifest} {firmware : Option Bytes} {version : Bytes} {t : Target}
    {p : Policy} (h : ofManifest m firmware version t = .ok p) :
    p.spi.device = t.spiDevice ∧ safeTable = .ok p.spi.commands ∧
      (∃ v, m.findVersion firmware version = .ok v ∧ versionPrivileges v = .ok p.spi.privileges) ∧
      ruleSlots t.i2cBus m.smbusRules = .ok p.i2c := by
  obtain ⟨v, hv, h⟩ := Steps.exceptBind_eq_ok.1 h
  obtain ⟨commands, hcommands, h⟩ := Steps.exceptBind_eq_ok.1 h
  obtain ⟨privileges, hprivileges, h⟩ := Steps.exceptBind_eq_ok.1 h
  obtain ⟨i2c, hi2c, h⟩ := Steps.exceptBind_eq_ok.1 h
  cases h
  exact ⟨rfl, hcommands, ⟨v, Steps.mapError_eq_ok.1 hv, hprivileges⟩, hi2c⟩

theorem synthesize_ok {δ : Type} [Hardware δ] {m : Manifest} {firmware : Option Bytes}
    {version : Bytes} {t : Target} {d d' : δ} {p : Policy}
    (h : synthesize m firmware version t d = (.ok p, d')) : ofManifest m firmware version t = .ok p := by
  obtain ⟨spi, d₁, -, h⟩ := Steps.bind_eq_ok.1 h
  cases spi with
  | true => cases h
  | false =>
    obtain ⟨i2c, d₂, -, h⟩ := Steps.bind_eq_ok.1 h
    cases i2c with
    | true => cases h
    | false =>
      have h' : (MonadExcept.ofExcept (ofManifest m firmware version t) : ExceptT Error (StateM δ) Policy)
        d₂ = (.ok p, d') := h
      rw [Steps.ofExcept_apply] at h'
      exact (Prod.mk.inj h').1

end Policy

end Filter

end PlatformGuard
