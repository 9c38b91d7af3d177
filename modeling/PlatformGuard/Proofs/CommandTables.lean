import PlatformGuard.Proofs.Policies
import Mathlib.Data.Finset.Card
import Mathlib.Data.Fintype.Basic

/-!
# Editing command tables

A table that is read back from hardware may hold anything: a command in several slots, words that are no
longer valid, locked empty slots, commands off the safe list.  What an edit does to such a table is said
for one word at a time (`Rewrites`), whichever slot the edit hits: a locked word stays, and a word that
changes is locked, cleared or replaced by a safe one.  What holds of a whole run follows by induction.
-/

namespace PlatformGuard.Filter

/-! ### Words of safe commands -/

/-- The word of a command in a slot that is not locked. -/
def Command.validWord (c : Command) (v : Validity) : UInt32 := c.word ||| v.bit

/-- What the word of a safe command says. -/
theorem validWord_safe {c : Command} (hc : c ∈ safeCommands) (v : Validity) :
    isFreeWord (c.validWord v) = false ∧ c.validWord v &&& 0xff = c.opcode.toUInt32 ∧
      isLockedWord (c.validWord v) = false ∧ c.validWord v &&& (validOnceBit ||| validBit) = v.bit := by
  have hall : ∀ c ∈ safeCommands, ∀ v ∈ [Validity.always, Validity.once],
      isFreeWord (c.validWord v) = false ∧ c.validWord v &&& 0xff = c.opcode.toUInt32 ∧
      isLockedWord (c.validWord v) = false ∧
      c.validWord v &&& (validOnceBit ||| validBit) = v.bit := by decide +kernel
  exact hall c hc v (by cases v <;> simp)

/-- Safe commands are known by their opcodes. -/
theorem safe_ext {c d : Command} (hc : c ∈ safeCommands) (hd : d ∈ safeCommands)
    (h : c.opcode = d.opcode) : c = d := by
  have hall : ∀ c ∈ safeCommands, ∀ d ∈ safeCommands, c.opcode = d.opcode → c = d := by decide +kernel
  exact hall c hc d hd h

theorem safeWord?_eq_some {opcode : UInt8} {w : UInt32} :
    safeWord? opcode = some w ↔ ∃ c ∈ safeCommands, c.opcode = opcode ∧ c.word = w := by
  unfold safeWord?
  rw [Option.map_eq_some_iff]
  constructor
  · rintro ⟨c, hc, hw⟩
    exact ⟨c, List.mem_of_find?_eq_some hc, by simpa using List.find?_some hc, hw⟩
  · rintro ⟨c, hc, rfl, hw⟩
    cases hf : safeCommands.find? fun d => d.opcode == c.opcode with
    | none =>
      have := List.find?_eq_none.1 hf c hc
      simp at this
    | some d =>
      have hd : d.opcode = c.opcode := by simpa using List.find?_some hf
      exact ⟨d, rfl, safe_ext (List.mem_of_find?_eq_some hf) hc hd ▸ hw⟩

theorem safeWord?_eq_none {opcode : UInt8} :
    safeWord? opcode = none ↔ ∀ c ∈ safeCommands, c.opcode ≠ opcode := by
  simp [safeWord?]

/-! ### Opcodes and locks of a word -/

theorem and_byte_eq {opcode : UInt8} {w : UInt32} :
    w &&& 0xff = opcode.toUInt32 ↔ w.toUInt8 = opcode := by
  rw [← UInt32.toNat_inj, ← UInt8.toNat_inj]
  have h : w.toNat &&& 255 = w.toNat % 2 ^ 8 := Nat.and_two_pow_sub_one_eq_mod w.toNat 8
  simp [h]

theorem holds_lock (opcode : UInt8) (w : UInt32) : holds opcode (w ||| lockBit) = holds opcode w := by
  rw [Bool.eq_iff_iff, holds_iff, holds_iff, unlocked_or_lockBit]

theorem isValidWord_lock (w : UInt32) : isValidWord (w ||| lockBit) = isValidWord w := by
  rw [isValidWord_eq, isValidWord_eq, unlocked_or_lockBit]

/-- A word that holds something holds the opcode in its lowest byte. -/
theorem toUInt8_of_holds {opcode : UInt8} {w : UInt32} (h : holds opcode w = true) :
    w.toUInt8 = opcode := by
  rw [holds_iff, unlocked_and (by decide)] at h
  exact and_byte_eq.1 h.2

/-- A word holds one opcode at most. -/
theorem holds_inj {code opcode : UInt8} {w : UInt32} (h : holds code w = true)
    (h' : holds opcode w = true) : code = opcode := by
  rw [← toUInt8_of_holds h, toUInt8_of_holds h']

theorem holds_validWord {c : Command} (hc : c ∈ safeCommands) (v : Validity) (opcode : UInt8) :
    holds opcode (c.validWord v) = true ↔ c.opcode = opcode := by
  obtain ⟨hfree, hcode, -, -⟩ := validWord_safe hc v
  simp only [holds, hfree, hcode, Bool.not_false, Bool.true_and, beq_iff_eq]
  rw [← hcode, and_byte_eq, ← and_byte_eq.1 hcode]

/-- A valid word enables the opcode in its lowest byte. -/
theorem enables_iff {opcode : UInt8} {w : UInt32} :
    Enables w opcode ↔ isValidWord w = true ∧ w.toUInt8 = opcode := by
  constructor
  · rintro ⟨hholds, hvalid⟩
    exact ⟨hvalid, toUInt8_of_holds hholds⟩
  · rintro ⟨hvalid, hcode⟩
    refine ⟨holds_iff.2 ⟨fun hzero => ?_, ?_⟩, hvalid⟩
    · rw [isValidWord_eq, hzero] at hvalid
      exact absurd hvalid (by decide)
    · rw [unlocked_and (by decide)]
      exact and_byte_eq.2 hcode

theorem or_lockBit_of_locked {w : UInt32} (h : isLockedWord w = true) : w ||| lockBit = w := by
  have hbit : lockBit.toBitVec = BitVec.twoPow 32 23 := by decide
  have hw : w.toBitVec.getLsbD 23 = true := by
    cases hb : w.toBitVec.getLsbD 23 with
    | true => rfl
    | false =>
      have hzero : w &&& lockBit = 0 := by
        rw [← UInt32.toBitVec_inj, UInt32.toBitVec_and, hbit, BitVec.and_twoPow, hb]
        rfl
      simp [isLockedWord, hzero] at h
  rw [← UInt32.toBitVec_inj, UInt32.toBitVec_or, hbit]
  ext j hj
  rw [BitVec.getElem_or, BitVec.getElem_twoPow]
  by_cases hj' : j = 23
  · subst hj'
    simpa using hw
  · simp [hj']

/-! ### The slot of a command -/

namespace CommandTable

variable {t u : CommandTable} {opcode : UInt8} {i : Fin slotCount}

/-- The table with another word in a slot. -/
def setWord (t : CommandTable) (i : Fin slotCount) (w : UInt32) : CommandTable :=
  ⟨t.words.set i.val w i.isLt⟩

theorem get_setWord (t : CommandTable) (i j : Fin slotCount) (w : UInt32) :
    (t.setWord i w).words.get j = if j = i then w else t.words.get j := by
  show (t.words.set i.val w i.isLt)[j.val] = _
  rw [Vector.getElem_set]
  simp only [eq_comm (a := i.val), Fin.val_inj]
  rfl

theorem get_map (words : CommandWords) (f : UInt32 → UInt32) (i : Fin slotCount) :
    (words.map f).get i = f (words.get i) := Vector.getElem_map f i.isLt

/-- The slot of a command is the first that holds it. -/
theorem find?_eq_some : t.find? opcode = some i ↔
    holds opcode (t.words.get i) = true ∧ ∀ j < i, holds opcode (t.words.get j) = false := by
  unfold find?
  rw [List.find?_eq_some_iff_getElem]
  refine and_congr_right fun _ => ⟨?_, fun h => ?_⟩
  · rintro ⟨k, hk, rfl, hbefore⟩ j hj
    have hlt : j.val < k := by simpa [Fin.lt_def] using hj
    have := hbefore j.val hlt
    rw [List.getElem_finRange, Bool.not_eq_true'] at this
    exact this
  · refine ⟨i.val, by simp, by simp, fun j hj => ?_⟩
    rw [List.getElem_finRange, Bool.not_eq_true']
    exact h ⟨j, Nat.lt_trans hj i.isLt⟩ hj

theorem find?_eq_none : t.find? opcode = none ↔ ∀ i, holds opcode (t.words.get i) = false := by
  unfold find?
  rw [List.find?_eq_none]
  simp only [List.mem_finRange, true_imp_iff, Bool.not_eq_true]
  rfl

theorem slotFor_of_some (hf : t.find? opcode = some i) : t.slotFor opcode = .ok i := by
  unfold slotFor
  simp [hf]

/-- A command that stands nowhere gets the slot that is kept for it, or the first free one. -/
theorem slotFor_of_none (hf : t.find? opcode = none)
    (hi : (reservedSlot? opcode <|> t.firstFree?) = some i) : t.slotFor opcode = .ok i := by
  unfold slotFor
  simp [hf, hi]

/-! ### Calls that succeed -/

theorem put_eq (t : CommandTable) (i : Fin slotCount) (w : UInt32) :
    t.put i w = if isLockedWord (t.words.get i) then .error .locked else .ok (t.setWord i w) := rfl

theorem put_eq_ok {w : UInt32} :
    t.put i w = .ok u ↔ isLockedWord (t.words.get i) = false ∧ u = t.setWord i w := by
  rw [put_eq]
  cases isLockedWord (t.words.get i) with
  | true => simp
  | false => simp [eq_comm]

theorem add_of_unsafe {v : Validity} (h : ∀ c ∈ safeCommands, c.opcode ≠ opcode) :
    t.add opcode v = .error (.commandNotAllowed opcode) := by
  unfold add
  rw [safeWord?_eq_none.2 h]
  rfl

theorem add_of_locked {c : Command} {v : Validity} (hc : c ∈ safeCommands)
    (hslot : t.slotFor c.opcode = .ok i) (hl : isLockedWord (t.words.get i) = true) :
    t.add c.opcode v = .error .locked := by
  unfold add
  rw [safeWord?_eq_some.2 ⟨c, hc, rfl, rfl⟩]
  simp [hslot, put_eq, hl, bind, Except.bind]

/-- A command is added if it is safe and its slot is not locked. -/
theorem add_eq_ok {v : Validity} : t.add opcode v = .ok (u, i) ↔
    ∃ c ∈ safeCommands, c.opcode = opcode ∧ t.slotFor opcode = .ok i ∧
      isLockedWord (t.words.get i) = false ∧ u = t.setWord i (c.validWord v) := by
  unfold add
  cases hw : safeWord? opcode with
  | none =>
    rw [safeWord?_eq_none] at hw
    constructor
    · intro h
      cases h
    · rintro ⟨c, hc, hcode, -⟩
      exact absurd hcode (hw c hc)
  | some w =>
    obtain ⟨c, hc, hcode, rfl⟩ := safeWord?_eq_some.1 hw
    simp only [Steps.exceptBind_eq_ok]
    constructor
    · rintro ⟨j, hslot, s, hput, h⟩
      cases h
      exact ⟨c, hc, hcode, hslot, put_eq_ok.1 hput⟩
    · rintro ⟨d, hd, hcode', hslot, hput⟩
      obtain rfl : c = d := safe_ext hc hd (hcode.trans hcode'.symm)
      exact ⟨i, hslot, u, put_eq_ok.2 hput, rfl⟩

/-- Removing a command empties its slot, if it has one. -/
theorem remove_eq_ok : t.remove opcode = .ok u ↔
    (t.find? opcode = none ∧ u = t) ∨ ∃ i, t.find? opcode = some i ∧
      isLockedWord (t.words.get i) = false ∧ u = t.setWord i 0 := by
  unfold remove
  cases hf : t.find? opcode with
  | none =>
    simp only [Except.ok.injEq, true_and, reduceCtorEq, false_and, exists_false, or_false]
    exact eq_comm
  | some i => simp [put_eq_ok]

theorem remove_of_locked (hf : t.find? opcode = some i) (hl : isLockedWord (t.words.get i) = true) :
    t.remove opcode = .error .locked := by
  unfold remove
  simp [hf, put_eq, hl]

theorem lock_eq_ok : t.lock opcode = .ok u ↔
    ∃ i, t.find? opcode = some i ∧ u = t.setWord i (t.words.get i ||| lockBit) := by
  unfold lock
  cases hf : t.find? opcode with
  | none => simp
  | some i =>
    simp only [Option.some.injEq, exists_eq_left', Except.ok.injEq, eq_comm (b := u)]
    rfl

end CommandTable

/-! ### Edits -/

/-- What changes a command table. -/
inductive Edit where
  | add (opcode : UInt8) (validity : Validity)
  | remove (opcode : UInt8)
  | lock (opcode : UInt8)
  | lockAll

namespace CommandTable

/-- The table that an edit makes, if it succeeds. -/
def edit (t : CommandTable) : Edit → Except Error CommandTable
  | .add opcode validity => (t.add opcode validity).map Prod.fst
  | .remove opcode => t.remove opcode
  | .lock opcode => t.lock opcode
  | .lockAll => .ok t.lockAll

/-- The table after an edit; an edit that fails leaves it. -/
def after (t : CommandTable) (e : Edit) : CommandTable := (t.edit e).toOption.getD t

/-- The table after some edits. -/
def run (t : CommandTable) (es : List Edit) : CommandTable := es.foldl after t

/-- What an edit may do to a word. -/
inductive Rewrites (w : UInt32) : UInt32 → Prop where
  | kept : Rewrites w w
  | locked : Rewrites w (w ||| lockBit)
  | cleared (hopen : isLockedWord w = false) : Rewrites w 0
  | allowed {c : Command} (hc : c ∈ safeCommands) (v : Validity) (hopen : isLockedWord w = false) :
    Rewrites w (c.validWord v)

/-- **One edit, one word.** -/
theorem after_rewrites (t : CommandTable) (e : Edit) (i : Fin slotCount) :
    Rewrites (t.words.get i) ((t.after e).words.get i) := by
  have hset : ∀ {j : Fin slotCount} {w : UInt32}, Rewrites (t.words.get j) w →
      Rewrites (t.words.get i) ((t.setWord j w).words.get i) := by
    intro j w hw
    rw [get_setWord]
    by_cases hij : i = j
    · rw [if_pos hij, hij]
      exact hw
    · rw [if_neg hij]
      exact .kept
  unfold after
  cases he : t.edit e with
  | error err => exact .kept
  | ok u =>
    cases e with
    | add opcode v =>
      obtain ⟨⟨u, j⟩, hadd, rfl⟩ := Steps.map_eq_ok.1 he
      obtain ⟨c, hc, -, -, hopen, rfl⟩ := add_eq_ok.1 hadd
      exact hset (.allowed hc v hopen)
    | remove opcode =>
      obtain ⟨-, rfl⟩ | ⟨j, -, hopen, rfl⟩ := remove_eq_ok.1 he
      · exact .kept
      · exact hset (.cleared hopen)
    | lock opcode =>
      obtain ⟨j, -, rfl⟩ := lock_eq_ok.1 he
      exact hset .locked
    | lockAll =>
      cases he
      show Rewrites _ ((t.words.map (· ||| lockBit)).get i)
      rw [get_map]
      exact .locked

namespace Rewrites

variable {w w' : UInt32}

theorem eq_of_locked (h : Rewrites w w') (hw : isLockedWord w = true) : w' = w := by
  cases h with
  | kept => rfl
  | locked => exact or_lockBit_of_locked hw
  | cleared hopen => simp [hw] at hopen
  | allowed hc v hopen => simp [hw] at hopen

/-- A word that changes is locked, cleared, or allows a safe command in one way. -/
theorem changed (h : Rewrites w w') (hne : w' ≠ w) :
    w' = w ||| lockBit ∨ w' = 0 ∨ ∃ c ∈ safeCommands, ∃ v : Validity,
      w' = c.word ||| v.bit ∧ w' &&& (validOnceBit ||| validBit) = v.bit := by
  cases h with
  | kept => exact absurd rfl hne
  | locked => exact .inl rfl
  | cleared => exact .inr (.inl rfl)
  | allowed hc v => exact .inr (.inr ⟨_, hc, v, rfl, (validWord_safe hc v).2.2.2⟩)

end Rewrites

/-! ### Commands off the safe list -/

/-- Whether a word enables a command that is not safe. -/
def isForeignWord (w : UInt32) : Bool := isValidWord w && (safeWord? w.toUInt8).isNone

theorem isForeignWord_iff {w : UInt32} : isForeignWord w = true ↔
    ∃ opcode, Enables w opcode ∧ ∀ c ∈ safeCommands, c.opcode ≠ opcode := by
  simp [isForeignWord, enables_iff, safeWord?_eq_none]

/-- The slots that enable a command off the safe list. -/
def foreignSlots (t : CommandTable) : Finset (Fin slotCount) :=
  Finset.univ.filter fun i => isForeignWord (t.words.get i) = true

/-- No word comes to enable a command that is not safe. -/
theorem Rewrites.isForeignWord {w w' : UInt32} (h : Rewrites w w') (hw : isForeignWord w' = true) :
    isForeignWord w = true := by
  rw [isForeignWord_iff] at hw ⊢
  obtain ⟨opcode, ⟨hholds, hvalid⟩, hnot⟩ := hw
  cases h with
  | kept => exact ⟨opcode, ⟨hholds, hvalid⟩, hnot⟩
  | locked =>
    rw [holds_lock] at hholds
    rw [isValidWord_lock] at hvalid
    exact ⟨opcode, ⟨hholds, hvalid⟩, hnot⟩
  | cleared => cases hvalid
  | allowed hc v => exact absurd ((holds_validWord hc v opcode).1 hholds) (hnot _ hc)

/-! ### Runs -/

variable (t : CommandTable) (es : List Edit)

theorem run_of_locked {i : Fin slotCount} (h : isLockedWord (t.words.get i) = true) :
    (t.run es).words.get i = t.words.get i := by
  induction es generalizing t with
  | nil => rfl
  | cons e es ih =>
    have heq := (after_rewrites t e i).eq_of_locked h
    exact (ih (t.after e) (by rw [heq]; exact h)).trans heq

theorem foreignSlots_run : (t.run es).foreignSlots ⊆ t.foreignSlots := by
  induction es generalizing t with
  | nil => exact Finset.Subset.refl _
  | cons e es ih =>
    refine Finset.Subset.trans (ih (t.after e)) fun i hi => ?_
    simp only [foreignSlots, Finset.mem_filter, Finset.mem_univ, true_and] at hi ⊢
    exact (after_rewrites t e i).isForeignWord hi

/-- **Locks and the safe list hold for any table.**  In whatever state a table is, a locked word stays for
good, a word that an edit changes is locked, cleared, or allows a safe command always or once, and no slot
comes to enable a command off the safe list. -/
theorem edits_restrained :
    (∀ i, isLockedWord (t.words.get i) = true → (t.run es).words.get i = t.words.get i) ∧
    (∀ e i, let w := (t.run es).words.get i
      let w' := ((t.run es).after e).words.get i
      w' ≠ w → w' = w ||| lockBit ∨ w' = 0 ∨ ∃ c ∈ safeCommands, ∃ v : Validity,
        w' = c.word ||| v.bit ∧ w' &&& (validOnceBit ||| validBit) = v.bit) ∧
    (t.run es).foreignSlots ⊆ t.foreignSlots ∧
      (t.run es).foreignSlots.card ≤ t.foreignSlots.card := by
  have hforeign := foreignSlots_run t es
  exact ⟨fun i => run_of_locked t es, fun e i => (after_rewrites (t.run es) e i).changed, hforeign,
    Finset.card_le_card hforeign⟩

/-- A table as it may be read back.  Chip erase stands in two slots, one of them locked; a read that was
used up stands in front of two that are valid; and an empty slot is locked. -/
def staleTable : CommandTable where
  words := Vector.ofFn fun i =>
    match i.val with
    | 2 => 0xc7 ||| validBit
    | 3 => 0xc7 ||| validBit ||| lockBit
    | 4 => 0x03
    | 5 | 6 => 0x03 ||| validBit
    | 7 => lockBit
    | _ => 0

/-- Chip erase is removed from the slot that is open, and the used read is allowed once more. -/
def staleEdits : List Edit := [.remove 0xc7, .remove 0xc7, .add 0x03 .once]

theorem staleTable_restrained :
    let u := staleTable.run staleEdits
    let w := u.words.get ⟨4, by decide⟩
    let w' := (u.after (.lock 0x03)).words.get ⟨4, by decide⟩
    (isLockedWord (staleTable.words.get ⟨3, by decide⟩) = true ∧
      u.words.get ⟨3, by decide⟩ = staleTable.words.get ⟨3, by decide⟩) ∧
    (w' ≠ w ∧ (w' = w ||| lockBit ∨ w' = 0 ∨ ∃ c ∈ safeCommands, ∃ v : Validity,
      w' = c.word ||| v.bit ∧ w' &&& (validOnceBit ||| validBit) = v.bit)) ∧
    u.foreignSlots.card ≤ staleTable.foreignSlots.card := by
  intro u w w'
  obtain ⟨hlocked, hchanged, -, hcard⟩ := edits_restrained staleTable staleEdits
  have h3 : isLockedWord (staleTable.words.get ⟨3, by decide⟩) = true := by decide +kernel
  have h4 : w' ≠ w := by decide +kernel
  exact ⟨⟨h3, hlocked _ h3⟩, ⟨h4, hchanged (.lock 0x03) ⟨4, by decide⟩ h4⟩, hcard⟩

end CommandTable
end PlatformGuard.Filter
