import PlatformGuard.Proofs.CommandTables
import PlatformGuard.Proofs.Simulation
import Mathlib.Logic.Function.Basic

/-!
# Command tables as maps

A table that was empty once, and was changed by edits only, is a map from safe opcodes to what they are
allowed (`Represents`): every command of the map stands in one slot, where it belongs, and all other slots
are empty.  An edit of the table and the edit of the map fail alike or lead to a table and a map that are
related again, so the same holds after every run.

A table from elsewhere need not be a map.  There only the first slot that holds a command speaks for it
(`FirstSpeaks`), and removing the command says nothing about the slots behind.
-/

namespace PlatformGuard.Filter

/-! ### Maps of commands -/

/-- How a command is allowed. -/
structure Allowance where
  validity : Validity
  locked : Bool
  deriving DecidableEq, Repr

namespace Allowance

def lock (a : Allowance) : Allowance := { a with locked := true }

/-- The word of a command that is allowed so. -/
def word (a : Allowance) (c : Command) : UInt32 :=
  if a.locked then c.validWord a.validity ||| lockBit else c.validWord a.validity

end Allowance

/-- Safe commands that are allowed, each in its way, and whether everything was locked. -/
@[ext]
structure CommandMap where
  allowance? : UInt8 → Option Allowance
  closed : Bool
  safe : ∀ opcode a, allowance? opcode = some a → ∃ c ∈ safeCommands, c.opcode = opcode
  closed_locked : closed = true → ∀ opcode a, allowance? opcode = some a → a.locked = true

namespace CommandMap

/-- The map that allows nothing. -/
def empty : CommandMap := ⟨fun _ => none, false, nofun, nofun⟩

variable (m : CommandMap) (opcode : UInt8)

def contains : Bool := (m.allowance? opcode).isSome

def isLocked : Bool := (m.allowance? opcode).any Allowance.locked

/-- The map with another allowance, or none, for an opcode. -/
def set (a? : Option Allowance) (hs : ∀ a, a? = some a → ∃ c ∈ safeCommands, c.opcode = opcode)
    (hl : m.closed = true → ∀ a, a? = some a → a.locked = true) : CommandMap where
  allowance? := Function.update m.allowance? opcode a?
  closed := m.closed
  safe code a := by
    by_cases h : code = opcode
    · subst h
      simpa using hs a
    · simpa [h] using m.safe code a
  closed_locked hc code a := by
    by_cases h : code = opcode
    · subst h
      simpa using hl hc a
    · simpa [h] using m.closed_locked hc code a

theorem set_eq_self (h : m.allowance? opcode = none) : m.set opcode none nofun nofun = m :=
  CommandMap.ext (Function.update_eq_self_iff.2 h.symm) rfl

/-- Allows a safe command, unless it or everything is locked. -/
def add (v : Validity) : Except Error CommandMap :=
  if hs : ∃ c ∈ safeCommands, c.opcode = opcode then
    if hl : m.closed = true ∨ m.isLocked opcode = true then .error .locked
    else .ok (m.set opcode (some ⟨v, false⟩) (fun _ _ => hs) fun hc => absurd (.inl hc) hl)
  else .error (.commandNotAllowed opcode)

/-- Takes a command out, unless it is locked. -/
def remove : Except Error CommandMap :=
  if m.isLocked opcode then .error .locked else .ok (m.set opcode none nofun nofun)

/-- Locks a command, if there is such a one. -/
def lock : Except Error CommandMap :=
  if m.contains opcode then
    .ok (m.set opcode ((m.allowance? opcode).map Allowance.lock)
      (fun a ha => by
        obtain ⟨b, hb, -⟩ := Option.map_eq_some_iff.1 ha
        exact m.safe opcode b hb)
      fun _ a ha => by
        obtain ⟨b, -, rfl⟩ := Option.map_eq_some_iff.1 ha
        rfl)
  else .error .notPresent

/-- Locks everything. -/
def lockAll : CommandMap where
  allowance? code := (m.allowance? code).map Allowance.lock
  closed := true
  safe code a ha := by
    obtain ⟨b, hb, -⟩ := Option.map_eq_some_iff.1 ha
    exact m.safe code b hb
  closed_locked _ code a ha := by
    obtain ⟨b, -, rfl⟩ := Option.map_eq_some_iff.1 ha
    rfl

def edit : Edit → Except Error CommandMap
  | .add opcode validity => m.add opcode validity
  | .remove opcode => m.remove opcode
  | .lock opcode => m.lock opcode
  | .lockAll => .ok m.lockAll

/-- The map after an edit; an edit that fails leaves it. -/
def after (e : Edit) : CommandMap := (m.edit e).toOption.getD m

/-- The map after some edits. -/
def run (es : List Edit) : CommandMap := es.foldl after m

/-- The word of a slot that no command of the map has. -/
def blank : UInt32 := if m.closed then lockBit else 0

end CommandMap

/-! ### Tables that are maps -/

/-- Whether a slot is one for an opcode. -/
def Belongs (opcode : UInt8) (i : Fin slotCount) : Prop :=
  if opcode = enterFourByte then i.val = 0
  else if opcode = leaveFourByte then i.val = 1
  else firstGenericSlot ≤ i.val

/-- A table holds the commands of a map and nothing else. -/
structure CommandTable.Represents (t : CommandTable) (m : CommandMap) : Prop where
  /-- Every command of the map stands in one slot, which is one for it. -/
  placed : ∀ c ∈ safeCommands, ∀ a, m.allowance? c.opcode = some a → ∃ i, Belongs c.opcode i ∧
    t.words.get i = a.word c ∧ ∀ j, holds c.opcode (t.words.get j) = true → j = i
  /-- All other slots are empty. -/
  others : ∀ i, t.words.get i = m.blank ∨
    ∃ c ∈ safeCommands, ∃ a, m.allowance? c.opcode = some a ∧ t.words.get i = a.word c

/-! ### Words of a map -/

section words
variable {c : Command} {a : Allowance} {m : CommandMap}

theorem holds_word (hc : c ∈ safeCommands) (a : Allowance) (opcode : UInt8) :
    holds opcode (a.word c) = true ↔ c.opcode = opcode := by
  unfold Allowance.word
  split
  · rw [holds_lock, holds_validWord hc]
  · rw [holds_validWord hc]

theorem isLockedWord_word (hc : c ∈ safeCommands) (a : Allowance) :
    isLockedWord (a.word c) = a.locked := by
  unfold Allowance.word
  cases a.locked with
  | true =>
    rw [if_pos rfl, isLockedWord, Bits.or_and_cancel]
    rfl
  | false => exact (validWord_safe hc a.validity).2.2.1

theorem word_lock (a : Allowance) (c : Command) : a.word c ||| lockBit = a.lock.word c := by
  unfold Allowance.word Allowance.lock
  cases a.locked with
  | true => simp [Bits.or_or_cancel]
  | false => simp

theorem not_holds_blank (m : CommandMap) (opcode : UInt8) : holds opcode m.blank = false := by
  unfold CommandMap.blank
  cases m.closed <;> rfl

theorem isLockedWord_blank (m : CommandMap) : isLockedWord m.blank = m.closed := by
  unfold CommandMap.blank
  cases m.closed <;> rfl

theorem isFreeWord_blank (m : CommandMap) : isFreeWord m.blank = true := by
  unfold CommandMap.blank
  cases m.closed <;> rfl

end words

/-! ### Slots that commands belong to -/

section slots
variable {opcode : UInt8} {i : Fin slotCount}

/-- A slot that is kept for a command is one for that command only. -/
theorem belongs_of_reserved (h : reservedSlot? opcode = some i) (code : UInt8) :
    Belongs code i ↔ code = opcode := by
  unfold reservedSlot? at h
  unfold Belongs
  by_cases hen : opcode = enterFourByte
  · rw [if_pos hen] at h
    cases h
    rw [hen]
    by_cases hcode : code = enterFourByte
    · simp [hcode]
    · simp [hcode, firstGenericSlot]
  · rw [if_neg hen] at h
    by_cases hex : opcode = leaveFourByte
    · rw [if_pos hex] at h
      cases h
      rw [hex]
      by_cases hcode : code = enterFourByte
      · simp [hcode]
        decide
      · simp [hcode, firstGenericSlot]
    · rw [if_neg hex] at h
      cases h

theorem belongs_of_not_reserved (h : reservedSlot? opcode = none) :
    Belongs opcode i ↔ firstGenericSlot ≤ i.val := by
  unfold reservedSlot? at h
  by_cases hen : opcode = enterFourByte
  · simp [hen] at h
  · rw [if_neg hen] at h
    by_cases hex : opcode = leaveFourByte
    · simp [hex] at h
    · simp [Belongs, hen, hex]

end slots

namespace CommandTable

variable {t : CommandTable} {opcode : UInt8} {i j : Fin slotCount}

/-- The first free slot is found if there is one. -/
theorem exists_firstFree? (h : ∃ i : Fin slotCount, firstGenericSlot ≤ i.val ∧
      isFreeWord (t.words.get i) = true) :
    ∃ i, t.firstFree? = some i ∧ firstGenericSlot ≤ i.val ∧ isFreeWord (t.words.get i) = true := by
  unfold firstFree?
  cases hf : (List.finRange slotCount).find? fun i =>
      decide (firstGenericSlot ≤ i.val) && isFreeWord t.words[i] with
  | some i =>
    have hi := List.find?_some hf
    rw [Bool.and_eq_true, decide_eq_true_eq] at hi
    exact ⟨i, rfl, hi⟩
  | none =>
    obtain ⟨i, hle, hfree⟩ := h
    have hi := List.find?_eq_none.1 hf i (List.mem_finRange i)
    rw [Bool.and_eq_true, decide_eq_true_eq] at hi
    exact absurd ⟨hle, hfree⟩ hi

/-! ### Slots of a table that is a map -/

namespace Represents

variable {m m' : CommandMap} {c : Command} {a : Allowance}

/-- What a slot holds is a command of the map. -/
theorem of_holds (h : Represents t m) (hi : holds opcode (t.words.get i) = true) :
    ∃ c ∈ safeCommands, c.opcode = opcode ∧ ∃ a, m.allowance? opcode = some a ∧
      t.words.get i = a.word c := by
  rcases h.others i with hblank | ⟨c, hc, a, ha, hw⟩
  · rw [hblank, not_holds_blank] at hi
    cases hi
  · rw [hw, holds_word hc] at hi
    subst hi
    exact ⟨c, hc, rfl, a, ha, hw⟩

/-- No command stands in two slots. -/
theorem slot_unique (h : Represents t m) (hi : holds opcode (t.words.get i) = true)
    (hj : holds opcode (t.words.get j) = true) : i = j := by
  obtain ⟨c, hc, rfl, a, ha, -⟩ := h.of_holds hi
  obtain ⟨k, -, -, huniq⟩ := h.placed c hc a ha
  rw [huniq i hi, huniq j hj]

theorem belongs (h : Represents t m) (hi : holds opcode (t.words.get i) = true) :
    Belongs opcode i := by
  obtain ⟨c, hc, rfl, a, ha, -⟩ := h.of_holds hi
  obtain ⟨k, hk, -, huniq⟩ := h.placed c hc a ha
  rw [huniq i hi]
  exact hk

/-- A slot that holds nothing is empty. -/
theorem eq_blank (h : Represents t m) (hi : ∀ opcode, holds opcode (t.words.get i) = false) :
    t.words.get i = m.blank := by
  rcases h.others i with hblank | ⟨c, hc, a, -, hw⟩
  · exact hblank
  · have hholds := hi c.opcode
    rw [hw, (holds_word hc a c.opcode).2 rfl] at hholds
    cases hholds

/-- A command of the map is found where it stands. -/
theorem find?_of_some (h : Represents t m) (ha : m.allowance? opcode = some a) :
    ∃ c ∈ safeCommands, c.opcode = opcode ∧ ∃ i, t.find? opcode = some i ∧
      t.words.get i = a.word c ∧ holds opcode (t.words.get i) = true := by
  obtain ⟨c, hc, rfl⟩ := m.safe opcode a ha
  obtain ⟨i, -, hw, huniq⟩ := h.placed c hc a ha
  have hi : holds c.opcode (t.words.get i) = true := by rw [hw, holds_word hc]
  refine ⟨c, hc, rfl, i, find?_eq_some.2 ⟨hi, fun j hj => ?_⟩, hw, hi⟩
  cases hholds : holds c.opcode (t.words.get j) with
  | true => exact absurd (huniq j hholds) (Fin.ne_of_lt hj)
  | false => rfl

theorem find?_of_none (h : Represents t m) (ha : m.allowance? opcode = none) :
    (∀ j, holds opcode (t.words.get j) = false) ∧ t.find? opcode = none := by
  have hnone : ∀ j, holds opcode (t.words.get j) = false := by
    intro j
    cases hholds : holds opcode (t.words.get j) with
    | true =>
      obtain ⟨c, -, -, a, ha', -⟩ := h.of_holds hholds
      rw [ha] at ha'
      cases ha'
    | false => rfl
  exact ⟨hnone, find?_eq_none.2 hnone⟩

/-! ### Queries -/

/-- The slot that a command has, or may get, takes another word: the map changes at the command. -/
theorem write {w : UInt32} (h : Represents t m)
    (hother : ∀ code, holds code (t.words.get i) = true → code = opcode)
    (hsole : ∀ j, holds opcode (t.words.get j) = true → j = i)
    (hsame : ∀ code, code ≠ opcode → m'.allowance? code = m.allowance? code)
    (hblank : m'.blank = m.blank)
    (hw : (m'.allowance? opcode = none ∧ w = m.blank) ∨ ∃ c ∈ safeCommands, c.opcode = opcode ∧
      ∃ a, m'.allowance? opcode = some a ∧ w = a.word c ∧ Belongs opcode i) :
    Represents (t.setWord i w) m' := by
  refine ⟨fun c hc a ha => ?_, fun j => ?_⟩
  · simp only [get_setWord]
    by_cases hcode : c.opcode = opcode
    · subst hcode
      obtain ⟨hnone, -⟩ | ⟨d, hd, hcode, b, hb, rfl, hbelongs⟩ := hw
      · rw [hnone] at ha
        cases ha
      · obtain rfl : d = c := safe_ext hd hc hcode
        obtain rfl : b = a := Option.some.inj (hb.symm.trans ha)
        refine ⟨i, hbelongs, if_pos rfl, fun j hj => ?_⟩
        by_cases hji : j = i
        · exact hji
        · rw [if_neg hji] at hj
          exact hsole j hj
    · rw [hsame _ hcode] at ha
      obtain ⟨k, hbelongs, hk, huniq⟩ := h.placed c hc a ha
      have hki : k ≠ i := by
        rintro rfl
        exact hcode (hother _ (by rw [hk, holds_word hc]))
      refine ⟨k, hbelongs, by rw [if_neg hki, hk], fun j hj => ?_⟩
      by_cases hji : j = i
      · -- the new word does not hold another command
        rw [if_pos hji] at hj
        obtain ⟨-, rfl⟩ | ⟨d, hd, rfl, b, -, rfl, -⟩ := hw
        · rw [not_holds_blank] at hj
          cases hj
        · rw [holds_word hd] at hj
          exact absurd hj.symm hcode
      · rw [if_neg hji] at hj
        exact huniq j hj
  · rw [get_setWord, hblank]
    by_cases hji : j = i
    · rw [if_pos hji]
      obtain ⟨-, rfl⟩ | ⟨d, hd, rfl, b, hb, rfl, -⟩ := hw
      · exact .inl rfl
      · exact .inr ⟨d, hd, b, hb, rfl⟩
    · rw [if_neg hji]
      rcases h.others j with hj | ⟨c, hc, a, ha, hj⟩
      · exact .inl hj
      · have hcode : c.opcode ≠ opcode := by
          rintro rfl
          exact hji (hsole j (by rw [hj, holds_word hc]))
        exact .inr ⟨c, hc, a, (hsame _ hcode).trans ha, hj⟩

/-! ### Slots for new commands -/

/-- There are more slots than safe commands, so one of them is free. -/
theorem exists_free (h : Represents t m) :
    ∃ i : Fin slotCount, firstGenericSlot ≤ i.val ∧ isFreeWord (t.words.get i) = true := by
  by_contra hno
  simp only [not_exists, not_and, Bool.not_eq_true] at hno
  let generic := Finset.univ.filter fun i : Fin slotCount => firstGenericSlot ≤ i.val
  let opcodes := (safeCommands.map Command.opcode).toFinset
  have hheld : ∀ i ∈ generic, ∃ c ∈ safeCommands, holds c.opcode (t.words.get i) = true := by
    intro i hi
    rcases h.others i with hblank | ⟨c, hc, a, -, hw⟩
    · have hfree := hno i (Finset.mem_filter.1 hi).2
      rw [hblank, isFreeWord_blank] at hfree
      cases hfree
    · exact ⟨c, hc, by rw [hw, holds_word hc]⟩
  have hle : generic.card ≤ opcodes.card := by
    refine Finset.card_le_card_of_injOn (fun i => (t.words.get i).toUInt8) (fun i hi => ?_) ?_
    · obtain ⟨c, hc, hholds⟩ := hheld i hi
      simp only [toUInt8_of_holds hholds, opcodes]
      simpa using ⟨c, hc, rfl⟩
    · intro i hi j hj hij
      obtain ⟨c, hc, hholds⟩ := hheld i hi
      obtain ⟨d, hd, hholds'⟩ := hheld j hj
      have hcd : c.opcode = d.opcode := by
        rw [← toUInt8_of_holds hholds, ← toUInt8_of_holds hholds']
        exact hij
      exact h.slot_unique hholds (hcd ▸ hholds')
  have hcommands : opcodes.card ≤ 27 := List.toFinset_card_le _
  have hslots : generic.card = 28 := by decide +kernel
  omega

/-- The slot that a command would go to is empty. -/
theorem exists_newSlot (h : Represents t m) (hnone : ∀ j, holds opcode (t.words.get j) = false) :
    ∃ i, (reservedSlot? opcode <|> t.firstFree?) = some i ∧ Belongs opcode i ∧
      ∀ code, holds code (t.words.get i) = false := by
  cases hr : reservedSlot? opcode with
  | some i =>
    have hbelongs := belongs_of_reserved hr
    refine ⟨i, rfl, (hbelongs opcode).2 rfl, fun code => ?_⟩
    cases hcode : holds code (t.words.get i) with
    | true =>
      obtain rfl : code = opcode := (hbelongs code).1 (h.belongs hcode)
      rw [hnone] at hcode
      cases hcode
    | false => rfl
  | none =>
    obtain ⟨i, hi, hle, hfree⟩ := exists_firstFree? h.exists_free
    refine ⟨i, hi, (belongs_of_not_reserved hr).2 hle, fun code => ?_⟩
    simp [holds, hfree]

/-- **Every command has a slot, or can get one.**  It is locked if the command or everything is. -/
theorem slotFor_eq (h : Represents t m) (opcode : UInt8) :
    ∃ i, t.slotFor opcode = .ok i ∧ Belongs opcode i ∧
      (∀ code, holds code (t.words.get i) = true → code = opcode) ∧
      (∀ j, holds opcode (t.words.get j) = true → j = i) ∧
      (isLockedWord (t.words.get i) = true ↔ m.closed = true ∨ m.isLocked opcode = true) := by
  unfold CommandMap.isLocked
  cases ha : m.allowance? opcode with
  | some a =>
    obtain ⟨c, hc, hcode, i, hf, hw, hi⟩ := h.find?_of_some ha
    refine ⟨i, slotFor_of_some hf, h.belongs hi, fun code hcode' => holds_inj hcode' hi,
      fun j hj => h.slot_unique hj hi, ?_⟩
    rw [hw, isLockedWord_word hc, Option.any_some]
    exact ⟨.inr, fun hl => hl.elim (fun hclosed => m.closed_locked hclosed opcode a ha) id⟩
  | none =>
    obtain ⟨hnone, hf⟩ := h.find?_of_none ha
    obtain ⟨i, hi, hbelongs, hempty⟩ := h.exists_newSlot hnone
    refine ⟨i, slotFor_of_none hf hi, hbelongs, fun code hcode => ?_, fun j hj => ?_, ?_⟩
    · rw [hempty] at hcode
      cases hcode
    · rw [hnone] at hj
      cases hj
    · rw [h.eq_blank hempty, isLockedWord_blank]
      simp

/-! ### Edits -/

theorem add (h : Represents t m) (opcode : UInt8) (v : Validity) :
    Agree Represents ((t.add opcode v).map Prod.fst) (m.add opcode v) := by
  unfold CommandMap.add
  by_cases hs : ∃ c ∈ safeCommands, c.opcode = opcode
  · rw [dif_pos hs]
    obtain ⟨i, hslot, hbelongs, hother, hsole, hlocked⟩ := h.slotFor_eq opcode
    obtain ⟨c, hc, rfl⟩ := hs
    by_cases hl : m.closed = true ∨ m.isLocked c.opcode = true
    · rw [dif_pos hl, add_of_locked hc hslot (hlocked.2 hl)]
      exact .error _
    · have hopen : isLockedWord (t.words.get i) = false := by
        rw [← Bool.not_eq_true, hlocked]
        exact hl
      rw [dif_neg hl, add_eq_ok.2 ⟨c, hc, rfl, hslot, hopen, rfl⟩]
      refine .ok (h.write hother hsole (fun code hcode => Function.update_of_ne hcode _ _) rfl
        (.inr ⟨c, hc, rfl, ⟨v, false⟩, ?_, rfl, hbelongs⟩))
      exact Function.update_self _ _ _
  · rw [dif_neg hs, add_of_unsafe fun c hc hcode => hs ⟨c, hc, hcode⟩]
    exact .error _

theorem remove (h : Represents t m) (opcode : UInt8) :
    Agree Represents (t.remove opcode) (m.remove opcode) := by
  unfold CommandMap.remove CommandMap.isLocked
  cases ha : m.allowance? opcode with
  | none =>
    rw [remove_eq_ok.2 (.inl ⟨(h.find?_of_none ha).2, rfl⟩), m.set_eq_self opcode ha]
    exact .ok h
  | some a =>
    obtain ⟨c, hc, -, i, hf, hw, hi⟩ := h.find?_of_some ha
    have hlocked : isLockedWord (t.words.get i) = a.locked := by rw [hw, isLockedWord_word hc]
    rw [Option.any_some]
    cases hl : a.locked with
    | true =>
      rw [remove_of_locked hf (hlocked.trans hl)]
      exact .error _
    | false =>
      -- a command that is open is in a map that is open
      have hclosed : m.closed = false := by
        rw [← Bool.not_eq_true]
        intro hclosed
        rw [m.closed_locked hclosed opcode a ha] at hl
        cases hl
      rw [remove_eq_ok.2 (.inr ⟨i, hf, hlocked.trans hl, rfl⟩)]
      refine .ok (h.write (fun code hcode => holds_inj hcode hi) (fun j hj => h.slot_unique hj hi)
        (fun code hcode => Function.update_of_ne hcode _ _) rfl (.inl ⟨Function.update_self _ _ _, ?_⟩))
      simp [CommandMap.blank, hclosed]

theorem lock (h : Represents t m) (opcode : UInt8) :
    Agree Represents (t.lock opcode) (m.lock opcode) := by
  unfold CommandMap.lock
  by_cases hm : m.contains opcode = true
  · rw [if_pos hm]
    obtain ⟨a, ha⟩ := Option.isSome_iff_exists.1 hm
    obtain ⟨c, hc, hcode, i, hf, hw, hi⟩ := h.find?_of_some ha
    rw [lock_eq_ok.2 ⟨i, hf, rfl⟩]
    refine .ok (h.write (fun code hcode => holds_inj hcode hi) (fun j hj => h.slot_unique hj hi)
      (fun code hcode => Function.update_of_ne hcode _ _) rfl
      (.inr ⟨c, hc, hcode, a.lock, ?_, ?_, h.belongs hi⟩))
    · simp [CommandMap.set, ha]
    · rw [hw, word_lock]
  · rw [if_neg hm]
    have ha : m.allowance? opcode = none := by simpa [CommandMap.contains] using hm
    unfold CommandTable.lock
    rw [(h.find?_of_none ha).2]
    exact .error _

theorem lockAll (h : Represents t m) : Represents t.lockAll m.lockAll := by
  have hget : ∀ i, t.lockAll.words.get i = t.words.get i ||| lockBit := fun i => get_map _ _ i
  have hblank : m.blank ||| lockBit = lockBit := by
    unfold CommandMap.blank
    cases m.closed <;> rfl
  refine ⟨fun c hc b hb => ?_, fun i => ?_⟩
  · obtain ⟨a, ha, rfl⟩ := Option.map_eq_some_iff.1 hb
    obtain ⟨i, hbelongs, hw, huniq⟩ := h.placed c hc a ha
    refine ⟨i, hbelongs, by rw [hget, hw, word_lock], fun j hj => huniq j ?_⟩
    rwa [hget, holds_lock] at hj
  · rw [hget]
    rcases h.others i with hw | ⟨c, hc, a, ha, hw⟩
    · left
      rw [hw, hblank]
      rfl
    · right
      refine ⟨c, hc, a.lock, ?_, by rw [hw, word_lock]⟩
      show (m.allowance? c.opcode).map Allowance.lock = some a.lock
      rw [ha, Option.map_some]

/-- **One edit of a table and of its map.**  Both fail alike, or lead to a table and its map. -/
theorem edit (h : Represents t m) (e : Edit) : Agree Represents (t.edit e) (m.edit e) := by
  cases e with
  | add opcode v => exact h.add opcode v
  | remove opcode => exact h.remove opcode
  | lock opcode => exact h.lock opcode
  | lockAll => exact .ok h.lockAll

/-! ### Runs -/

theorem after (h : Represents t m) (e : Edit) : Represents (t.after e) (m.after e) := by
  unfold CommandTable.after CommandMap.after
  have hedit := h.edit e
  generalize t.edit e = x, m.edit e = y at hedit
  cases hedit with
  | ok hu => exact hu
  | error err => exact h

theorem run (h : Represents t m) (es : List Edit) : Represents (t.run es) (m.run es) := by
  induction es generalizing t m with
  | nil => exact h
  | cons e es ih => exact ih (h.after e)

theorem empty : Represents CommandTable.empty CommandMap.empty := by
  refine ⟨nofun, fun i => .inl ?_⟩
  exact Vector.getElem_replicate i.isLt

end Represents
end CommandTable

namespace CommandTable

section elsewhere
variable {t u : CommandTable} {opcode : UInt8}

/-- No slot lets a command pass behind one that holds it. -/
def FirstSpeaks (t : CommandTable) (opcode : UInt8) : Prop :=
  ∀ i j : Fin slotCount, j < i → holds opcode (t.words.get j) = true → ¬Enables (t.words.get i) opcode

instance (w : UInt32) : Decidable (Enables w opcode) :=
  inferInstanceAs (Decidable (holds opcode w = true ∧ isValidWord w = true))

instance : Decidable (t.FirstSpeaks opcode) :=
  inferInstanceAs (Decidable (∀ i j : Fin slotCount,
    j < i → holds opcode (t.words.get j) = true → ¬Enables (t.words.get i) opcode))

/-- A command is reported if the first slot that holds it lets it pass. -/
theorem contains_iff : t.contains opcode = true ↔ ∃ i, Enables (t.words.get i) opcode ∧
    ∀ j < i, holds opcode (t.words.get j) = false := by
  unfold contains
  rw [Option.any_eq_true]
  constructor
  · rintro ⟨i, hf, hvalid⟩
    obtain ⟨hholds, hbefore⟩ := find?_eq_some.1 hf
    exact ⟨i, ⟨hholds, hvalid⟩, hbefore⟩
  · rintro ⟨i, ⟨hholds, hvalid⟩, hbefore⟩
    exact ⟨i, find?_eq_some.2 ⟨hholds, hbefore⟩, hvalid⟩

theorem FirstSpeaks.contains_iff (h : t.FirstSpeaks opcode) :
    t.contains opcode = true ↔ ∃ i, Enables (t.words.get i) opcode := by
  rw [CommandTable.contains_iff]
  refine exists_congr fun i => and_iff_left_of_imp fun hi j hj => ?_
  rw [← Bool.not_eq_true]
  intro hholds
  exact h i j hj hholds hi

/-- Removing a command empties the first slot that holds it, and no other. -/
theorem enables_remove (h : t.remove opcode = .ok u) (i : Fin slotCount) :
    Enables (u.words.get i) opcode ↔
      Enables (t.words.get i) opcode ∧ ∃ j < i, holds opcode (t.words.get j) = true := by
  obtain ⟨hf, rfl⟩ | ⟨k, hf, -, rfl⟩ := remove_eq_ok.1 h
  · rw [find?_eq_none] at hf
    simp [Enables, hf]
  · obtain ⟨hk, hbefore⟩ := find?_eq_some.1 hf
    rw [get_setWord]
    by_cases hik : i = k
    · subst hik
      rw [if_pos rfl]
      constructor
      · rintro ⟨-, hvalid⟩
        cases hvalid
      · rintro ⟨-, j, hj, hholds⟩
        rw [hbefore j hj] at hholds
        cases hholds
    · rw [if_neg hik]
      refine ⟨fun hi => ⟨hi, k, ?_, hk⟩, And.left⟩
      rcases Nat.lt_trichotomy i.val k.val with hlt | heq | hgt
      · rw [Enables, hbefore i hlt] at hi
        cases hi.1
      · exact absurd (Fin.ext heq) hik
      · exact hgt

/-- A command that is removed does not pass any more just if the first slot spoke for it. -/
theorem revoked_iff (h : t.remove opcode = .ok u) :
    (u.contains opcode = false ∧ ∀ i, ¬Enables (u.words.get i) opcode) ↔ t.FirstSpeaks opcode := by
  have hall : (∀ i, ¬Enables (u.words.get i) opcode) ↔ t.FirstSpeaks opcode := by
    simp only [enables_remove h, not_and, not_exists]
    exact ⟨fun hu i j hj hholds hi => hu i hi j hj hholds,
      fun ht i hi j hj hholds => ht i j hj hholds hi⟩
  rw [← hall]
  refine and_iff_right_of_imp fun hu => ?_
  rw [← Bool.not_eq_true, contains_iff]
  rintro ⟨i, hi, -⟩
  exact hu i hi

theorem Represents.firstSpeaks {m : CommandMap} (h : Represents t m) (opcode : UInt8) :
    t.FirstSpeaks opcode := by
  intro i j hj hholds hi
  obtain rfl : i = j := h.slot_unique hi.1 hholds
  exact Nat.lt_irrefl _ hj

/-- **What removing a command revokes.**  A table reports a command if the first slot that holds it lets it
pass, and removing it clears that slot alone.  If the first slot speaks for the command, it is reported just
if it passes; and a command that is removed is gone just if the first slot spoke for it.  In a table that
was empty once, the first slot speaks for every command. -/
theorem remove_revokes (t : CommandTable) (opcode : UInt8) :
    (t.contains opcode = true ↔ ∃ i, Enables (t.words.get i) opcode ∧
      ∀ j < i, holds opcode (t.words.get j) = false) ∧
    (t.FirstSpeaks opcode → (t.contains opcode = true ↔ ∃ i, Enables (t.words.get i) opcode)) ∧
    (∀ u, t.remove opcode = .ok u →
      (∀ i, Enables (u.words.get i) opcode ↔
        Enables (t.words.get i) opcode ∧ ∃ j < i, holds opcode (t.words.get j) = true) ∧
      ((u.contains opcode = false ∧ ∀ i, ¬Enables (u.words.get i) opcode) ↔ t.FirstSpeaks opcode)) ∧
    ∀ es, (CommandTable.empty.run es).FirstSpeaks opcode :=
  ⟨contains_iff, FirstSpeaks.contains_iff, fun _ hu => ⟨enables_remove hu, revoked_iff hu⟩,
    fun es => (Represents.empty.run es).firstSpeaks opcode⟩

end elsewhere

/-- The used read and one of the two behind it are removed, and the last one is left. -/
theorem staleTable_revoked :
    let t := staleTable.run [.remove 0x03, .remove 0x03]
    t.FirstSpeaks 0x03 ∧ (t.contains 0x03 = true ↔ ∃ i, Enables (t.words.get i) 0x03) ∧
      ∃ u, t.remove 0x03 = .ok u ∧ u.contains 0x03 = false ∧ ∀ i, ¬Enables (u.words.get i) 0x03 := by
  intro t
  have hfirst : t.FirstSpeaks 0x03 := by decide +kernel
  have hremove : t.remove 0x03 = .ok (t.setWord ⟨6, by decide⟩ 0) := by decide +kernel
  obtain ⟨-, hcontains, hrevoked, -⟩ := remove_revokes t 0x03
  exact ⟨hfirst, hcontains hfirst, _, hremove, (hrevoked _ hremove).2.2 hfirst⟩

/-- **A used word hides a valid one.**  A read is not reported while it passes, and once the used word is
removed it is reported, and passes still. -/
theorem staleTable_unrevoked :
    (staleTable.contains 0x03 = false ∧ Enables (staleTable.words.get ⟨5, by decide⟩) 0x03) ∧
      ∃ u, staleTable.remove 0x03 = .ok u ∧ u.contains 0x03 = true ∧
        Enables (u.words.get ⟨5, by decide⟩) 0x03 := by
  have hremove : staleTable.remove 0x03 = .ok (staleTable.setWord ⟨4, by decide⟩ 0) := by
    decide +kernel
  exact ⟨by decide +kernel, _, hremove, by decide +kernel, by decide +kernel⟩

end CommandTable

end PlatformGuard.Filter
