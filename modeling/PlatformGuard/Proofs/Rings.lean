import Mathlib.Data.List.Basic
import PlatformGuard.Filter.Event

/-!
# Rings of slots

An event queue is built over a queue between one producer and one consumer.  `Channel` lists its operations, and
`Channel.Fifo` says what is promised of them: the events come out in the order in which they were put in, and
there is room for one event less than there are slots.

A ring keeps the promise with two indices that wrap around.  It is empty where they are equal, so that one slot
always stays free to tell a full ring from an empty one.  All that has to be known about the wrapping is which
slot lies some steps behind another (`wrap_eq`).
-/

namespace PlatformGuard.Filter

/-! ### Queues between two users -/

/-- A queue of events between one producer and one consumer, with states `κ`. -/
class Channel (κ : Type) where
  /-- An empty queue over so many slots. -/
  new : (slots : Nat) → 2 ≤ slots → κ
  /-- Appends an event, or gives it back. -/
  enqueue : Event → ExceptT Event (StateM κ) Unit
  /-- Takes the oldest event. -/
  dequeue : κ → Option Event × κ
  length : κ → Nat
  /-- Whether the producer can append an event. -/
  hasRoom : κ → Bool
  /-- Whether the consumer can take one. -/
  hasEvent : κ → Bool

/-- The queue behaves as a list of limited length, where `R` relates its states to the limit and the list. -/
structure Channel.Fifo {κ : Type} [Channel κ] (R : κ → Nat → List Event → Prop) : Prop where
  new : ∀ (slots : Nat) (h : 2 ≤ slots), R (Channel.new slots h) (slots - 1) []
  enqueue : ∀ {q room es} (e : Event), R q room es → es.length < room →
    ∃ q', Channel.enqueue e q = (.ok (), q') ∧ R q' room (es ++ [e])
  enqueue_full : ∀ {q room es} (e : Event), R q room es → room ≤ es.length →
    ∃ q', Channel.enqueue e q = (.error e, q') ∧ R q' room es
  dequeue : ∀ {q room e es}, R q room (e :: es) →
    ∃ q', Channel.dequeue q = (some e, q') ∧ R q' room es
  dequeue_empty : ∀ {q room}, R q room [] → ∃ q', Channel.dequeue q = (none, q') ∧ R q' room []
  length : ∀ {q room es}, R q room es → Channel.length q = es.length
  hasRoom : ∀ {q room es}, R q room es → Channel.hasRoom q = decide (es.length < room)
  hasEvent : ∀ {q room es}, R q room es → Channel.hasEvent q = !es.isEmpty

/-! ### Rings -/

/-- Slots in a circle, of which those from `head` up to but not including `tail` are in use.  Nothing is in a
slot that was never written. -/
structure Ring where
  slots : Array (Option Event)
  head : Nat
  tail : Nat
  head_lt : head < slots.size
  tail_lt : tail < slots.size

namespace Ring

/-- The slot behind slot `i`. -/
def next (q : Ring) (i : Nat) : Nat := (i + 1) % q.slots.size

theorem next_lt (q : Ring) (i : Nat) : q.next i < q.slots.size :=
  Nat.mod_lt _ (Nat.zero_lt_of_lt q.head_lt)

def new (slots : Nat) (h : 2 ≤ slots) : Ring where
  slots := Array.replicate slots none
  head := 0
  tail := 0
  head_lt := by simpa using Nat.zero_lt_of_lt h
  tail_lt := by simpa using Nat.zero_lt_of_lt h

/-- The ring with an event in the slot at its tail. -/
def append (q : Ring) (e : Event) : Ring where
  slots := q.slots.set q.tail (some e) q.tail_lt
  head := q.head
  tail := q.next q.tail
  head_lt := by simpa using q.head_lt
  tail_lt := by simpa using q.next_lt q.tail

/-- The ring without the slot at its head, which is not written. -/
def advance (q : Ring) : Ring := { q with head := q.next q.head, head_lt := q.next_lt q.head }

/-- What the slot at the head holds. -/
def front (q : Ring) : Option Event := q.slots[q.head]?.join

instance : Channel Ring where
  new := new
  enqueue e q := if q.next q.tail = q.head then (.error e, q) else (.ok (), q.append e)
  dequeue q := if q.head = q.tail then (none, q) else (q.front, q.advance)
  length q := (q.tail + q.slots.size - q.head) % q.slots.size
  hasRoom q := decide (q.next q.tail ≠ q.head)
  hasEvent q := decide (q.head ≠ q.tail)

/-! ### Wrapping around -/

/-- Less than once around, an index wraps at most once. -/
theorem wrap_eq {head n k : Nat} (hh : head < n) (hk : k ≤ n) :
    (head + k) % n = if head + k < n then head + k else head + k - n := by
  split
  · exact Nat.mod_eq_of_lt ‹_›
  · rw [Nat.mod_eq_sub_mod (by omega), Nat.mod_eq_of_lt (by omega)]

/-- Less than once around, different steps lead to different slots. -/
theorem wrap_ne {head n i k : Nat} (hh : head < n) (hi : i < n) (hk : k < n) (hne : i ≠ k) :
    (head + i) % n ≠ (head + k) % n := by
  rw [wrap_eq hh (by omega), wrap_eq hh (by omega)]
  split <;> split <;> omega

/-- From a slot to one that lies some steps behind it, it is that many steps. -/
theorem steps_wrap {head n k : Nat} (hh : head < n) (hk : k < n) :
    ((head + k) % n + n - head) % n = k := by
  rw [wrap_eq hh (by omega)]
  split
  · rw [show head + k + n - head = k + n by omega, Nat.add_mod_right, Nat.mod_eq_of_lt hk]
  · rw [show head + k - n + n - head = k by omega, Nat.mod_eq_of_lt hk]

/-! ### What a ring holds -/

/-- The slots in use hold these events, from the head on, and at least one slot is free. -/
structure Holds (q : Ring) (room : Nat) (es : List Event) : Prop where
  size_eq : q.slots.size = room + 1
  length_le : es.length ≤ room
  tail_eq : q.tail = (q.head + es.length) % q.slots.size
  slot_eq : ∀ i (hi : i < es.length), q.slots[(q.head + i) % q.slots.size]? = some (some es[i])

variable {q : Ring} {room : Nat} {es : List Event}

theorem holds_new (slots : Nat) (h : 2 ≤ slots) : (new slots h).Holds (slots - 1) [] := by
  refine ⟨?_, Nat.zero_le _, ?_, fun i hi => absurd hi (Nat.not_lt_zero i)⟩
  · simp [new]
    omega
  · simp [new]

theorem Holds.next_tail (h : q.Holds room es) :
    q.next q.tail = (q.head + (es.length + 1)) % q.slots.size := by
  rw [next, h.tail_eq, Nat.mod_add_mod, Nat.add_assoc]

/-- The slot behind the tail is the head exactly if all slots but one are in use. -/
theorem Holds.full_iff (h : q.Holds room es) : q.next q.tail = q.head ↔ room ≤ es.length := by
  have hsize := h.size_eq
  have hle := h.length_le
  have hh := q.head_lt
  rw [h.next_tail, wrap_eq hh (by omega)]
  split <;> omega

theorem Holds.empty_iff (h : q.Holds room es) : q.head = q.tail ↔ es = [] := by
  have hsize := h.size_eq
  have hle := h.length_le
  have hh := q.head_lt
  rw [← List.length_eq_zero_iff, h.tail_eq, wrap_eq hh (by omega)]
  split <;> omega

theorem Holds.append (h : q.Holds room es) (hroom : es.length < room) (e : Event) :
    (q.append e).Holds room (es ++ [e]) := by
  have hsize := h.size_eq
  have happend : (q.append e).slots.size = q.slots.size := Array.size_set q.tail_lt
  refine ⟨happend.trans hsize, ?_, ?_, fun i hi => ?_⟩
  · rw [List.length_append, List.length_singleton]
    omega
  · rw [happend, List.length_append, List.length_singleton]
    exact h.next_tail
  · rw [List.length_append, List.length_singleton] at hi
    rw [happend]
    change (q.slots.set q.tail (some e) q.tail_lt)[(q.head + i) % q.slots.size]? = _
    by_cases hlast : i = es.length
    · subst hlast
      rw [← h.tail_eq, Array.getElem?_set_self, List.getElem_append_right (Nat.le_refl _)]
      simp
    · -- the slot that is written is not one of those in use
      have hne : q.tail ≠ (q.head + i) % q.slots.size := by
        rw [h.tail_eq]
        exact wrap_ne q.head_lt (by omega) (by omega) (Ne.symm hlast)
      rw [Array.getElem?_set_ne q.tail_lt hne, List.getElem_append_left (by omega)]
      exact h.slot_eq i (by omega)

theorem Holds.front_eq {e : Event} (h : q.Holds room (e :: es)) : q.front = some e := by
  have hslot := h.slot_eq 0 (Nat.zero_lt_succ _)
  rw [Nat.add_zero, Nat.mod_eq_of_lt q.head_lt] at hslot
  rw [front, hslot]
  rfl

theorem Holds.advance {e : Event} (h : q.Holds room (e :: es)) : q.advance.Holds room es := by
  have hle := h.length_le
  rw [List.length_cons] at hle
  -- a slot behind the new head lies one step further behind the old one
  have hbehind : ∀ i, (q.next q.head + i) % q.slots.size = (q.head + (i + 1)) % q.slots.size := by
    intro i
    rw [next, Nat.mod_add_mod, Nat.add_assoc, Nat.add_comm 1 i]
  refine ⟨h.size_eq, by omega, h.tail_eq.trans (hbehind _).symm, fun i hi => ?_⟩
  change q.slots[(q.next q.head + i) % q.slots.size]? = _
  rw [hbehind]
  exact h.slot_eq (i + 1) (Nat.succ_lt_succ hi)

/-- **A ring is a queue.** -/
theorem fifo : Channel.Fifo Holds where
  new := holds_new
  enqueue e h hroom :=
    ⟨_, if_neg fun hfull => Nat.not_le_of_lt hroom (h.full_iff.1 hfull), h.append hroom e⟩
  enqueue_full e h hfull := ⟨_, if_pos (h.full_iff.2 hfull), h⟩
  dequeue {q room e es} h := by
    refine ⟨q.advance, ?_, h.advance⟩
    rw [← h.front_eq]
    exact if_neg fun heq => List.cons_ne_nil e es (h.empty_iff.1 heq)
  dequeue_empty h := ⟨_, if_pos (h.empty_iff.2 rfl), h⟩
  length {q room es} h := by
    have hsize := h.size_eq
    have hle := h.length_le
    change (q.tail + q.slots.size - q.head) % q.slots.size = es.length
    rw [h.tail_eq]
    exact steps_wrap q.head_lt (by omega)
  hasRoom h := decide_eq_decide.2 ((not_congr h.full_iff).trans Nat.not_le)
  hasEvent {q room es} h := by
    cases es with
    | nil => exact decide_eq_false (not_not_intro (h.empty_iff.2 rfl))
    | cons e es => exact decide_eq_true fun heq => List.cons_ne_nil e es (h.empty_iff.1 heq)

end Ring

end PlatformGuard.Filter
