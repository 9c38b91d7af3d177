import PlatformGuard.Proofs.Rings
import PlatformGuard.Proofs.Runs

/-!
# Events are neither lost nor duplicated

An event queue is used by a producer that pushes and a consumer that pops or drains; now and then it is given to
a new pair of users.  What the users are told follows an automaton of the waiting events and the count of lost
ones (`Rule`), and that automaton conserves events: those that were handed out, followed by those that wait, are
those that were accepted (`Runs.conserved`).

Only single uses depend on how the queue is kept.  Once they follow the automaton (`Simulates`), so does every
run.  The queue that keeps a list follows it, and so does every one that is built over a queue between two users,
such as a ring.
-/

namespace PlatformGuard.Filter

/-! ### Event queues over other queues -/

/-- An event queue that keeps its events in a queue `κ`, and the count of its producer. -/
structure Reports (κ : Type) where
  queue : κ
  dropped : Nat := 0

namespace Reports

variable {κ : Type} [Channel κ]

def split (q : Reports κ) : Reports κ := { q with dropped := 0 }

/-- Appends an event, or counts it as lost. -/
def push (e : Event) : ExceptT Error (StateM (Reports κ)) Unit := fun q =>
  match Channel.enqueue e q.queue with
  | (.ok (), queue) => (.ok (), { q with queue })
  | (.error _, queue) => (.error .full, ⟨queue, min (q.dropped + 1) maxDropped⟩)

/-- Takes the oldest event. -/
def pop (q : Reports κ) : Option Event × Reports κ :=
  let (e, queue) := Channel.dequeue q.queue
  (e, { q with queue })

/-- Takes one event after the other, `n` at most, until none is left. -/
def drain (q : Reports κ) : Nat → List Event × Reports κ
  | 0 => ([], q)
  | n + 1 =>
    match q.pop with
    | (none, q) => ([], q)
    | (some e, q) =>
      let (es, q) := q.drain n
      (e :: es, q)

end Reports

/-! ### Uses of an event queue -/

/-- What the users of an event queue can do and see. -/
class Reporting (ρ : Type) where
  push : Event → ExceptT Error (StateM ρ) Unit
  pop : ρ → Option Event × ρ
  drain : ρ → Nat → List Event × ρ
  split : ρ → ρ
  length : ρ → Nat
  isEmpty : ρ → Bool
  isFull : ρ → Bool
  dropped : ρ → Nat

instance : Reporting EventQueue where
  push := EventQueue.push
  pop := EventQueue.pop
  drain := EventQueue.drain
  split := EventQueue.split
  length q := q.events.length
  isEmpty := EventQueue.isEmpty
  isFull := EventQueue.isFull
  dropped := EventQueue.dropped

instance {κ : Type} [Channel κ] : Reporting (Reports κ) where
  push := Reports.push
  pop := Reports.pop
  drain := Reports.drain
  split := Reports.split
  length q := Channel.length q.queue
  isEmpty q := !Channel.hasEvent q.queue
  isFull q := !Channel.hasRoom q.queue
  dropped := Reports.dropped

/-- A drain is named by how often it is asked; to ask a drain once is to pop. -/
inductive Use where
  | push (e : Event)
  | pop
  | drain (n : Nat)
  | split

/-- The events that are handed out. -/
abbrev Answer := Except Error (List Event)

section uses
variable {ρ : Type} [Reporting ρ]

def Use.step (u : Use) (q : ρ) : Answer × ρ :=
  match u with
  | push e =>
    let (r, q) := Reporting.push e q
    (r.map fun _ => [], q)
  | pop =>
    let (e, q) := Reporting.pop q
    (.ok e.toList, q)
  | drain n =>
    let (es, q) := Reporting.drain q n
    (.ok es, q)
  | split => (.ok [], Reporting.split q)

/-- Runs uses one after the other. -/
def runAll : List Use → ρ → List Answer × ρ := Automaton.useAll Use.step

end uses

/-! ### What a run is about -/

/-- The events that were handed out, in order. -/
def popped (rs : List Answer) : List Event := rs.flatMap fun r => r.toOption.getD []

/-- The events whose push was accepted, in order. -/
def accepted : List Use → List Answer → List Event
  | .push e :: us, .ok _ :: rs => e :: accepted us rs
  | _ :: us, _ :: rs => accepted us rs
  | _, _ => []

/-- The number of pushes that were refused since the queue was last split, where `n` were before. -/
def refused (n : Nat) : List Use → List Answer → Nat
  | .split :: us, _ :: rs => refused 0 us rs
  | .push _ :: us, .error _ :: rs => refused (n + 1) us rs
  | _ :: us, _ :: rs => refused n us rs
  | _, _ => n

/-! ### The automaton -/

/-- The events that wait, oldest first, and the count of those that were lost. -/
structure Waiting where
  events : List Event
  dropped : Nat

/-- What a use answers, and what waits after it, where there is room for so many events. -/
inductive Rule (room : Nat) : Waiting → Use → Answer → Waiting → Prop
  | push {s : Waiting} {e : Event} : s.events.length < room →
      Rule room s (.push e) (.ok []) { s with events := s.events ++ [e] }
  | push_full {s : Waiting} {e : Event} : room ≤ s.events.length →
      Rule room s (.push e) (.error .full) { s with dropped := min (s.dropped + 1) maxDropped }
  | pop {e : Event} {es : List Event} {d : Nat} : Rule room ⟨e :: es, d⟩ .pop (.ok [e]) ⟨es, d⟩
  | pop_empty {d : Nat} : Rule room ⟨[], d⟩ .pop (.ok []) ⟨[], d⟩
  | drain {s : Waiting} {n : Nat} :
      Rule room s (.drain n) (.ok (s.events.take n)) { s with events := s.events.drop n }
  | split {s : Waiting} : Rule room s .split (.ok []) { s with dropped := 0 }

abbrev Runs (room : Nat) : Waiting → List Use → List Answer → Waiting → Prop := Automaton.Runs (Rule room)

section automaton
variable {room : Nat} {s t : Waiting} {u : Use} {us : List Use} {r : Answer} {rs : List Answer}

theorem Rule.length_le (h : Rule room s u r t) (hs : s.events.length ≤ room) : t.events.length ≤ room := by
  cases h with
  | push hroom =>
    rw [List.length_append, List.length_singleton]
    omega
  | push_full => exact hs
  | pop => exact Nat.le_of_succ_le hs
  | pop_empty => exact hs
  | drain =>
    rw [List.length_drop]
    omega
  | split => exact hs

theorem Runs.length_le (h : Runs room s us rs t) (hs : s.events.length ≤ room) : t.events.length ≤ room :=
  h.keeps (fun s => s.events.length ≤ room) Rule.length_le hs

/-- A use hands out events from the front of those that wait, and lets an accepted one wait behind them. -/
theorem Rule.conserved (h : Rule room s u r t) :
    s.events ++ accepted [u] [r] = popped [r] ++ t.events := by
  cases h with
  | push => rfl
  | push_full => simp [accepted, popped, Except.toOption]
  | pop => simp [accepted, popped, Except.toOption]
  | pop_empty => rfl
  | drain => simp [accepted, popped, Except.toOption]
  | split => simp [accepted, popped, Except.toOption]

theorem popped_cons (r : Answer) (rs : List Answer) : popped (r :: rs) = popped [r] ++ popped rs := by
  simp [popped]

theorem accepted_cons (u : Use) (us : List Use) (r : Answer) (rs : List Answer) :
    accepted (u :: us) (r :: rs) = accepted [u] [r] ++ accepted us rs := by
  cases u <;> cases r <;> rfl

/-- **Nothing is lost and nothing is duplicated**: what waited and was accepted is what was handed out and
waits. -/
theorem Runs.conserved (h : Runs room s us rs t) :
    s.events ++ accepted us rs = popped rs ++ t.events := by
  induction h with
  | nil => exact List.append_nil _
  | @cons s t v u us r rs hr _ ih =>
    calc s.events ++ accepted (u :: us) (r :: rs)
        = s.events ++ accepted [u] [r] ++ accepted us rs := by rw [accepted_cons, List.append_assoc]
      _ = popped [r] ++ (t.events ++ accepted us rs) := by rw [hr.conserved, List.append_assoc]
      _ = popped (r :: rs) ++ v.events := by rw [ih, popped_cons r rs, List.append_assoc]

/-- The count of lost events stops at its largest value. -/
theorem Runs.dropped_eq (h : Runs room s us rs t) (n : Nat) (hs : s.dropped = min n maxDropped) :
    t.dropped = min (refused n us rs) maxDropped := by
  induction h generalizing n with
  | nil => exact hs
  | cons hr _ ih =>
    cases hr with
    | push_full =>
      refine ih (n + 1) ?_
      simp only [hs]
      omega
    | split => exact ih 0 rfl
    | push | pop | pop_empty | drain => exact ih n hs

end automaton

/-! ### Queues that follow the automaton -/

/-- What is seen of a queue in which these events wait. -/
structure Shows {ρ : Type} [Reporting ρ] (room : Nat) (q : ρ) (s : Waiting) : Prop where
  length : Reporting.length q = s.events.length
  isEmpty : Reporting.isEmpty q = true ↔ s.events = []
  isFull : Reporting.isFull q = true ↔ room ≤ s.events.length
  dropped : Reporting.dropped q = s.dropped

/-- The uses of a queue in a state that stands for a state of the automaton. -/
structure Simulates {ρ : Type} [Reporting ρ] (room : Nat) (R : ρ → Waiting → Prop) : Prop where
  step : ∀ {q s} (u : Use), R q s → ∃ t, Rule room s u (u.step q).1 t ∧ R (u.step q).2 t
  shows : ∀ {q s}, R q s → Shows room q s

section simulation
variable {ρ : Type} [Reporting ρ] {room : Nat} {R : ρ → Waiting → Prop}

/-- **Every run follows the automaton.** -/
theorem Simulates.run (hR : Simulates room R) {q : ρ} {s : Waiting} (h : R q s) (us : List Use) :
    ∃ t, Runs room s us (runAll us q).1 t ∧ R (runAll us q).2 t :=
  Automaton.runs_useAll hR.step h us

end simulation

/-- An event queue of a capacity, in which these events wait. -/
def EventQueue.Keeps (room : Nat) (q : EventQueue) (s : Waiting) : Prop :=
  q = ⟨room, s.events, s.dropped⟩

theorem EventQueue.simulates (room : Nat) : Simulates room (EventQueue.Keeps room) where
  step {q s} u h := by
    subst h
    cases u with
    | push e =>
      by_cases hfull : room ≤ s.events.length
      · have hstep : (Use.push e).step (⟨room, s.events, s.dropped⟩ : EventQueue) =
            (.error .full, ⟨room, s.events, min (s.dropped + 1) maxDropped⟩) := by
          simp [Use.step, Reporting.push, EventQueue.push, EventQueue.isFull, hfull, Except.map]
        rw [hstep]
        exact ⟨_, .push_full hfull, rfl⟩
      · have hstep : (Use.push e).step (⟨room, s.events, s.dropped⟩ : EventQueue) =
            (.ok [], ⟨room, s.events ++ [e], s.dropped⟩) := by
          simp [Use.step, Reporting.push, EventQueue.push, EventQueue.isFull, hfull, Except.map]
        rw [hstep]
        exact ⟨_, .push (Nat.lt_of_not_le hfull), rfl⟩
    | pop =>
      obtain ⟨es, d⟩ := s
      cases es with
      | nil => exact ⟨_, .pop_empty, rfl⟩
      | cons e es => exact ⟨_, .pop, rfl⟩
    | drain n => exact ⟨_, .drain, rfl⟩
    | split => exact ⟨_, .split, rfl⟩
  shows {q s} h := by
    subst h
    exact ⟨rfl, List.isEmpty_iff, decide_eq_true_iff, rfl⟩

namespace Reports

variable {κ : Type} [Channel κ] {R : κ → Nat → List Event → Prop} {room : Nat}

/-- The events wait in the queue below. -/
def Keeps (R : κ → Nat → List Event → Prop) (room : Nat) (q : Reports κ) (s : Waiting) : Prop :=
  R q.queue room s.events ∧ q.dropped = s.dropped

theorem pop_keeps (hR : Channel.Fifo R) {q : Reports κ} {s : Waiting} (h : q.Keeps R room s) :
    q.pop.1 = s.events.head? ∧ q.pop.2.Keeps R room { s with events := s.events.tail } := by
  obtain ⟨es, d⟩ := s
  obtain ⟨hq, hd⟩ := h
  unfold pop
  cases es with
  | nil =>
    obtain ⟨q', hpop, hq'⟩ := hR.dequeue_empty hq
    rw [hpop]
    exact ⟨rfl, hq', hd⟩
  | cons e es =>
    obtain ⟨q', hpop, hq'⟩ := hR.dequeue hq
    rw [hpop]
    exact ⟨rfl, hq', hd⟩

/-- To drain is to pop again and again. -/
theorem drain_keeps (hR : Channel.Fifo R) {q : Reports κ} {s : Waiting} (h : q.Keeps R room s) (n : Nat) :
    (q.drain n).1 = s.events.take n ∧
      (q.drain n).2.Keeps R room { s with events := s.events.drop n } := by
  induction n generalizing q s with
  | zero => exact ⟨rfl, h⟩
  | succ n ih =>
    obtain ⟨hpop, hq⟩ := pop_keeps hR h
    obtain ⟨es, d⟩ := s
    rcases hresult : q.pop with ⟨e?, q'⟩
    rw [hresult] at hpop hq
    unfold drain
    rw [hresult]
    cases es with
    | nil =>
      obtain rfl : e? = none := hpop
      exact ⟨rfl, hq⟩
    | cons e es =>
      obtain rfl : e? = some e := hpop
      obtain ⟨hes, hq'⟩ := ih hq
      exact ⟨congrArg (e :: ·) hes, hq'⟩

theorem simulates (hR : Channel.Fifo R) (room : Nat) : Simulates room (Keeps R room) where
  step {q s} u h := by
    obtain ⟨hq, hd⟩ := h
    cases u with
    | push e =>
      by_cases hroom : s.events.length < room
      · obtain ⟨c, henqueue, hc⟩ := hR.enqueue e hq hroom
        have hstep : (Use.push e).step q = (.ok [], { q with queue := c }) := by
          simp [Use.step, Reporting.push, push, henqueue, Except.map]
        rw [hstep]
        exact ⟨_, .push hroom, hc, hd⟩
      · obtain ⟨c, henqueue, hc⟩ := hR.enqueue_full e hq (Nat.le_of_not_lt hroom)
        have hstep : (Use.push e).step q = (.error .full, ⟨c, min (q.dropped + 1) maxDropped⟩) := by
          simp [Use.step, Reporting.push, push, henqueue, Except.map]
        rw [hstep, hd]
        exact ⟨_, .push_full (Nat.le_of_not_lt hroom), hc, rfl⟩
    | pop =>
      obtain ⟨hpop, hkeeps⟩ := pop_keeps hR ⟨hq, hd⟩
      obtain ⟨es, d⟩ := s
      have hstep : Use.pop.step q = (.ok es.head?.toList, q.pop.2) :=
        Prod.ext (congrArg (fun e : Option Event => (.ok e.toList : Answer)) hpop) rfl
      rw [hstep]
      cases es with
      | nil => exact ⟨_, .pop_empty, hkeeps⟩
      | cons e es => exact ⟨_, .pop, hkeeps⟩
    | drain n =>
      obtain ⟨hdrain, hkeeps⟩ := drain_keeps hR ⟨hq, hd⟩ n
      have hstep : (Use.drain n).step q = (.ok (s.events.take n), (q.drain n).2) :=
        Prod.ext (congrArg Except.ok hdrain) rfl
      rw [hstep]
      exact ⟨_, .drain, hkeeps⟩
    | split => exact ⟨_, .split, hq, rfl⟩
  shows {q s} h := by
    obtain ⟨hq, hd⟩ := h
    refine ⟨hR.length hq, ?_, ?_, hd⟩
    · change (!Channel.hasEvent q.queue) = true ↔ _
      rw [hR.hasEvent hq, Bool.not_not, List.isEmpty_iff]
    · change (!Channel.hasRoom q.queue) = true ↔ _
      rw [hR.hasRoom hq, Bool.not_eq_true', decide_eq_false_iff_not, Nat.not_lt]

end Reports

/-! ### From empty on -/

/-- What a queue with room for so many events does, from empty on. -/
structure Lossless {ρ : Type} [Reporting ρ] (room : Nat) (empty : ρ) : Prop where
  /-- The events that were handed out and those that wait are the accepted ones, in order.  The queue shows what
  waits and how many pushes were refused since it was split, and what it does next is what the rules say. -/
  conserved : ∀ us, ∃ s, popped (runAll us empty).1 ++ s.events = accepted us (runAll us empty).1 ∧
    s.events.length ≤ room ∧ s.dropped = min (refused 0 us (runAll us empty).1) maxDropped ∧
    Shows room (runAll us empty).2 s ∧
    ∀ u : Use, ∃ t, Rule room s u (u.step (runAll us empty).2).1 t ∧
      Shows room (u.step (runAll us empty).2).2 t
  /-- A push is accepted exactly if there is room. -/
  push_iff : ∀ (us : List Use) (e : Event), ((Use.push e).step (runAll us empty).2).1 = .ok [] ↔
    Reporting.length (runAll us empty).2 < room
  /-- A push that is refused is counted, and nothing else changes. -/
  push_full : ∀ (us : List Use) (e : Event), room ≤ Reporting.length (runAll us empty).2 →
    ((Use.push e).step (runAll us empty).2).1 = .error .full ∧
    Reporting.length ((Use.push e).step (runAll us empty).2).2 = Reporting.length (runAll us empty).2 ∧
    Reporting.dropped ((Use.push e).step (runAll us empty).2).2 =
      min (Reporting.dropped (runAll us empty).2 + 1) maxDropped ∧
    ∀ n, ((Use.drain n).step ((Use.push e).step (runAll us empty).2).2).1 =
      ((Use.drain n).step (runAll us empty).2).1
  /-- A drain that is asked often enough hands out all that waits. -/
  drained : ∀ (us : List Use) (n : Nat), Reporting.length (runAll us empty).2 ≤ n →
    Reporting.isEmpty ((Use.drain n).step (runAll us empty).2).2 = true ∧
    ∃ es, ((Use.drain n).step (runAll us empty).2).1 = .ok es ∧
      popped (runAll us empty).1 ++ es = accepted us (runAll us empty).1

section lossless
variable {ρ : Type} [Reporting ρ] {room : Nat} {R : ρ → Waiting → Prop}

theorem Simulates.conserved (hR : Simulates room R) {empty : ρ} (h : R empty ⟨[], 0⟩) (us : List Use) :
    ∃ s, popped (runAll us empty).1 ++ s.events = accepted us (runAll us empty).1 ∧
      s.events.length ≤ room ∧ s.dropped = min (refused 0 us (runAll us empty).1) maxDropped ∧
      R (runAll us empty).2 s := by
  obtain ⟨s, hruns, hs⟩ := hR.run h us
  exact ⟨s, hruns.conserved.symm, hruns.length_le (Nat.zero_le _), hruns.dropped_eq 0 rfl, hs⟩

theorem Simulates.lossless (hR : Simulates room R) {empty : ρ} (h : R empty ⟨[], 0⟩) :
    Lossless room empty where
  conserved us := by
    obtain ⟨s, hs, hle, hd, hq⟩ := hR.conserved h us
    refine ⟨s, hs, hle, hd, hR.shows hq, fun u => ?_⟩
    obtain ⟨t, hr, ht⟩ := hR.step u hq
    exact ⟨t, hr, hR.shows ht⟩
  push_iff us e := by
    obtain ⟨s, -, -, -, hq⟩ := hR.conserved h us
    obtain ⟨t, hr, -⟩ := hR.step (.push e) hq
    rw [(hR.shows hq).length]
    generalize ((Use.push e).step (runAll us empty).2).1 = r at hr ⊢
    cases hr with
    | push hroom => exact iff_of_true rfl hroom
    | push_full hfull => exact iff_of_false nofun (Nat.not_lt_of_le hfull)
  push_full us e hfull := by
    obtain ⟨s, -, -, -, hq⟩ := hR.conserved h us
    obtain ⟨t, hr, ht⟩ := hR.step (.push e) hq
    obtain ⟨hlength, -, -, hdropped⟩ := hR.shows ht
    rw [(hR.shows hq).length] at hfull ⊢
    rw [(hR.shows hq).dropped, hlength, hdropped]
    -- what a drain hands out depends on what waits only
    have hdrains : ∀ {q v} n, R q v → ((Use.drain n).step q).1 = .ok (v.events.take n) := by
      intro q v n hv
      obtain ⟨w, hr, -⟩ := hR.step (.drain n) hv
      generalize ((Use.drain n).step q).1 = r at hr ⊢
      cases hr
      rfl
    generalize hresult : ((Use.push e).step (runAll us empty).2).1 = r at hr
    cases hr with
    | push hroom => exact absurd hroom (Nat.not_lt_of_le hfull)
    | push_full => exact ⟨rfl, rfl, rfl, fun n => (hdrains n ht).trans (hdrains n hq).symm⟩
  drained us n hn := by
    obtain ⟨s, hs, -, -, hq⟩ := hR.conserved h us
    obtain ⟨t, hr, ht⟩ := hR.step (.drain n) hq
    rw [(hR.shows hq).length] at hn
    rw [(hR.shows ht).isEmpty]
    generalize ((Use.drain n).step (runAll us empty).2).1 = r at hr ⊢
    cases hr with
    | drain =>
      refine ⟨List.drop_eq_nil_of_le hn, _, rfl, ?_⟩
      rw [List.take_of_length_le hn]
      exact hs

end lossless

/-- **Event queues lose and duplicate nothing**: the one that keeps a list, and every one over a queue between
two users. -/
theorem queues_lossless {κ : Type} [Channel κ] {R : κ → Nat → List Event → Prop} (hR : Channel.Fifo R)
    (slots : Nat) (h : 2 ≤ slots) :
    Lossless (slots - 1) ({ capacity := slots - 1 } : EventQueue) ∧
      Lossless (slots - 1) ({ queue := Channel.new slots h } : Reports κ) :=
  ⟨(EventQueue.simulates _).lossless rfl, (Reports.simulates hR _).lossless ⟨hR.new slots h, rfl⟩⟩

/-- A read that was dropped. -/
def droppedRead (offset : UInt8) : Event := .i2c 0 0x50 offset

/-- Three slots are wrapped around twice: a third event is refused, and the others come out in order. -/
theorem ring_lossless : Lossless 2 ({ queue := Ring.new 3 (by decide) } : Reports Ring) ∧
    (runAll [.push (droppedRead 1), .push (droppedRead 2), .push (droppedRead 3), .pop, .push (droppedRead 4),
        .drain 1, .push (droppedRead 5), .split, .drain 3, .push (droppedRead 6), .pop]
      ({ queue := Ring.new 3 (by decide) } : Reports Ring)).1 =
      [.ok [], .ok [], .error .full, .ok [droppedRead 1], .ok [], .ok [droppedRead 2], .ok [], .ok [],
        .ok [droppedRead 4, droppedRead 5], .ok [], .ok [droppedRead 6]] :=
  ⟨(queues_lossless Ring.fifo 3 (by decide)).2, by rfl⟩

end PlatformGuard.Filter
