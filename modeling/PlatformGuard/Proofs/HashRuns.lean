import Mathlib.Data.List.Induction
import PlatformGuard.Proofs.DigestContexts
import PlatformGuard.Proofs.HashSessions
import PlatformGuard.Proofs.Runs

/-!
# What a hash engine answers

An engine is used in two ways: by its calls, and by opening a session, writing to it and ending it.  Either
way it behaves as an automaton that is idle, or open with an algorithm and the bytes written so far (`Rule`).

Only the calls depend on the engine.  Once they follow the automaton (`Simulates`), so does every run of uses,
and what holds of the automaton holds of the engine: what is open at the end of a run can be read off the run
(`Runs.opened_iff`), and the cuts between writes do not show.  The software engine follows the automaton, and
so does every engine over a context that gives the digest of all pieces.
-/

namespace PlatformGuard

namespace Steps

variable {σ ε α β : Type}

theorem map_of_eq {x : ExceptT ε (StateM σ) α} {s t : σ} {r : Except ε α} (f : α → β) (h : x s = (r, t)) :
    (f <$> x) s = (r.map f, t) := by
  rw [map_apply, h]

end Steps

namespace Hash

open Steps

/-! ### Uses of an engine -/

/-- How a session is ended. -/
inductive Ending where
  | finish (size : Nat)
  | expect (expected : Bytes)
  | drop

/-- A call of an engine, or a session from its start to its end. -/
inductive Use where
  | start (a : Algorithm)
  | write (bs : Bytes)
  | finish (size : Nat)
  | cancel
  | session (a : Algorithm) (pieces : List Bytes) (ending : Ending)
  | contiguous (a : Algorithm) (message : Bytes) (size : Nat)

/-- The digest, where one is given. -/
abbrev Answer := Except Error (Option Bytes)

section uses
variable {η : Type} [Engine η]

def Ending.step (a : Algorithm) : Ending → ExceptT Error (StateM η) (Option Bytes)
  | finish size => some <$> close a size
  | expect expected => (fun _ => none) <$> Hash.expect a expected
  | drop => (fun _ => none) <$> Hash.drop

def Use.step : Use → ExceptT Error (StateM η) (Option Bytes)
  | start a => (fun _ => none) <$> Engine.start a
  | write bs => (fun _ => none) <$> Engine.write bs
  | finish size => some <$> Engine.finish size
  | cancel => (fun _ => none) <$> Hash.drop
  | session a pieces ending => hashing a pieces (ending.step a)
  | contiguous a message size => some <$> Hash.contiguous a message size

/-- Uses an engine again and again, whatever it answers. -/
def runAll : List Use → η → List Answer × η := Automaton.useAll Use.step

/-- What an engine answers to a use after others. -/
def answer (idle : η) (us : List Use) (u : Use) : Answer := (u.step (runAll us idle).2).1

end uses

/-! ### The automaton -/

/-- The algorithm of the open session and the bytes written to it. -/
abbrev Session := Option (Algorithm × Bytes)

/-- How a session with these bytes ends. -/
inductive Ends (a : Algorithm) (w : Bytes) : Ending → Answer → Prop
  | finish {n} : n = (a.digest w).length → Ends a w (.finish n) (.ok (some (a.digest w)))
  | finish_wrongSize {n} : n ≠ (a.digest w).length → Ends a w (.finish n) (.error .wrongSize)
  | expect {x} : x = a.digest w → Ends a w (.expect x) (.ok none)
  | expect_mismatch {x} : x ≠ a.digest w → Ends a w (.expect x) (.error .unspecified)
  | drop : Ends a w .drop (.ok none)

/-- What a use is answered in each state, and the state behind it. -/
inductive Rule : Session → Use → Answer → Session → Prop
  | start {a} : Rule none (.start a) (.ok none) (some (a, []))
  | start_busy {a s} : Rule (some s) (.start a) (.error .busy) (some s)
  | write {a w bs} : Rule (some (a, w)) (.write bs) (.ok none) (some (a, w ++ bs))
  | write_idle {bs} : Rule none (.write bs) (.error .idle) none
  | finish {a w n r} : Ends a w (.finish n) r → Rule (some (a, w)) (.finish n) r none
  | finish_idle {n} : Rule none (.finish n) (.error .idle) none
  | cancel {s} : Rule s .cancel (.ok none) none
  | session {a pieces x r} : Ends a pieces.flatten x r → Rule none (.session a pieces x) r none
  | session_busy {a pieces x s} : Rule (some s) (.session a pieces x) (.error .busy) (some s)
  | contiguous {a message n r} : Ends a message (.finish n) r → Rule none (.contiguous a message n) r none
  | contiguous_busy {a message n s} : Rule (some s) (.contiguous a message n) (.error .busy) (some s)

/-- The answers to uses one after another, and the state in the end. -/
abbrev Runs : Session → List Use → List Answer → Session → Prop := Automaton.Runs Rule

theorem Ends.unique {a : Algorithm} {w : Bytes} {x : Ending} {r r' : Answer} (h : Ends a w x r)
    (h' : Ends a w x r') : r = r' := by
  cases h with
  | finish hn =>
    cases h' with
    | finish => rfl
    | finish_wrongSize hn' => exact absurd hn hn'
  | finish_wrongSize hn =>
    cases h' with
    | finish hn' => exact absurd hn' hn
    | finish_wrongSize => rfl
  | expect hx =>
    cases h' with
    | expect => rfl
    | expect_mismatch hx' => exact absurd hx hx'
  | expect_mismatch hx =>
    cases h' with
    | expect hx' => exact absurd hx' hx
    | expect_mismatch => rfl
  | drop =>
    cases h'
    rfl

theorem Rule.unique {s t t' : Session} {u : Use} {r r' : Answer} (h : Rule s u r t) (h' : Rule s u r' t') :
    r = r' ∧ t = t' := by
  cases h with
  | finish hr =>
    cases h' with
    | finish hr' => exact ⟨hr.unique hr', rfl⟩
  | session hr =>
    cases h' with
    | session hr' => exact ⟨hr.unique hr', rfl⟩
  | contiguous hr =>
    cases h' with
    | contiguous hr' => exact ⟨hr.unique hr', rfl⟩
  | _ =>
    cases h'
    exact ⟨rfl, rfl⟩

/-! ### What is open -/

namespace Use

/-- Whatever is open is closed behind the use. -/
def Closes : Use → Prop
  | finish _ | cancel => True
  | _ => False

/-- What is written to whatever is open. -/
def written : Use → Bytes
  | write bs => bs
  | _ => []

end Use

/-- The session was started behind a use that closes, or the beginning, with no start between them; it was
not closed, and these are the bytes written to it. -/
def OpenedBy (us : List Use) (a : Algorithm) (w : Bytes) : Prop :=
  ∃ closed between later, us = closed ++ between ++ .start a :: later ∧
    (∀ u ∈ closed.getLast?, u.Closes) ∧ (∀ u ∈ between, ∀ b, u ≠ .start b) ∧
    (∀ u ∈ later, ¬u.Closes) ∧ w = later.flatMap Use.written

/-- Nothing was started behind the last use that closes. -/
def ClosedBy (us : List Use) : Prop :=
  ∃ closed between, us = closed ++ between ∧ (∀ u ∈ closed.getLast?, u.Closes) ∧
    ∀ u ∈ between, ∀ b, u ≠ .start b

section opened
variable {s t : Session} {u : Use} {us : List Use} {r : Answer} {rs : List Answer} {a : Algorithm} {w : Bytes}

theorem Rule.closes (h : Rule s u r t) (hu : u.Closes) : t = none := by
  cases h with
  | finish | finish_idle | cancel => rfl
  | _ => cases hu

/-- Only a start opens a session, -/
theorem Rule.stays (h : Rule none u r t) (hu : ∀ b, u ≠ .start b) : t = none := by
  cases h with
  | start => exact absurd rfl (hu _)
  | _ => rfl

/-- and nothing but what closes it changes it otherwise than by writing. -/
theorem Rule.grows (h : Rule (some (a, w)) u r t) (hu : ¬u.Closes) : t = some (a, w ++ u.written) := by
  cases h with
  | write => rfl
  | finish | cancel => exact absurd trivial hu
  | _ => simp [Use.written]

theorem Runs.stays (h : Runs none us rs t) (hus : ∀ u ∈ us, ∀ b, u ≠ .start b) : t = none := by
  induction us generalizing rs with
  | nil =>
    cases h
    rfl
  | cons u us ih =>
    cases h with
    | cons hr hrs =>
      obtain rfl := hr.stays (hus u List.mem_cons_self)
      exact ih hrs fun v hv => hus v (List.mem_cons_of_mem u hv)

theorem Runs.grows (h : Runs (some (a, w)) us rs t) (hus : ∀ u ∈ us, ¬u.Closes) :
    t = some (a, w ++ us.flatMap Use.written) := by
  induction us generalizing w rs with
  | nil =>
    cases h
    simp
  | cons u us ih =>
    cases h with
    | cons hr hrs =>
      obtain rfl := hr.grows (hus u List.mem_cons_self)
      rw [List.flatMap_cons, ← List.append_assoc]
      exact ih hrs fun v hv => hus v (List.mem_cons_of_mem u hv)

theorem Runs.closes (h : Runs none us rs t) (hlast : ∀ u ∈ us.getLast?, u.Closes) : t = none := by
  induction us using List.reverseRecOn with
  | nil =>
    cases h
    rfl
  | append_singleton us u _ =>
    obtain ⟨_, _, _, -, -, hu⟩ := h.of_append
    cases hu with
    | cons hr hnil =>
      cases hnil
      exact hr.closes (hlast u (by simp))

theorem Runs.of_openedBy (h : Runs none us rs t) (ho : OpenedBy us a w) : t = some (a, w) := by
  obtain ⟨closed, between, later, rfl, hclosed, hbetween, hlater, rfl⟩ := ho
  obtain ⟨_, _, _, -, hfront, hback⟩ := h.of_append
  obtain ⟨_, _, _, -, hfirst, hsecond⟩ := hfront.of_append
  obtain rfl := Runs.closes hfirst hclosed
  obtain rfl := Runs.stays hsecond hbetween
  cases hback with
  | cons hr hrest =>
    cases hr
    exact Runs.grows hrest hlater

theorem closedBy_of_closes (us : List Use) (hu : u.Closes) : ClosedBy (us ++ [u]) := by
  refine ⟨us ++ [u], [], (List.append_nil _).symm, fun v hv => ?_, List.forall_mem_nil _⟩
  rw [List.getLast?_concat] at hv
  cases hv
  exact hu

theorem ClosedBy.snoc (h : ClosedBy us) (hu : ∀ b, u ≠ .start b) : ClosedBy (us ++ [u]) := by
  obtain ⟨closed, between, rfl, hclosed, hbetween⟩ := h
  exact ⟨closed, between ++ [u], List.append_assoc .., hclosed,
    List.forall_mem_append.2 ⟨hbetween, List.forall_mem_singleton.2 hu⟩⟩

theorem ClosedBy.start (h : ClosedBy us) (a : Algorithm) : OpenedBy (us ++ [.start a]) a [] := by
  obtain ⟨closed, between, rfl, hclosed, hbetween⟩ := h
  exact ⟨closed, between, [], rfl, hclosed, hbetween, List.forall_mem_nil _, rfl⟩

theorem OpenedBy.snoc (h : OpenedBy us a w) (hu : ¬u.Closes) : OpenedBy (us ++ [u]) a (w ++ u.written) := by
  obtain ⟨closed, between, later, rfl, hclosed, hbetween, hlater, rfl⟩ := h
  exact ⟨closed, between, later ++ [u], by simp, hclosed, hbetween,
    List.forall_mem_append.2 ⟨hlater, List.forall_mem_singleton.2 hu⟩, by simp⟩

/-- What is open was opened at some place, and the rest of a run leaves nothing open. -/
theorem Runs.standing (h : Runs none us rs t) :
    (t = none ∧ ClosedBy us) ∨ ∃ a w, t = some (a, w) ∧ OpenedBy us a w := by
  induction us using List.reverseRecOn generalizing rs t with
  | nil =>
    cases h
    exact .inl ⟨rfl, [], [], rfl, by simp, by simp⟩
  | append_singleton us u ih =>
    obtain ⟨rs₁, rs₂, s, -, hus, hu⟩ := h.of_append
    cases hu with
    | cons hr hnil =>
    cases hnil
    rcases ih hus with ⟨rfl, hclosed⟩ | ⟨a, w, rfl, hopened⟩
    · by_cases hstart : ∃ a, u = .start a
      · obtain ⟨a, rfl⟩ := hstart
        cases hr
        exact .inr ⟨a, [], rfl, hclosed.start a⟩
      · have hne : ∀ b, u ≠ .start b := fun b hb => hstart ⟨b, hb⟩
        exact .inl ⟨hr.stays hne, hclosed.snoc hne⟩
    · by_cases hcloses : u.Closes
      · exact .inl ⟨hr.closes hcloses, closedBy_of_closes us hcloses⟩
      · exact .inr ⟨a, _, hr.grows hcloses, hopened.snoc hcloses⟩

/-- What is open behind a run can be read off the run. -/
theorem Runs.opened_iff (h : Runs none us rs t) : t = some (a, w) ↔ OpenedBy us a w := by
  refine ⟨fun ht => ?_, h.of_openedBy⟩
  rcases h.standing with ⟨rfl, -⟩ | ⟨b, v, rfl, hopened⟩
  · cases ht
  · cases ht
    exact hopened

end opened

/-! ### Cuts between writes -/

section cuts
variable {s t : Session} {r : Answer} {a : Algorithm}

theorem Rule.of_flatten {pieces pieces' : List Bytes} {x : Ending} (hp : pieces.flatten = pieces'.flatten)
    (h : Rule s (.session a pieces x) r t) : Rule s (.session a pieces' x) r t := by
  cases h with
  | session hr => exact .session (hp ▸ hr)
  | session_busy => exact .session_busy

/-- To hash one byte string is to write it in a session. -/
theorem Rule.of_contiguous {message : Bytes} {n : Nat} (h : Rule s (.contiguous a message n) r t) :
    Rule s (.session a [message] (.finish n)) r t := by
  cases h with
  | contiguous hr => exact .session (by simpa using hr)
  | contiguous_busy => exact .session_busy

/-- A session can be spelt out in calls. -/
theorem Rule.of_calls {pieces : List Bytes} {rs : List Answer} {n : Nat} {v : Session}
    (h : Runs none (.start a :: pieces.map .write) rs t) (hr : Rule t (.finish n) r v) :
    Rule none (.session a pieces (.finish n)) r none := by
  cases h with
  | cons hstart hwrites =>
  cases hstart
  have hlater : ∀ u ∈ pieces.map Use.write, ¬u.Closes := List.forall_mem_map.2 fun _ _ => id
  have hwritten : (pieces.map Use.write).flatMap Use.written = pieces.flatten := by
    rw [List.flatMap_map]
    exact List.flatMap_id'
  rw [Runs.grows hwrites hlater, hwritten] at hr
  cases hr with
  | finish he => exact .session he

/-- Expecting bytes succeeds if they are the digest. -/
theorem Rule.expect_iff {pieces : List Bytes} {x : Bytes} {r' : Answer} {t' : Session}
    (h : Rule s (.session a pieces (.expect x)) r t)
    (h' : Rule s (.session a pieces (.finish a.size)) r' t') : r = .ok none ↔ r' = .ok (some x) := by
  cases h with
  | session_busy =>
    cases h'
    exact ⟨nofun, nofun⟩
  | session he =>
    cases h' with
    | session he' =>
    have hsize := (length_digest a pieces.flatten).symm
    cases he' with
    | finish_wrongSize hn => exact absurd hsize hn
    | finish =>
      cases he with
      | expect hx => exact ⟨fun _ => by rw [hx], fun _ => rfl⟩
      | expect_mismatch hx =>
        exact ⟨nofun, fun hr => absurd (Option.some.inj (Except.ok.inj hr)).symm hx⟩

end cuts

/-! ### Engines that follow the automaton -/

/-- The calls of an engine in a state that stands for a state of the automaton. -/
structure Simulates {η : Type} [Engine η] (R : η → Session → Prop) : Prop where
  start : ∀ {e} (a : Algorithm), R e none → ∃ e', Engine.start a e = (.ok (), e') ∧ R e' (some (a, []))
  start_busy : ∀ {e s} (a : Algorithm), R e (some s) →
    ∃ e', Engine.start a e = (.error .busy, e') ∧ R e' (some s)
  write : ∀ {e a w} (bs : Bytes), R e (some (a, w)) →
    ∃ e', Engine.write bs e = (.ok (), e') ∧ R e' (some (a, w ++ bs))
  write_idle : ∀ {e} (bs : Bytes), R e none → ∃ e', Engine.write bs e = (.error .idle, e') ∧ R e' none
  finish : ∀ {e a w}, R e (some (a, w)) →
    ∃ e', Engine.finish a.size e = (.ok (a.digest w), e') ∧ R e' none
  finish_wrongSize : ∀ {e a w n}, R e (some (a, w)) → n ≠ a.size →
    ∃ e', Engine.finish n e = (.error .wrongSize, e') ∧ R e' none
  finish_idle : ∀ {e} (n : Nat), R e none → ∃ e', Engine.finish n e = (.error .idle, e') ∧ R e' none
  cancel : ∀ {e s}, R e s → R (Engine.cancel e) none

section simulation
variable {η : Type} [Engine η] {R : η → Session → Prop} {e : η} {s : Session} {a : Algorithm} {w : Bytes}

theorem Simulates.writeAnyway (hR : Simulates R) (h : R e (some (a, w))) (pieces : List Bytes) :
    ∃ e', Hash.writeAnyway pieces e = (.ok (), e') ∧ R e' (some (a, w ++ pieces.flatten)) := by
  induction pieces generalizing e w with
  | nil => exact ⟨e, rfl, by simpa using h⟩
  | cons bs rest ih =>
    obtain ⟨e₁, hwrite, h₁⟩ := hR.write bs h
    obtain ⟨e₂, hrest, h₂⟩ := ih h₁
    refine ⟨e₂, ?_, by simpa using h₂⟩
    change Hash.writeAnyway rest (Engine.write bs e).2 = _
    rw [hwrite, hrest]

theorem Simulates.close (hR : Simulates R) (h : R e (some (a, w))) :
    ∃ e', Hash.close a a.size e = (.ok (a.digest w), e') ∧ R e' none := by
  unfold Hash.close
  rw [if_pos rfl]
  exact hR.finish h

theorem Simulates.ending (hR : Simulates R) (h : R e (some (a, w))) (x : Ending) :
    ∃ r e', x.step a e = (r, e') ∧ Ends a w x r ∧ R e' none := by
  obtain ⟨e₁, hclose, h₁⟩ := hR.close h
  cases x with
  | finish n =>
    by_cases hn : n = a.size
    · subst hn
      exact ⟨_, e₁, map_of_eq some hclose, .finish (length_digest a w).symm, h₁⟩
    · have hwrong : Hash.close a n e = (.error .wrongSize, Engine.cancel e) := by
        unfold Hash.close
        rw [if_neg hn]
      exact ⟨_, _, map_of_eq some hwrong, .finish_wrongSize (length_digest a w ▸ hn), hR.cancel h⟩
  | expect x =>
    have hexpect : Hash.expect a x e =
        (if Bytes.ctEq (a.digest w) x then .ok () else .error .unspecified, e₁) := by
      unfold Hash.expect
      rw [bind_apply, hclose]
      dsimp only
      split <;> rfl
    by_cases hx : x = a.digest w
    · rw [if_pos (Bytes.ctEq_iff.2 hx.symm)] at hexpect
      exact ⟨_, e₁, map_of_eq _ hexpect, .expect hx, h₁⟩
    · rw [if_neg fun hc => hx (Bytes.ctEq_iff.1 hc).symm] at hexpect
      exact ⟨_, e₁, map_of_eq _ hexpect, .expect_mismatch hx, h₁⟩
  | drop => exact ⟨.ok none, Engine.cancel e, rfl, .drop, hR.cancel h⟩

/-- A session from its start to its end. -/
theorem Simulates.session (hR : Simulates R) (h : R e none) (a : Algorithm) (pieces : List Bytes)
    (x : Ending) :
    ∃ r e', (Use.session a pieces x).step e = (r, e') ∧ Ends a pieces.flatten x r ∧ R e' none := by
  obtain ⟨e₁, hstart, h₁⟩ := hR.start a h
  obtain ⟨e₂, hwrites, h₂⟩ := hR.writeAnyway h₁ pieces
  obtain ⟨r, e₃, hend, hr, h₃⟩ := hR.ending h₂ x
  refine ⟨r, e₃, ?_, hr, h₃⟩
  change hashing a pieces (x.step a) e = _
  unfold hashing
  rw [bind_apply, hstart]
  dsimp only
  rw [bind_apply, hwrites]
  exact hend

/-- Whatever begins with a start is refused where something is open. -/
theorem Simulates.start_bind {α : Type} (hR : Simulates R) {d : Algorithm × Bytes} (h : R e (some d))
    (a : Algorithm) (k : Unit → ExceptT Error (StateM η) α) :
    ∃ e', (Engine.start a >>= k) e = (.error .busy, e') ∧ R e' (some d) := by
  obtain ⟨e₁, hstart, h₁⟩ := hR.start_busy a h
  refine ⟨e₁, ?_, h₁⟩
  rw [bind_apply, hstart]

theorem Simulates.contiguous (hR : Simulates R) (h : R e none) (a : Algorithm) (message : Bytes) (n : Nat) :
    ∃ r e', (Use.contiguous a message n).step e = (r, e') ∧ Ends a message (.finish n) r ∧ R e' none := by
  obtain ⟨e₁, hstart, h₁⟩ := hR.start a h
  obtain ⟨e₂, hwrite, h₂⟩ := hR.write message h₁
  obtain ⟨r, e₃, hend, hr, h₃⟩ := hR.ending h₂ (.finish n)
  have hclose : Hash.contiguous a message n e = Hash.close a n e₂ := by
    have hfed : feeding (Engine.write message) e₁ = (.ok (), e₂) := by rw [feeding, hwrite]
    unfold Hash.contiguous
    rw [bind_apply, hstart]
    dsimp only
    rw [bind_apply, hfed]
  refine ⟨r, e₃, ?_, hr, h₃⟩
  change (some <$> Hash.contiguous a message n) e = _
  rw [map_apply, hclose, ← hend]
  exact (map_apply some (Hash.close a n) e₂).symm

/-- **Every use follows the automaton.** -/
theorem Simulates.step (hR : Simulates R) (h : R e s) (u : Use) :
    ∃ r e' t, u.step e = (r, e') ∧ Rule s u r t ∧ R e' t := by
  cases u with
  | start a =>
    cases s with
    | none =>
      obtain ⟨e', hstep, h'⟩ := hR.start a h
      exact ⟨_, e', _, map_of_eq _ hstep, .start, h'⟩
    | some d =>
      obtain ⟨e', hstep, h'⟩ := hR.start_busy a h
      exact ⟨_, e', _, map_of_eq _ hstep, .start_busy, h'⟩
  | write bs =>
    cases s with
    | none =>
      obtain ⟨e', hstep, h'⟩ := hR.write_idle bs h
      exact ⟨_, e', _, map_of_eq _ hstep, .write_idle, h'⟩
    | some d =>
      obtain ⟨e', hstep, h'⟩ := hR.write bs h
      exact ⟨_, e', _, map_of_eq _ hstep, .write, h'⟩
  | finish n =>
    cases s with
    | none =>
      obtain ⟨e', hstep, h'⟩ := hR.finish_idle n h
      exact ⟨_, e', _, map_of_eq _ hstep, .finish_idle, h'⟩
    | some d =>
      obtain ⟨a, w⟩ := d
      by_cases hn : n = a.size
      · subst hn
        obtain ⟨e', hstep, h'⟩ := hR.finish h
        exact ⟨_, e', _, map_of_eq _ hstep, .finish (.finish (length_digest a w).symm), h'⟩
      · obtain ⟨e', hstep, h'⟩ := hR.finish_wrongSize h hn
        exact ⟨_, e', _, map_of_eq _ hstep, .finish (.finish_wrongSize (length_digest a w ▸ hn)), h'⟩
  | cancel => exact ⟨.ok none, Engine.cancel e, none, rfl, .cancel, hR.cancel h⟩
  | session a pieces x =>
    cases s with
    | none =>
      obtain ⟨r, e', hstep, hr, h'⟩ := hR.session h a pieces x
      exact ⟨r, e', _, hstep, .session hr, h'⟩
    | some d =>
      obtain ⟨e', hstep, h'⟩ := hR.start_bind h a fun _ =>
        Hash.writeAnyway pieces >>= fun _ => x.step a
      exact ⟨_, e', _, hstep, .session_busy, h'⟩
  | contiguous a message n =>
    cases s with
    | none =>
      obtain ⟨r, e', hstep, hr, h'⟩ := hR.contiguous h a message n
      exact ⟨r, e', _, hstep, .contiguous hr, h'⟩
    | some d =>
      obtain ⟨e', hstep, h'⟩ := hR.start_bind h a fun _ =>
        feeding (Engine.write message) >>= fun _ => Hash.close a n
      exact ⟨_, e', _, map_of_eq some hstep, .contiguous_busy, h'⟩

/-- **So does every run.** -/
theorem Simulates.run (hR : Simulates R) (h : R e s) (us : List Use) :
    ∃ t, Runs s us (runAll us e).1 t ∧ R (runAll us e).2 t := by
  refine Automaton.runs_useAll (fun {e s} u h => ?_) h us
  obtain ⟨r, e', t, hstep, hr, h'⟩ := hR.step h u
  rw [hstep]
  exact ⟨t, hr, h'⟩

end simulation

/-! ### From idle on -/

/-- What an engine answers from idle on is what the automaton answers, with all that follows from it. -/
structure Automatic {η : Type} [Engine η] (idle : η) (busy : η → Bool) : Prop where
  /-- Every run is the one run of the automaton. -/
  answers : ∀ (us : List Use) (rs : List Answer), rs = (runAll us idle).1 ↔ ∃ s, Runs none us rs s
  /-- There is a session where the automaton has one, and it holds what was written since its start. -/
  session : ∀ {us : List Use} {rs : List Answer} {s : Session}, Runs none us rs s →
    busy (runAll us idle).2 = s.isSome ∧ ∀ a w, s = some (a, w) ↔ OpenedBy us a w
  /-- The digest does not depend on the cuts between writes. -/
  pieces : ∀ (us : List Use) (a : Algorithm) (pieces : List Bytes) (x : Ending),
    answer idle us (.session a pieces x) = answer idle us (.session a [pieces.flatten] x)
  contiguous : ∀ (us : List Use) (a : Algorithm) (message : Bytes) (n : Nat),
    answer idle us (.contiguous a message n) = answer idle us (.session a [message] (.finish n))
  calls : ∀ (us : List Use) (a : Algorithm) (pieces : List Bytes) (n : Nat),
    busy (runAll us idle).2 = false →
      answer idle (us ++ .start a :: pieces.map .write) (.finish n) =
        answer idle us (.contiguous a pieces.flatten n)
  /-- To expect bytes is to compare them with the digest. -/
  expect : ∀ (us : List Use) (a : Algorithm) (pieces : List Bytes) (x : Bytes),
    answer idle us (.session a pieces (.expect x)) = .ok none ↔
      answer idle us (.session a pieces (.finish a.size)) = .ok (some x)

section idle
variable {η : Type} [Engine η] {R : η → Session → Prop} {idle : η} {busy : η → Bool}

/-- The answer to one more use. -/
theorem Simulates.answer (hR : Simulates R) (h : R idle none) {us : List Use} {rs : List Answer}
    {s : Session} (hs : Runs none us rs s) (u : Use) : ∃ t, Rule s u (Hash.answer idle us u) t := by
  obtain ⟨s', hs', hstate⟩ := hR.run h us
  obtain ⟨-, rfl⟩ := hs.unique Rule.unique hs'
  obtain ⟨r, e', t, hstep, hr, -⟩ := hR.step hstate u
  refine ⟨t, ?_⟩
  unfold Hash.answer
  rw [hstep]
  exact hr

theorem Simulates.automatic (hR : Simulates R) (h : R idle none)
    (hbusy : ∀ {e s}, R e s → busy e = s.isSome) : Automatic idle busy where
  answers us rs := by
    obtain ⟨s, hs, -⟩ := hR.run h us
    constructor
    · rintro rfl
      exact ⟨s, hs⟩
    · rintro ⟨s', hs'⟩
      exact (hs'.unique Rule.unique hs).1
  session {us rs s} hs := by
    obtain ⟨s', hs', hstate⟩ := hR.run h us
    obtain ⟨-, rfl⟩ := hs.unique Rule.unique hs'
    exact ⟨hbusy hstate, fun a w => hs.opened_iff⟩
  pieces us a pieces x := by
    obtain ⟨s, hs, -⟩ := hR.run h us
    obtain ⟨t, hr⟩ := hR.answer h hs (.session a pieces x)
    obtain ⟨t', hr'⟩ := hR.answer h hs (.session a [pieces.flatten] x)
    exact ((hr.of_flatten (by simp)).unique hr').1
  contiguous us a message n := by
    obtain ⟨s, hs, -⟩ := hR.run h us
    obtain ⟨t, hr⟩ := hR.answer h hs (.contiguous a message n)
    obtain ⟨t', hr'⟩ := hR.answer h hs (.session a [message] (.finish n))
    exact (hr.of_contiguous.unique hr').1
  calls us a pieces n hidle := by
    obtain ⟨s, hs, hstate⟩ := hR.run h us
    obtain rfl : s = none := Option.not_isSome_iff_eq_none.1 (by rw [← hbusy hstate, hidle]; simp)
    obtain ⟨s', hcalls, -⟩ := hR.run hstate (.start a :: pieces.map .write)
    obtain ⟨t, hr⟩ := hR.answer h (hs.append hcalls) (.finish n)
    obtain ⟨t', hr'⟩ := hR.answer h hs (.contiguous a pieces.flatten n)
    have hsession : Rule none (.session a [pieces.flatten] (.finish n)) _ none :=
      (Rule.of_calls hcalls hr).of_flatten (by simp)
    exact (hsession.unique hr'.of_contiguous).1
  expect us a pieces x := by
    obtain ⟨s, hs, -⟩ := hR.run h us
    obtain ⟨t, hr⟩ := hR.answer h hs (.session a pieces (.expect x))
    obtain ⟨t', hr'⟩ := hR.answer h hs (.session a pieces (.finish a.size))
    exact hr.expect_iff hr'

end idle

/-! ### The software engine, and engines over contexts -/

theorem simulates_softEngine : Simulates fun (e : SoftEngine) s => Lawful.session e = s where
  start {e} a h := by
    cases e with
    | idle => exact ⟨_, rfl, rfl⟩
    | hashing b v => cases h
  start_busy {e s} a h := by
    cases e with
    | idle => cases h
    | hashing b v => exact ⟨_, rfl, h⟩
  write {e a w} bs h := by
    cases e with
    | idle => cases h
    | hashing b v => exact ⟨_, rfl, Lawful.session_write h rfl⟩
  write_idle {e} bs h := by
    cases e with
    | idle => exact ⟨_, rfl, rfl⟩
    | hashing b v => cases h
  finish {e a w} h := by
    cases e with
    | idle => cases h
    | hashing b v =>
      cases h
      exact ⟨_, if_pos rfl, rfl⟩
  finish_wrongSize {e a w n} h hn := by
    cases e with
    | idle => cases h
    | hashing b v =>
      cases h
      exact ⟨_, if_neg hn, rfl⟩
  finish_idle {e} n h := by
    cases e with
    | idle => exact ⟨_, rfl, rfl⟩
    | hashing b v => cases h
  cancel _ := rfl

namespace Over

/-- The context has taken in the bytes of the session in some pieces. -/
inductive Holds {κ : Type} [Context κ] : Over κ → Session → Prop
  | idle : Holds .idle none
  | hashing (a : Algorithm) (pieces : List Bytes) :
      Holds (.hashing (pieces.foldl Context.update (Context.new a))) (some (a, pieces.flatten))

variable {κ : Type} [Context κ]

theorem Holds.write {c : κ} {a : Algorithm} {w : Bytes} (h : Holds (.hashing c) (some (a, w))) (bs : Bytes) :
    Holds (.hashing (Context.update c bs)) (some (a, w ++ bs)) := by
  cases h with
  | hashing _ pieces => simpa using Holds.hashing (κ := κ) a (pieces ++ [bs])

theorem simulates [Incremental κ] : Simulates (Holds (κ := κ)) where
  start a h := by
    cases h
    exact ⟨_, rfl, .hashing a []⟩
  start_busy a h := by
    cases h with
    | hashing b pieces => exact ⟨_, rfl, .hashing b pieces⟩
  write {e a w} bs h := by
    cases e with
    | idle => cases h
    | hashing c => exact ⟨_, rfl, h.write bs⟩
  write_idle bs h := by
    cases h
    exact ⟨_, rfl, .idle⟩
  finish {e a w} h := by
    cases h with
    | hashing _ pieces =>
      refine ⟨.idle, ?_, .idle⟩
      rw [← Incremental.finish_update (κ := κ)]
      exact if_pos (Incremental.size_update a pieces).symm
  finish_wrongSize {e a w n} h hn := by
    cases h with
    | hashing _ pieces =>
      refine ⟨.idle, ?_, .idle⟩
      rw [← Incremental.size_update (κ := κ) a pieces] at hn
      exact if_neg hn
  finish_idle n h := by
    cases h
    exact ⟨_, rfl, .idle⟩
  cancel _ := .idle

theorem Holds.isBusy {e : Over κ} {s : Session} (h : Holds e s) : e.isBusy = s.isSome := by
  cases h <;> rfl

end Over

/-- **Engines are automata of sessions**: the one that keeps the bytes, and every one that keeps a context. -/
theorem engines_automatic (κ : Type) [Context κ] [Incremental κ] :
    Automatic SoftEngine.idle SoftEngine.isBusy ∧ Automatic (Over.idle : Over κ) Over.isBusy := by
  refine ⟨simulates_softEngine.automatic rfl fun {e s} h => ?_,
    Over.simulates.automatic .idle Over.Holds.isBusy⟩
  subst h
  cases e <;> rfl

/-- A start within a session and a buffer of the wrong size, for an engine over streams of SHA-2. -/
theorem streams_automatic : Automatic (Over.idle : Over Streamed) Over.isBusy ∧
    (runAll [.start .sha384, .write [1], .start .sha512, .write [2], .finish 32, .finish 48]
      (Over.idle : Over Streamed)).1 =
      [.ok none, .ok none, .error .busy, .ok none, .error .wrongSize, .error .idle] :=
  ⟨(engines_automatic Streamed).2, rfl⟩

end Hash

end PlatformGuard
