import PlatformGuard.Proofs.Streaming
import Mathlib.Data.List.Induction

/-!
# Updates that are refused

An updater refuses to prepare an update in the wrong phase, for a size that does not fit, or because its
device fails to erase the region.  The last refusal comes after the size was declared, and the size stays
behind in an idle updater.  Two updaters that differ in nothing else (`SameButSize`) are followed call by
call: they answer alike, and the difference is gone as soon as either is open or released.
-/

namespace PlatformGuard.Updater

open Update Flash

variable {φ : Type} [Flash φ] {u v : Updater φ} {r : Except Update.Error Unit}

/-! ### Runs -/

/-- The updater after some calls. -/
def run (u : Updater φ) (cs : List Call) : Updater φ := cs.foldl (fun u c => (c.step u).2) u

/-- The answers of some calls. -/
def answers (u : Updater φ) : List Call → List (Except Update.Error Unit)
  | [] => []
  | c :: cs => (c.step u).1 :: (c.step u).2.answers cs

theorem run_snoc (u : Updater φ) (cs : List Call) (c : Call) :
    u.run (cs ++ [c]) = (c.step (u.run cs)).2 := by
  simp [run]

/-- Among some calls there is an update of `n` bytes that the device refused to erase for, and no release
after it. -/
def LeavesSize (u : Updater φ) (cs : List Call) (n : Nat) : Prop :=
  ∃ before later cause, cs = before ++ .prepareErased n :: later ∧ .release ∉ later ∧
    (prepareErased n (u.run before)).1 = .error (.flash cause)

theorem LeavesSize.snoc {cs : List Call} {c : Call} {n : Nat} (h : LeavesSize u cs n) (hc : c ≠ .release) :
    LeavesSize u (cs ++ [c]) n := by
  obtain ⟨before, later, cause, rfl, hlater, hfail⟩ := h
  refine ⟨before, later ++ [c], cause, by simp, ?_, hfail⟩
  simp [hlater, hc.symm]

/-- An idle updater has written nothing, and what it has declared is left from a refusal. -/
theorem idle_run {f : φ} {region : Region} {unit : EraseUnit} {u₀ : Updater φ}
    (h : start f region unit = .ok u₀) (cs : List Call) (hp : (u₀.run cs).phase = .idle) :
    (u₀.run cs).written = 0 ∧ (u₀.run cs).erased = 0 ∧
      ((u₀.run cs).updateSize = 0 ∨ LeavesSize u₀ cs (u₀.run cs).updateSize) := by
  induction cs using List.reverseRecOn with
  | nil =>
    obtain ⟨-, -, rfl⟩ := Steps.map_eq_ok.1 h
    exact ⟨rfl, rfl, .inl rfl⟩
  | append_singleton cs c ih =>
    rw [run_snoc] at hp ⊢
    rcases hstep : c.step (u₀.run cs) with ⟨r, v⟩
    rw [hstep] at hp
    dsimp only
    rcases idle_of_call hstep hp with ⟨-, hs, hw, he⟩ | ⟨hu, hs, hw, he⟩ | ⟨n, cause, rfl, rfl, hs, hw, he⟩
    · exact ⟨hw, he, .inl hs⟩
    · rw [hs, hw, he]
      obtain ⟨hw', he', hs'⟩ := ih hu
      refine ⟨hw', he', ?_⟩
      by_cases hc : c = .release
      · subst hc
        cases hstep
        exact .inl hs.symm
      · exact hs'.imp_right fun hl => hl.snoc hc
    · rw [hs]
      exact ⟨hw, he, .inr ⟨cs, [], cause, rfl, by simp, congrArg Prod.fst hstep⟩⟩

/-! ### What does not depend on the size -/

/-- Two updaters are the same, or both are idle and the same but for the declared size. -/
inductive SameButSize (u : Updater φ) : Updater φ → Prop
  | same : SameButSize u u
  | idle (hu : u.phase = .idle) (n : Nat) : SameButSize u { u with updateSize := n }

namespace SameButSize

omit [Flash φ] in
/-- Preparing an update overwrites the declared size, or fails whatever it is. -/
theorem declare_bind (hu : u.phase = .idle) (m n : Nat) (k : Unit → Step φ Unit) :
    ((declare n >>= k) u).1 = ((declare n >>= k) { u with updateSize := m }).1 ∧
      SameButSize ((declare n >>= k) u).2 ((declare n >>= k) { u with updateSize := m }).2 := by
  simp only [Steps.bind_apply, declare, checkSize, if_pos hu]
  by_cases hn : n ≤ u.region.length.toNat
  · simp only [if_pos hn, true_and]
    exact .same
  · simp only [if_neg hn, true_and]
    exact .idle hu m

/-- **One call of two updaters.** -/
theorem call (h : SameButSize u v) (c : Call) :
    (c.step u).1 = (c.step v).1 ∧ SameButSize (c.step u).2 (c.step v).2 := by
  cases h with
  | same => exact ⟨rfl, .same⟩
  | idle hu m =>
    cases c with
    | applyOffset offset =>
      show (applyOffset offset u).1 = (applyOffset offset _).1 ∧
        SameButSize (applyOffset offset u).2 (applyOffset offset _).2
      unfold applyOffset
      by_cases hc : u.phase = .idle ∧ offset.toNat % u.granularity = 0 ∧ offset ≤ u.region.length
      · simp only [if_pos hc, true_and]
        refine .idle ?_ m
        exact hu
      · simp only [if_neg hc, true_and]
        exact .idle hu m
    | prepare n => exact declare_bind hu m n _
    | prepareErased n => exact declare_bind hu m n _
    | write data =>
      show (write data u).1 = (write data _).1 ∧ SameButSize (write data u).2 (write data _).2
      rw [write_of_idle hu, write_of_idle (u := { u with updateSize := m }) hu]
      exact ⟨rfl, .idle hu m⟩
    | release => exact ⟨rfl, .same⟩

theorem run (h : SameButSize u v) (cs : List Call) :
    u.answers cs = v.answers cs ∧ SameButSize (u.run cs) (v.run cs) := by
  induction cs generalizing u v with
  | nil => exact ⟨rfl, h⟩
  | cons c cs ih =>
    obtain ⟨hanswer, hstep⟩ := h.call c
    obtain ⟨hanswers, hrun⟩ := ih hstep
    refine ⟨?_, hrun⟩
    unfold answers
    rw [hanswer, hanswers]

/-- A release takes the difference away. -/
theorem run_eq {cs : List Call} (h : SameButSize u v) (hr : .release ∈ cs) : u.run cs = v.run cs := by
  induction cs generalizing u v with
  | nil => cases hr
  | cons c cs ih =>
    show (c.step u).2.run cs = (c.step v).2.run cs
    rcases List.mem_cons.1 hr with rfl | hr
    · have hreleased : (Call.release.step u).2 = (Call.release.step v).2 := by cases h <;> rfl
      rw [hreleased]
    · exact ih (h.call c).2 hr

end SameButSize

/-- **What a refusal leaves behind.**  After any calls, an idle updater reports bytes that remain only if
they were declared by an update that its device refused to erase for.  A call to prepare that fails leaves
the phase, the region and the write offset, and changes nothing at all unless it is such an update, of which
the declared size stays.  In either case all later calls are answered as if it had not been made, and the
updaters stay the same but for the size that an idle one has declared, until they are released. -/
theorem prepare_refused {f : φ} {region : Region} {unit : EraseUnit} {u₀ : Updater φ}
    (h : start f region unit = .ok u₀) (cs : List Call) :
    let u := u₀.run cs
    (u.phase = .idle → u.remaining = 0 ∨ LeavesSize u₀ cs u.remaining) ∧
    ∀ (c : Call) n e v, (c = .prepare n ∨ c = .prepareErased n) → c.step u = (.error e, v) →
      let w := { u with device := v.device }
      (v.phase = u.phase ∧ v.region = u.region ∧ v.written = u.written) ∧
      (v = u ∨ (c = .prepareErased n ∧ u.phase = .idle ∧ v = { w with updateSize := n } ∧
        v.remaining = n ∧ ∃ cause, e = .flash cause ∧
          Flash.erase u.region u.device = (.error cause, v.device))) ∧
      ∀ more, w.answers more = v.answers more ∧ SameButSize (w.run more) (v.run more) ∧
        (.release ∈ more → w.run more = v.run more) := by
  intro u
  refine ⟨fun hp => ?_, fun c n e v hc hstep => ?_⟩
  · obtain ⟨hw, -, hs⟩ := idle_run h cs hp
    rw [remaining, hw, Nat.sub_zero]
    exact hs
  · intro w
    -- a refusal before the device is asked
    have hkept : v = u → (v.phase = u.phase ∧ v.region = u.region ∧ v.written = u.written) ∧
        ∀ more, w.answers more = v.answers more ∧ SameButSize (w.run more) (v.run more) ∧
          (.release ∈ more → w.run more = v.run more) := by
      rintro rfl
      exact ⟨⟨rfl, rfl, rfl⟩, fun more => ⟨rfl, .same, fun _ => rfl⟩⟩
    rcases hc with rfl | rfl
    · rcases prepare_cases hstep with ⟨hr, -⟩ | ⟨-, hv⟩
      · cases hr
      · exact ⟨(hkept hv).1, .inl hv, (hkept hv).2⟩
    · rcases prepareErased_cases hstep with ⟨hr, -⟩ | ⟨-, hv⟩ | ⟨cause, hr, hp, herase, hv⟩
      · cases hr
      · exact ⟨(hkept hv).1, .inl hv, (hkept hv).2⟩
      · cases hr
        obtain ⟨hw, he, -⟩ := idle_run h cs hp
        have hsize : v = { w with updateSize := n } := by
          rw [hv]
          simp only [w, u, hw, he]
        have hidle : w.phase = .idle := hp
        have hsame : SameButSize w v := hsize ▸ .idle hidle n
        have hwritten : v.written = 0 := by rw [hv]
        refine ⟨⟨by rw [hsize], by rw [hsize], by rw [hsize]⟩, .inr ⟨rfl, hp, hsize, ?_, cause, rfl, herase⟩,
          fun more => ⟨(hsame.run more).1, (hsame.run more).2, hsame.run_eq⟩⟩
        rw [remaining, hwritten, hv]
        rfl

/-- A device that refuses two erases, each for its own reason. -/
def refusingDevice : Scripted := ⟨[.error .internal, .error .locked]⟩

def refusedUpdater : Updater Scripted :=
  { device := refusingDevice, region := ⟨16, 16⟩, granularity := 8 }

theorem refusedUpdater_refused :
    let u := refusedUpdater.run [.prepareErased 5]
    let v := (prepareErased 6 u).2
    let w := { u with device := v.device }
    start refusingDevice ⟨16, 16⟩ .sector = .ok refusedUpdater ∧
    (u.phase = .idle ∧ (u.remaining = 0 ∨ LeavesSize refusedUpdater [.prepareErased 5] u.remaining)) ∧
    (prepareErased 6 u).1 = .error (.flash .locked) ∧
    (v.phase = u.phase ∧ v.region = u.region ∧ v.written = u.written) ∧
      (∀ more, w.answers more = v.answers more ∧ SameButSize (w.run more) (v.run more)) ∧
      w.run [.release] = v.run [.release] := by
  intro u v w
  have hstart : start refusingDevice ⟨16, 16⟩ .sector = .ok refusedUpdater := rfl
  have hidle : u.phase = .idle := rfl
  have hstep : (Call.prepareErased 6).step u = (.error (.flash .locked), v) := rfl
  obtain ⟨hleft, hrefused⟩ := prepare_refused hstart [.prepareErased 5]
  obtain ⟨hsame, -, hlater⟩ := hrefused (.prepareErased 6) 6 _ v (.inr rfl) hstep
  exact ⟨hstart, ⟨hidle, hleft hidle⟩, rfl, hsame, fun more => ⟨(hlater more).1, (hlater more).2.1⟩,
    (hlater [.release]).2.2 (List.mem_singleton_self _)⟩

/-- **A refused update is reported.**  Its bytes remain to be written, in an idle updater. -/
theorem refusedUpdater_remaining :
    start refusingDevice ⟨16, 16⟩ .sector = .ok refusedUpdater ∧ refusedUpdater.remaining = 0 ∧
    (prepareErased 5 refusedUpdater).1 = .error (.flash .internal) ∧
    (prepareErased 5 refusedUpdater).2.phase = .idle ∧
      (prepareErased 5 refusedUpdater).2.remaining = 5 :=
  ⟨rfl, rfl, rfl, rfl, rfl⟩

end PlatformGuard.Updater
