import PlatformGuard.Proofs.Updating

/-!
# Phases of an updater

An updater is idle until an update is prepared, and open until it is released.  Only a call that prepares an
update opens it (`open_of_call`), and only a release closes it (`staysOpen_call`).  The size that an open
updater has declared is that of the call which opened it; an idle one may have a size left over from a call
that its device refused (`idle_of_call`).
-/

namespace PlatformGuard.Updater

open Update Flash

variable {φ : Type} {u v : Updater φ} {r : Except Update.Error Unit}

/-! ### Calls that leave an updater open -/

section staysOpen
variable {α β : Type}

/-- An updater that is not idle is not idle after a step, and has the same size declared. -/
def StaysOpen (x : Step φ α) : Prop :=
  ∀ u, u.phase ≠ .idle → (x u).2.phase ≠ .idle ∧ (x u).2.updateSize = u.updateSize

theorem StaysOpen.bind {x : Step φ α} {k : α → Step φ β} (hx : StaysOpen x) (hk : ∀ a, StaysOpen (k a)) :
    StaysOpen (x >>= k) := by
  intro u hu
  obtain ⟨ht, hsize⟩ := hx u hu
  rw [Steps.bind_apply]
  rcases hxu : x u with ⟨e | a, t⟩
  · rw [hxu] at ht hsize
    exact ⟨ht, hsize⟩
  · rw [hxu] at ht hsize
    obtain ⟨hv, hsize'⟩ := hk a t ht
    exact ⟨hv, hsize'.trans hsize⟩

end staysOpen

theorem declare_of_open {n : Nat} (hu : u.phase ≠ .idle) : declare n u = (.error .invalidArgument, u) :=
  if_neg hu

/-- An open updater does not prepare another update. -/
theorem staysOpen_declare (n : Nat) (k : Unit → Step φ Unit) : StaysOpen (declare n >>= k) := by
  intro u hu
  rw [Steps.bind_apply, declare_of_open hu]
  exact ⟨hu, rfl⟩

theorem staysOpen_poison (e : Update.Error) : StaysOpen (poison e : Step φ Unit) := by
  intro u _
  exact ⟨nofun, rfl⟩

variable [Flash φ]

theorem staysOpen_eraseUpTo (target : Nat) : StaysOpen (eraseUpTo target : Step φ Unit) := by
  intro u hu
  unfold eraseUpTo
  by_cases ht : target ≤ u.erased
  · rw [if_pos ht]
    exact ⟨hu, rfl⟩
  · rw [if_neg ht]
    dsimp only
    rcases Flash.erase _ u.device with ⟨e | _, f⟩
    · exact staysOpen_poison _ { u with device := f } hu
    · exact ⟨hu, rfl⟩

theorem staysOpen_programNext (data : Bytes) : StaysOpen (programNext data : Step φ Unit) := by
  intro u hu
  unfold programNext
  rcases Flash.program _ data u.device with ⟨e | n, f⟩
  · exact staysOpen_poison _ { u with device := f } hu
  · dsimp only
    split
    · exact staysOpen_poison _ { u with device := f, written := _ } hu
    · exact ⟨hu, rfl⟩

theorem staysOpen_write (data : Bytes) : StaysOpen (write data : Step φ Unit) := by
  refine .bind (fun u hu => ?_) fun _ => .bind (fun u hu => ?_) fun _ => .bind (fun u hu => ⟨hu, rfl⟩)
    fun u => .bind (staysOpen_eraseUpTo _) fun _ => staysOpen_programNext data
  · unfold requireWriting
    split <;> exact ⟨hu, rfl⟩
  · unfold requireSpace
    split
    · exact ⟨hu, rfl⟩
    · exact staysOpen_poison _ u hu

/-- Only a release makes an updater idle. -/
theorem staysOpen_call {c : Call} (hc : c ≠ .release) : StaysOpen (c.step : Step φ Unit) := by
  cases c with
  | applyOffset offset =>
    intro u hu
    show (applyOffset offset u).2.phase ≠ .idle ∧ (applyOffset offset u).2.updateSize = u.updateSize
    unfold applyOffset
    rw [if_neg fun h => hu h.1]
    exact ⟨hu, rfl⟩
  | prepare n => exact staysOpen_declare n _
  | prepareErased n => exact staysOpen_declare n _
  | write data => exact staysOpen_write data
  | release => exact absurd rfl hc

/-! ### Calls of an idle updater -/

omit [Flash φ] in
theorem prepare_cases {n : Nat} (h : prepare n u = (r, v)) :
    (r = .ok () ∧ u.phase = .idle ∧ v.phase = .writing ∧ v.updateSize = n) ∨
      ((∃ e, r = .error e) ∧ v = u) := by
  unfold prepare at h
  rw [Steps.bind_apply] at h
  rcases hd : declare n u with ⟨answer, t⟩
  rw [hd] at h
  rcases declare_cases hd with ⟨rfl, hp, rfl⟩ | ⟨⟨e, rfl⟩, rfl⟩
  · cases h
    exact .inl ⟨rfl, hp, rfl, rfl⟩
  · cases h
    exact .inr ⟨⟨e, rfl⟩, rfl⟩

/-- An update that is refused because of the device was declared. -/
theorem prepareErased_cases {n : Nat} (h : prepareErased n u = (r, v)) :
    (r = .ok () ∧ u.phase = .idle ∧ v.phase = .writing ∧ v.updateSize = n) ∨
      ((∃ e, r = .error e) ∧ v = u) ∨ ∃ cause, r = .error (.flash cause) ∧ u.phase = .idle ∧
        Flash.erase u.region u.device = (.error cause, v.device) ∧
        v = { u with device := v.device, updateSize := n, written := 0, erased := 0 } := by
  unfold prepareErased at h
  rw [Steps.bind_apply] at h
  rcases hd : declare n u with ⟨answer, t⟩
  rw [hd] at h
  rcases declare_cases hd with ⟨rfl, hp, rfl⟩ | ⟨⟨e, rfl⟩, rfl⟩
  · simp only [Steps.bind_apply, eraseRegion] at h
    by_cases hzero : u.region.length = 0
    · rw [if_pos hzero] at h
      cases h
      exact .inl ⟨rfl, hp, rfl, rfl⟩
    · rw [if_neg hzero] at h
      rcases he : Flash.erase u.region u.device with ⟨cause | _, f⟩
      · rw [he] at h
        cases h
        exact .inr (.inr ⟨cause, rfl, hp, rfl, rfl⟩)
      · rw [he] at h
        cases h
        exact .inl ⟨rfl, hp, rfl, rfl⟩
  · cases h
    exact .inr (.inl ⟨⟨e, rfl⟩, rfl⟩)

theorem write_of_idle {data : Bytes} (hu : u.phase = .idle) :
    write data u = (.error .invalidArgument, u) := by
  unfold write
  rw [Steps.bind_apply, requireWriting, if_neg (by simp [hu])]

/-! ### What a call leaves behind -/

/-- The size of the update that a call prepares. -/
def Call.declared? : Call → Option Nat
  | prepare n | prepareErased n => some n
  | applyOffset _ | write _ | release => none

/-- A call of an idle updater opens it, or is refused by the device, or changes no count. -/
theorem call_of_idle {c : Call} (hc : c ≠ .release) (hu : u.phase = .idle) (h : c.step u = (r, v)) :
    (v.phase = .writing ∧ r = .ok () ∧ c.declared? = some v.updateSize) ∨
    (v.phase = .idle ∧ v.updateSize = u.updateSize ∧ v.written = u.written ∧ v.erased = u.erased) ∨
    ∃ n cause, c = .prepareErased n ∧ r = .error (.flash cause) ∧ v.phase = .idle ∧
      v.updateSize = n ∧ v.written = 0 ∧ v.erased = 0 := by
  cases c with
  | applyOffset offset =>
    change applyOffset offset u = (r, v) at h
    unfold applyOffset at h
    split at h <;> cases h <;> exact .inr (.inl ⟨hu, rfl, rfl, rfl⟩)
  | prepare n =>
    rcases prepare_cases h with ⟨hr, -, hw, hsize⟩ | ⟨-, rfl⟩
    · exact .inl ⟨hw, hr, congrArg some hsize.symm⟩
    · exact .inr (.inl ⟨hu, rfl, rfl, rfl⟩)
  | prepareErased n =>
    rcases prepareErased_cases h with ⟨hr, -, hw, hsize⟩ | ⟨-, rfl⟩ | ⟨cause, hr, -, -, heq⟩
    · exact .inl ⟨hw, hr, congrArg some hsize.symm⟩
    · exact .inr (.inl ⟨hu, rfl, rfl, rfl⟩)
    · rw [heq]
      exact .inr (.inr ⟨n, cause, rfl, hr, hu, rfl, rfl, rfl⟩)
  | write data =>
    cases (write_of_idle hu).symm.trans h
    exact .inr (.inl ⟨hu, rfl, rfl, rfl⟩)
  | release => exact absurd rfl hc

/-- A call of an open updater leaves it open, and prepares no other update. -/
theorem call_of_open {c : Call} (hc : c ≠ .release) (hu : u.phase ≠ .idle) (h : c.step u = (r, v)) :
    v.phase ≠ .idle ∧ v.updateSize = u.updateSize ∧ (r = .ok () → c.declared? = none) := by
  obtain ⟨hopen, hsize⟩ := staysOpen_call hc u hu
  rw [h] at hopen hsize
  refine ⟨hopen, hsize, ?_⟩
  rintro rfl
  cases c with
  | prepare n =>
    rcases prepare_cases h with ⟨-, hidle, -⟩ | ⟨⟨e, he⟩, -⟩
    · exact absurd hidle hu
    · cases he
  | prepareErased n =>
    rcases prepareErased_cases h with ⟨-, hidle, -⟩ | ⟨⟨e, he⟩, -⟩ | ⟨cause, he, -⟩
    · exact absurd hidle hu
    · cases he
    · cases he
  | applyOffset | write | release => rfl

/-- How a call can leave an updater idle. -/
theorem idle_of_call {c : Call} (h : c.step u = (r, v)) (hv : v.phase = .idle) :
    (c = .release ∧ v.updateSize = 0 ∧ v.written = 0 ∧ v.erased = 0) ∨
    (u.phase = .idle ∧ v.updateSize = u.updateSize ∧ v.written = u.written ∧ v.erased = u.erased) ∨
    ∃ n cause, c = .prepareErased n ∧ r = .error (.flash cause) ∧
      v.updateSize = n ∧ v.written = 0 ∧ v.erased = 0 := by
  by_cases hc : c = .release
  · subst hc
    cases h
    exact .inl ⟨rfl, rfl, rfl, rfl⟩
  · by_cases hu : u.phase = .idle
    · rcases call_of_idle hc hu h with ⟨hw, -⟩ | ⟨-, hsame⟩ | ⟨n, cause, hn, hr, -, hsize⟩
      · rw [hw] at hv
        cases hv
      · exact .inr (.inl ⟨hu, hsame⟩)
      · exact .inr (.inr ⟨n, cause, hn, hr, hsize⟩)
    · exact absurd hv (call_of_open hc hu h).1

/-- How a call can leave an updater open: either it has opened it, or the updater was open and the call has
prepared no other update. -/
theorem open_of_call {c : Call} (h : c.step u = (r, v)) (hv : v.phase ≠ .idle) :
    (u.phase = .idle ∧ r = .ok () ∧ c.declared? = some v.updateSize) ∨
    (u.phase ≠ .idle ∧ v.updateSize = u.updateSize ∧ (r = .ok () → c.declared? = none)) := by
  have hc : c ≠ .release := by
    rintro rfl
    cases h
    exact hv rfl
  by_cases hu : u.phase = .idle
  · rcases call_of_idle hc hu h with ⟨-, hopened⟩ | ⟨hidle, -⟩ | ⟨n, cause, -, -, hidle, -⟩
    · exact .inl ⟨hu, hopened⟩
    · exact absurd hidle hv
    · exact absurd hidle hv
  · exact .inr ⟨hu, (call_of_open hc hu h).2⟩

end PlatformGuard.Updater
