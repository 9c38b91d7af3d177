/-!
# Runs

Things are used again and again, whatever they answer.  What such a run answers can be told in two ways: by
the thing itself (`useAll`), and by an automaton with a rule for each use (`Runs`).  A thing of which every
single use follows the rule follows it in every run.
-/

namespace PlatformGuard.Automaton

variable {σ τ υ α : Type}

/-! ### Things that are used -/

/-- Uses one after another: all answers, and the state in the end. -/
def useAll (step : υ → σ → α × σ) : List υ → σ → List α × σ
  | [], s => ([], s)
  | u :: us, s =>
    let rest := useAll step us (step u s).2
    ((step u s).1 :: rest.1, rest.2)

/-- Two things that answer each use alike, and stay alike, answer all of them alike. -/
theorem useAll_alike {ψ : Type} {step : υ → σ → α × σ} {step' : υ → ψ → α × ψ} {R : σ → ψ → Prop}
    (hstep : ∀ {s t} u, R s t → (step u s).1 = (step' u t).1 ∧ R (step u s).2 (step' u t).2) {s : σ} {t : ψ}
    (h : R s t) (us : List υ) :
    (useAll step us s).1 = (useAll step' us t).1 ∧ R (useAll step us s).2 (useAll step' us t).2 := by
  induction us generalizing s t with
  | nil => exact ⟨rfl, h⟩
  | cons u us ih =>
    obtain ⟨hr, halike⟩ := hstep u h
    obtain ⟨hrs, hend⟩ := ih halike
    simp only [useAll]
    rw [hr, hrs]
    exact ⟨rfl, hend⟩

/-! ### Automata -/

/-- The answers to uses one after another, and the state in the end. -/
inductive Runs (rule : τ → υ → α → τ → Prop) : τ → List υ → List α → τ → Prop
  | nil {s : τ} : Runs rule s [] [] s
  | cons {s t v : τ} {u : υ} {us : List υ} {r : α} {rs : List α} :
      rule s u r t → Runs rule t us rs v → Runs rule s (u :: us) (r :: rs) v

namespace Runs

variable {rule : τ → υ → α → τ → Prop} {s t v : τ} {us vs : List υ} {rs rs' : List α}

theorem append (h : Runs rule s us rs t) (h' : Runs rule t vs rs' v) :
    Runs rule s (us ++ vs) (rs ++ rs') v := by
  induction h with
  | nil => exact h'
  | cons hr _ ih => exact .cons hr (ih h')

/-- A run is cut wherever its uses are. -/
theorem of_append (h : Runs rule s (us ++ vs) rs v) :
    ∃ rs₁ rs₂ t, rs = rs₁ ++ rs₂ ∧ Runs rule s us rs₁ t ∧ Runs rule t vs rs₂ v := by
  induction us generalizing s rs with
  | nil => exact ⟨[], rs, s, rfl, .nil, h⟩
  | cons u us ih =>
    cases h with
    | cons hr hrs =>
      obtain ⟨rs₁, rs₂, t, rfl, h₁, h₂⟩ := ih hrs
      exact ⟨_, rs₂, t, rfl, .cons hr h₁, h₂⟩

/-- Where the rule leaves no choice, a run has none. -/
theorem unique {t' : τ} (h : Runs rule s us rs t)
    (hrule : ∀ {s u r t r' t'}, rule s u r t → rule s u r' t' → r = r' ∧ t = t')
    (h' : Runs rule s us rs' t') : rs = rs' ∧ t = t' := by
  induction h generalizing rs' with
  | nil =>
    cases h'
    exact ⟨rfl, rfl⟩
  | cons hr _ ih =>
    cases h' with
    | cons hr' hrs' =>
      obtain ⟨rfl, rfl⟩ := hrule hr hr'
      obtain ⟨rfl, rfl⟩ := ih hrs'
      exact ⟨rfl, rfl⟩

/-- What the rule keeps, a run keeps. -/
theorem keeps (h : Runs rule s us rs t) (P : τ → Prop) (hrule : ∀ {s u r t}, rule s u r t → P s → P t)
    (hs : P s) : P t := by
  induction h with
  | nil => exact hs
  | cons hr _ ih => exact ih (hrule hr hs)

end Runs

/-- **Runs follow the rule** if uses do, for a thing whose states stand for states of the automaton. -/
theorem runs_useAll {step : υ → σ → α × σ} {rule : τ → υ → α → τ → Prop} {R : σ → τ → Prop}
    (hstep : ∀ {s t} u, R s t → ∃ t', rule t u (step u s).1 t' ∧ R (step u s).2 t') {s : σ} {t : τ}
    (h : R s t) (us : List υ) :
    ∃ t', Runs rule t us (useAll step us s).1 t' ∧ R (useAll step us s).2 t' := by
  induction us generalizing s t with
  | nil => exact ⟨t, .nil, h⟩
  | cons u us ih =>
    obtain ⟨t₁, hr, h₁⟩ := hstep u h
    obtain ⟨t₂, hrs, h₂⟩ := ih h₁
    exact ⟨t₂, .cons hr hrs, h₂⟩

end PlatformGuard.Automaton
