/-!
# Steps that change a state and may fail

Readers, devices, engines and sessions are all written as steps of one kind: from a state to a result
and a state.  What a composed step does is said here once, so that no later proof opens the monads.
-/

namespace PlatformGuard.Steps

variable {σ ε δ α β : Type}

/-! ### What a step does -/

theorem bind_apply (x : ExceptT ε (StateM σ) α) (f : α → ExceptT ε (StateM σ) β) (s : σ) :
    (x >>= f) s = match x s with
      | (.ok a, t) => f a t
      | (.error e, t) => (.error e, t) := by
  change (match x s with | (r, t) => (ExceptT.bindCont f r : StateM σ _) t) = _
  rcases x s with ⟨_ | _, _⟩ <;> rfl

@[simp]
theorem get_apply (s : σ) : (get : ExceptT ε (StateM σ) σ) s = (.ok s, s) := rfl

@[simp]
theorem map_apply (f : α → β) (x : ExceptT ε (StateM σ) α) (s : σ) :
    (f <$> x) s = ((x s).1.map f, (x s).2) := by
  rw [← bind_pure_comp, bind_apply]
  rcases x s with ⟨_ | _, _⟩ <;> rfl

@[simp]
theorem ofExcept_apply (x : Except ε α) (s : σ) :
    (MonadExcept.ofExcept x : ExceptT ε (StateM σ) α) s = (x, s) := by
  cases x <;> rfl

@[simp]
theorem adapt_apply (f : ε → δ) (x : ExceptT ε (StateM σ) α) (s : σ) :
    (ExceptT.adapt f x) s = ((x s).1.mapError f, (x s).2) := by
  change (match x s with | (r, t) => (Except.mapError f r, t)) = _
  rcases x s with ⟨_ | _, _⟩ <;> rfl

/-! ### Taking a successful step apart -/

theorem bind_eq_ok {x : ExceptT ε (StateM σ) α} {f : α → ExceptT ε (StateM σ) β} {s u : σ} {b : β} :
    (x >>= f) s = (.ok b, u) ↔ ∃ a t, x s = (.ok a, t) ∧ f a t = (.ok b, u) := by
  rw [bind_apply]
  constructor
  · intro h
    split at h
    · exact ⟨_, _, by assumption, h⟩
    · cases h
  · rintro ⟨a, t, hx, hf⟩
    rw [hx]
    exact hf

theorem bind_eq_error {x : ExceptT ε (StateM σ) α} {f : α → ExceptT ε (StateM σ) β} {s u : σ}
    {e : ε} : (x >>= f) s = (.error e, u) ↔
      x s = (.error e, u) ∨ ∃ a t, x s = (.ok a, t) ∧ f a t = (.error e, u) := by
  rw [bind_apply]
  rcases hx : x s with ⟨e' | a, t⟩
  · constructor
    · intro h
      cases h
      exact .inl rfl
    · rintro (h | ⟨a, t, h, -⟩)
      · cases h
        rfl
      · cases h
  · constructor
    · intro h
      exact .inr ⟨a, t, rfl, h⟩
    · rintro (h | ⟨a, t, h, hf⟩)
      · cases h
      · cases h
        exact hf

/-- A failure that is renamed stays a failure. -/
theorem mapError_eq_ok {f : ε → δ} {x : Except ε α} {a : α} :
    x.mapError f = .ok a ↔ x = .ok a := by
  cases x with
  | error e =>
    constructor
    · intro h
      cases h
    · intro h
      cases h
  | ok b =>
    constructor
    · intro h
      rw [Except.ok.inj h]
    · intro h
      rw [Except.ok.inj h]
      rfl

theorem adapt_eq_ok {f : ε → δ} {x : ExceptT ε (StateM σ) α} {s t : σ} {a : α} :
    ExceptT.adapt f x s = (.ok a, t) ↔ x s = (.ok a, t) := by
  rw [adapt_apply]
  constructor
  · intro h
    obtain ⟨hr, rfl⟩ := Prod.mk.inj h
    exact Prod.ext (mapError_eq_ok.1 hr) rfl
  · intro h
    rw [h]
    rfl

theorem map_eq_ok {f : α → β} {x : Except ε α} {b : β} :
    x.map f = .ok b ↔ ∃ a, x = .ok a ∧ f a = b := by
  cases x <;> simp [Except.map]

theorem exceptBind_eq_ok {x : Except ε α} {f : α → Except ε β} {b : β} :
    (x >>= f) = .ok b ↔ ∃ a, x = .ok a ∧ f a = .ok b := by
  cases x <;> simp [bind, Except.bind]

/-! ### The value of a success -/

theorem toOption_eq_some {x : Except ε α} {a : α} : x.toOption = some a ↔ x = .ok a := by
  cases x <;> simp [Except.toOption]

theorem toOption_mapError (f : ε → δ) (x : Except ε α) : (x.mapError f).toOption = x.toOption := by
  cases x <;> rfl

end PlatformGuard.Steps
