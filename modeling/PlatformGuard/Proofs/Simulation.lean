import PlatformGuard.Proofs.Reading

/-!
# Decoders that agree

One decoder simulates another up to a relation `R` if on every byte string both fail for the same reason,
or both succeed with values that `R` relates, and they leave the same bytes.  Simulation composes along
binds and along lists, so two readers of one format are compared field by field.
-/

namespace PlatformGuard

variable {ε α β γ δ : Type}

/-- Both are the same failure, or both are successes with values that `R` relates. -/
inductive Agree (R : β → α → Prop) : Except ε β → Except ε α → Prop
  | ok {b : β} {a : α} : R b a → Agree R (.ok b) (.ok a)
  | error (e : ε) : Agree R (.error e) (.error e)

namespace Agree

variable {R : β → α → Prop} {S : δ → γ → Prop} {x : Except ε β} {y : Except ε α}

theorem ok_iff {b : β} : Agree R (.ok b) y ↔ ∃ a, y = .ok a ∧ R b a := by
  constructor
  · intro h
    cases h with
    | ok h => exact ⟨_, rfl, h⟩
  · rintro ⟨a, rfl, h⟩
    exact .ok h

theorem error_iff {e : ε} : Agree R (.error e) y ↔ y = .error e := by
  constructor
  · intro h
    cases h
    rfl
  · rintro rfl
    exact .error e

theorem bind {f : β → Except ε δ} {g : α → Except ε γ} (h : Agree R x y)
    (hf : ∀ b a, R b a → Agree S (f b) (g a)) : Agree S (x >>= f) (y >>= g) := by
  cases h with
  | ok h => exact hf _ _ h
  | error e => exact .error e

theorem map_left {f : β → δ} {T : δ → α → Prop} (h : Agree R x y) (hf : ∀ b a, R b a → T (f b) a) :
    Agree T (x.map f) y := by
  cases h with
  | ok h => exact .ok (hf _ _ h)
  | error e => exact .error e

/-- What agrees is the same once it is mapped to the same. -/
theorem map_eq {φ : Type} {f : β → φ} {k : α → γ} {g : γ → φ} (h : Agree R x y)
    (hf : ∀ b a, R b a → f b = g (k a)) : x.map f = (y.map k).map g := by
  cases h with
  | ok h => exact congrArg Except.ok (hf _ _ h)
  | error e => rfl

end Agree

namespace Decoder

/-- `d` simulates `e` up to `R`. -/
def Simulates (R : β → α → Prop) (d : Decoder ε β) (e : Decoder ε α) : Prop :=
  ∀ s, Agree R (d.on s).1 (e.on s).1 ∧ (d.on s).2 = (e.on s).2

variable {R : β → α → Prop} {S : δ → γ → Prop} {d : Decoder ε β} {e : Decoder ε α}

theorem Simulates.bind {f : β → Decoder ε δ} {g : α → Decoder ε γ} (h : Simulates R d e)
    (hf : ∀ b a, R b a → Simulates S (f b) (g a)) : Simulates S (d >>= f) (e >>= g) := by
  intro s
  rw [on_bind, on_bind]
  have hs := h s
  generalize d.on s = x, e.on s = y at hs
  obtain ⟨x, t⟩ := x
  obtain ⟨y, u⟩ := y
  obtain ⟨hxy, rfl⟩ := hs
  cases hxy with
  | ok h => exact hf _ _ h t
  | error e => exact ⟨.error e, rfl⟩

theorem simulates_pure {b : β} {a : α} (h : R b a) :
    Simulates R (pure b : Decoder ε β) (pure a) := fun _ => ⟨.ok h, rfl⟩

theorem simulates_lift {x : Except ε β} {y : Except ε α} (h : Agree R x y) :
    Simulates R (lift x) (lift y) := fun _ => ⟨h, rfl⟩

/-- Every decoder simulates itself, with what it ensures. -/
theorem Ensures.simulates {P : β → Prop} (h : d.Ensures P) : Simulates (fun b c => b = c ∧ P b) d d := by
  intro s
  rcases hs : d.on s with ⟨e | b, t⟩
  · exact ⟨.error e, rfl⟩
  · exact ⟨.ok ⟨rfl, h hs⟩, rfl⟩

theorem simulates_self (d : Decoder ε β) : Simulates Eq d d := by
  intro s
  rcases d.on s with ⟨e | b, t⟩
  · exact ⟨.error e, rfl⟩
  · exact ⟨.ok rfl, rfl⟩

/-- What follows the same decoder. -/
theorem Simulates.bind_left {f : β → Decoder ε δ} {g : β → Decoder ε γ}
    (hf : ∀ b, Simulates S (f b) (g b)) : Simulates S (d >>= f) (d >>= g) :=
  (simulates_self d).bind fun b _ h => h ▸ hf b

theorem Simulates.times (h : Simulates R d e) (n : Nat) :
    Simulates (List.Forall₂ R) (times n d) (times n e) := by
  induction n with
  | zero => exact simulates_pure .nil
  | succ n ih => exact h.bind fun b a hb => ih.bind fun bs as hbs => simulates_pure (.cons hb hbs)

end Decoder

end PlatformGuard
