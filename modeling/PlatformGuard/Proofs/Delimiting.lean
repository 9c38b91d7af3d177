import PlatformGuard.Proofs.Reading

/-!
# Decoders that show where they end

A delimited decoder needs exactly the bytes that it takes.  What follows them does not matter, and whoever
has only a front of them is told that the input ends too early.  Readers of counted fields are delimited as
long as a check looks at nothing but what was read before it, so that being delimited composes along binds:
a front either ends in the bytes of the first reader, or it is those and a front of the bytes of the rest.
-/

namespace PlatformGuard.Decoder

variable {ε α β : Type} {d : Decoder ε α} {f : α → Decoder ε β} {front x s rest : Bytes} {a : α} {b : β}
  {e : ε}

/-! ### Fronts that are read -/

theorem Reads.on_self (h : Reads d front a) : d.on front = (.ok a, []) := by
  have h' : d.on (front ++ []) = (.ok a, []) := h []
  rwa [List.append_nil] at h'

theorem IsLocal.reads_iff (hd : d.IsLocal) : Reads d front a ↔ d.on front = (.ok a, []) := by
  refine ⟨Reads.on_self, fun h => ?_⟩
  obtain ⟨x, hx, hreads⟩ := hd h
  rw [List.append_nil] at hx
  exact hx ▸ hreads

/-- What two decoders read together is what the first reads, and behind it what the second reads. -/
theorem Reads.of_bind (hd : d.IsLocal) (hf : ∀ a, (f a).IsLocal) (h : Reads (d >>= f) front b) :
    ∃ a x y, front = x ++ y ∧ Reads d x a ∧ Reads (f a) y b := by
  obtain ⟨a, y, ha, hb⟩ := on_bind_ok.1 h.on_self
  obtain ⟨x, rfl, hx⟩ := hd ha
  exact ⟨a, x, y, rfl, hx, (hf a).reads_iff.2 hb⟩

theorem Reads.read_bind (h : Reads d x a) (f : α → Decoder ε β) (s : Bytes) :
    (d >>= f).read (x ++ s) = (f a).read s := by
  have h' : d.on (x ++ s) = (.ok a, s) := h s
  rw [read_eq_on, on_bind, h']
  rfl

theorem read_bind_error (h : d.read s = .error e) (f : α → Decoder ε β) : (d >>= f).read s = .error e := by
  rw [read_eq_on] at h
  rw [read_eq_on, on_bind]
  generalize d.on s = r at h ⊢
  obtain ⟨r, t⟩ := r
  dsimp only at h
  subst h
  rfl

/-! ### Fronts that are too short -/

theorem sized_lift (r : Except ε α) : Sized 0 (lift r) := by
  intro s a rest h
  rw [(on_lift_ok.1 h).2, Nat.zero_add]

variable [Truncation ε]

/-- What `d` reads it reads from a front of its own, and a shorter front ends too early for it. -/
structure IsDelimited (d : Decoder ε α) : Prop where
  isLocal : d.IsLocal
  short : ∀ ⦃front a⦄, Reads d front a →
    ∀ k < front.length, d.read (front.take k) = .error Truncation.truncated

/-- What takes no bytes has no shorter front. -/
theorem IsLocal.isDelimited (hd : d.IsLocal) (hsized : Sized 0 d) : d.IsDelimited where
  isLocal := hd
  short front a h k hk := by
    have hlength := hsized h.on_self
    rw [List.length_nil] at hlength
    omega

theorem isDelimited_pure (a : α) : IsDelimited (pure a : Decoder ε α) :=
  (isLocal_pure a).isDelimited (sized_pure a)

theorem isDelimited_require (p : Bool) (e : ε) : IsDelimited (require p e) :=
  (isLocal_require p e).isDelimited (sized_require p e)

theorem isDelimited_some? (r : Option α) (e : ε) : IsDelimited (some? r e) :=
  (isLocal_some? r e).isDelimited (sized_some? r e)

theorem isDelimited_lift (r : Except ε α) : IsDelimited (lift r) :=
  (isLocal_lift r).isDelimited (sized_lift r)

theorem IsDelimited.bind (hd : d.IsDelimited) (hf : ∀ a, (f a).IsDelimited) : (d >>= f).IsDelimited where
  isLocal := hd.isLocal.bind fun a => (hf a).isLocal
  short front b h k hk := by
    obtain ⟨a, x, y, rfl, hx, hy⟩ := h.of_bind hd.isLocal fun a => (hf a).isLocal
    rw [List.length_append] at hk
    by_cases hkx : k < x.length
    · rw [List.take_append_of_le_length (Nat.le_of_lt hkx)]
      exact read_bind_error (hd.short hx k hkx) f
    · rw [List.take_append, List.take_of_length_le (Nat.le_of_not_lt hkx), hx.read_bind]
      exact (hf a).short hy _ (by omega)

theorem IsDelimited.map (g : α → β) (hd : d.IsDelimited) : (g <$> d).IsDelimited := by
  rw [← bind_pure_comp]
  exact hd.bind fun a => isDelimited_pure (g a)

theorem IsDelimited.times (hd : d.IsDelimited) (n : Nat) : (times n d).IsDelimited := by
  induction n with
  | zero => exact isDelimited_pure []
  | succ n ih => exact hd.bind fun a => ih.bind fun as => isDelimited_pure (a :: as)

theorem isDelimited_take (n : Nat) : IsDelimited (take n : Decoder ε Bytes) where
  isLocal := isLocal_take n
  short front a h k hk := by
    have hlength := sized_take n h.on_self
    rw [List.length_nil, Nat.add_zero] at hlength
    rw [read_eq_on, on, take, if_neg]
    rw [List.length_take, List.length_take]
    omega

theorem isDelimited_skip (n : Nat) : IsDelimited (skip n : Decoder ε Unit) where
  isLocal := isLocal_skip n
  short front a h k hk := by
    obtain ⟨x, hlength, rfl⟩ := on_skip_ok.1 h.on_self
    rw [List.append_nil] at hk
    rw [List.append_nil, read_eq_on, on, skip, if_neg]
    rw [List.length_take, List.length_take]
    omega

theorem isDelimited_little (k : Nat) : IsDelimited (little k : Decoder ε Nat) := (isDelimited_take k).map _

theorem isDelimited_big (k : Nat) : IsDelimited (big k : Decoder ε Nat) := (isDelimited_take k).map _

theorem isDelimited_u8 : IsDelimited (u8 : Decoder ε UInt8) := (isDelimited_little 1).map _

theorem isDelimited_le32 : IsDelimited (le32 : Decoder ε UInt32) := (isDelimited_little 4).map _

/-! ### The bytes of a value -/

/-- The bytes of which `d` reads `a`: at least one, whatever follows them, and none of them can be spared. -/
structure Spans (d : Decoder ε α) (front : Bytes) (a : α) : Prop where
  nonempty : front ≠ []
  reads : ∀ rest, d.on (front ++ rest) = (.ok a, rest)
  short : ∀ k < front.length, d.read (front.take k) = .error Truncation.truncated

/-- A delimited decoder that needs some byte reads nothing but the bytes of values. -/
theorem IsDelimited.on_ok (hd : d.IsDelimited) (hempty : d.read [] = .error e) :
    d.on s = (.ok a, rest) ↔ ∃ front, s = front ++ rest ∧ d.Spans front a := by
  constructor
  · intro h
    obtain ⟨front, rfl, hreads⟩ := hd.isLocal h
    refine ⟨front, rfl, ?_, hreads, hd.short hreads⟩
    rintro rfl
    rw [read_eq_on, hreads.on_self] at hempty
    cases hempty
  · rintro ⟨front, rfl, hspans⟩
    exact hspans.reads rest

/-- Values one after the other: their bytes stand one behind the other. -/
theorem IsDelimited.on_times_ok (hd : d.IsDelimited) (hempty : d.read [] = .error e) {n : Nat}
    {as : List α} : (Decoder.times n d).on s = (.ok as, rest) ↔
      as.length = n ∧ ∃ fronts, List.Forall₂ d.Spans fronts as ∧ s = fronts.flatten ++ rest := by
  induction n generalizing s as with
  | zero =>
    constructor
    · intro h
      cases h
      exact ⟨rfl, [], .nil, rfl⟩
    · rintro ⟨hlength, fronts, hspans, rfl⟩
      obtain rfl := List.length_eq_zero_iff.1 hlength
      cases hspans
      rfl
  | succ n ih =>
    constructor
    · intro h
      obtain ⟨a, s₁, ha, h⟩ := on_bind_ok.1 h
      obtain ⟨as', s₂, has, h⟩ := on_bind_ok.1 h
      cases h
      obtain ⟨front, rfl, hspans⟩ := (hd.on_ok hempty).1 ha
      obtain ⟨rfl, fronts, hall, rfl⟩ := ih.1 has
      refine ⟨rfl, front :: fronts, .cons hspans hall, ?_⟩
      rw [List.flatten_cons, List.append_assoc]
    · rintro ⟨hlength, fronts, hall, rfl⟩
      cases hall with
      | nil => cases hlength
      | @cons front a fronts as hspans hall =>
        rw [List.flatten_cons, List.append_assoc]
        refine on_bind_ok.2 ⟨a, _, hspans.reads _, on_bind_ok.2 ⟨as, rest, ?_, rfl⟩⟩
        exact ih.2 ⟨Nat.succ.inj hlength, fronts, hall, rfl⟩

end PlatformGuard.Decoder
