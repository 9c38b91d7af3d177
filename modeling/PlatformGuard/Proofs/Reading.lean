import PlatformGuard.Bytes.Decoder
import PlatformGuard.Proofs.Bytes
import PlatformGuard.Proofs.Steps

/-!
# What decoders take

Two views of a decoder.  `Decodes d front o` says what `d` makes of every byte string that starts with
`front`: the value of `o`, with exactly `front` taken, or a failure where `o` is none.  It composes
along binds, so the outcome of a reader on what a writer wrote is found field by field.  `IsLocal` goes
the other way, from a success to the bytes that it used.
-/

namespace PlatformGuard.Decoder

variable {ε α β : Type}

/-! ### Steps of a decoder -/

/-- What follows either of two decoders follows their choice. -/
theorem ite_bind (c : Prop) [Decidable c] (d e : Decoder ε α) (f : α → Decoder ε β) :
    (if c then d >>= f else e >>= f) = (if c then d else e) >>= f := by
  split <;> rfl

@[simp]
theorem on_map (f : α → β) (d : Decoder ε α) (s : Bytes) :
    (f <$> d).on s = ((d.on s).1.map f, (d.on s).2) :=
  Steps.map_apply f d s

theorem read_eq_on (d : Decoder ε α) (s : Bytes) : d.read s = (d.on s).1 := rfl

section taking
variable [Truncation ε]

theorem on_skip_append {front : Bytes} {n : Nat} (h : front.length = n) (rest : Bytes) :
    (skip n : Decoder ε Unit).on (front ++ rest) = (.ok (), rest) := by
  subst h
  simp [on, skip]

end taking

/-! ### From a front to an outcome -/

/-- What `d` makes of every byte string that starts with `front`: it takes `front` and gives the value of
`o`, or it fails where there is none. -/
def Decodes (d : Decoder ε α) (front : Bytes) (o : Option α) : Prop :=
  ∀ rest, match o with
    | some a => d.on (front ++ rest) = (.ok a, rest)
    | none => ∃ e left, d.on (front ++ rest) = (.error e, left)

/-- `d` takes `front` and gives `a`. -/
abbrev Reads (d : Decoder ε α) (front : Bytes) (a : α) : Prop := d.Decodes front (some a)

theorem reads_pure (a : α) : Reads (pure a : Decoder ε α) [] a := fun _ => rfl

/-- A decoder that reads its front, followed by one that may fail on the rest. -/
theorem Reads.bind {d : Decoder ε α} {f : α → Decoder ε β} {x y : Bytes} {a : α} {o : Option β}
    (hd : Reads d x a) (hf : Decodes (f a) y o) : Decodes (d >>= f) (x ++ y) o := by
  intro rest
  have hx : (d >>= f).on (x ++ y ++ rest) = (f a).on (y ++ rest) := by
    have hd' : d.on (x ++ (y ++ rest)) = (.ok a, y ++ rest) := hd (y ++ rest)
    rw [List.append_assoc, on_bind, hd']
  have hy := hf rest
  cases o with
  | some b => exact hx.trans hy
  | none =>
    obtain ⟨e, left, he⟩ := hy
    exact ⟨e, left, hx.trans he⟩

/-- What comes after takes nothing. -/
theorem Reads.bind_last {d : Decoder ε α} {f : α → Decoder ε β} {x : Bytes} {a : α} {o : Option β}
    (hd : Reads d x a) (hf : Decodes (f a) [] o) : Decodes (d >>= f) x o := by
  have h := hd.bind hf
  rwa [List.append_nil] at h

theorem Decodes.bind {d : Decoder ε α} {f : α → Decoder ε β} {x y : Bytes} {o : Option α}
    {p : α → Option β} (hd : Decodes d x o) (hf : ∀ a, o = some a → Decodes (f a) y (p a)) :
    Decodes (d >>= f) (x ++ y) (o.bind p) := by
  cases o with
  | some a => exact Reads.bind hd (hf a rfl)
  | none =>
    intro rest
    obtain ⟨e, left, he⟩ := hd (y ++ rest)
    exact ⟨e, left, by rw [List.append_assoc, on_bind, he]⟩

theorem Decodes.bind_last {d : Decoder ε α} {f : α → Decoder ε β} {x : Bytes} {o : Option α}
    {p : α → Option β} (hd : Decodes d x o) (hf : ∀ a, o = some a → Decodes (f a) [] (p a)) :
    Decodes (d >>= f) x (o.bind p) := by
  have h := hd.bind hf
  rwa [List.append_nil] at h

theorem Decodes.map {d : Decoder ε α} {x : Bytes} {o : Option α} (f : α → β) (hd : Decodes d x o) :
    Decodes (f <$> d) x (o.map f) := by
  intro rest
  have h := hd rest
  cases o with
  | some a =>
    have h' : d.on (x ++ rest) = (.ok a, rest) := h
    simp [h', Except.map]
  | none =>
    obtain ⟨e, left, he⟩ := h
    exact ⟨e, left, by simp [he, Except.map]⟩

theorem decodes_require {f : Unit → Decoder ε β} {p : Bool} {e : ε} {y : Bytes} {o : Option β}
    (hf : p = true → Decodes (f ()) y o) :
    Decodes (require p e >>= f) y (if p then o else none) := by
  cases p with
  | true => exact hf rfl
  | false => exact fun rest => ⟨e, y ++ rest, rfl⟩

theorem decodes_some? {f : α → Decoder ε β} {x : Option α} {e : ε} {y : Bytes} {p : α → Option β}
    (hf : ∀ a, x = some a → Decodes (f a) y (p a)) :
    Decodes (some? x e >>= f) y (x.bind p) := by
  cases x with
  | some a => exact hf a rfl
  | none => exact fun rest => ⟨e, y ++ rest, rfl⟩

/-- A check that passes. -/
theorem decodes_require_of {f : Unit → Decoder ε β} {p : Bool} {e : ε} {y : Bytes} {o : Option β}
    (hp : p = true) (hf : Decodes (f ()) y o) : Decodes (require p e >>= f) y o := by
  subst hp
  exact hf

/-- A value that is there. -/
theorem decodes_some?_of {f : α → Decoder ε β} {x : Option α} {a : α} {e : ε} {y : Bytes}
    {o : Option β} (hx : x = some a) (hf : Decodes (f a) y o) : Decodes (some? x e >>= f) y o := by
  subst hx
  exact hf

theorem decodes_option (x : Option α) (e : ε) : Decodes (some? x e) [] x := by
  cases x with
  | some a => exact reads_pure a
  | none => exact fun rest => ⟨e, rest, rfl⟩

theorem decodes_lift {f : α → Decoder ε β} {x : Except ε α} {y : Bytes} {p : α → Option β}
    (hf : ∀ a, x = .ok a → Decodes (f a) y (p a)) :
    Decodes (lift x >>= f) y (x.toOption.bind p) := by
  cases x with
  | ok a => exact hf a rfl
  | error e => exact fun rest => ⟨e, y ++ rest, rfl⟩

theorem Decodes.on_append {d : Decoder ε α} {x : Bytes} {o : Option α} (hd : Decodes d x o)
    {rest left : Bytes} {a : α} :
    d.on (x ++ rest) = (.ok a, left) ↔ o = some a ∧ left = rest := by
  have h := hd rest
  cases o with
  | some b =>
    have h' : d.on (x ++ rest) = (.ok b, rest) := h
    rw [h', Prod.mk.injEq, Except.ok.injEq, Option.some.injEq, eq_comm (a := rest)]
  | none =>
    obtain ⟨e, left', he⟩ := h
    rw [he]
    simp

theorem Decodes.read_append {d : Decoder ε α} {x : Bytes} {o : Option α} (hd : Decodes d x o)
    (rest : Bytes) {a : α} : d.read (x ++ rest) = .ok a ↔ o = some a := by
  rw [read_eq_on]
  constructor
  · intro h
    have hon : d.on (x ++ rest) = (.ok a, (d.on (x ++ rest)).2) := Prod.ext h rfl
    exact (hd.on_append.1 hon).1
  · intro h
    rw [hd.on_append.2 ⟨h, rfl⟩]

/-- The value that is read from the front alone. -/
theorem Decodes.read {d : Decoder ε α} {x : Bytes} {o : Option α} (hd : Decodes d x o) :
    (d.read x).toOption = o := by
  ext a
  rw [Steps.toOption_eq_some, ← hd.read_append [], List.append_nil]

section taking
variable [Truncation ε]

theorem reads_take {x : Bytes} {n : Nat} (h : x.length = n) :
    Reads (take n : Decoder ε Bytes) x x := on_take_append h

theorem reads_skip {x : Bytes} {n : Nat} (h : x.length = n) :
    Reads (skip n : Decoder ε Unit) x () := on_skip_append h

theorem reads_u8 (b : UInt8) : Reads (u8 : Decoder ε UInt8) [b] b := by
  intro rest
  have h : (take 1 : Decoder ε Bytes).on (b :: rest) = (.ok [b], rest) :=
    on_take_append (show [b].length = 1 from rfl) rest
  simp [u8, little, h, Except.map, Bytes.toNatLE]

theorem reads_le16 (w : UInt16) : Reads (le16 : Decoder ε UInt16) (Bytes.le16 w) w := by
  intro rest
  have h := on_take_append (ε := ε) (Bytes.length_ofNatLE 2 w.toNat) rest
  simp [le16, little, Bytes.le16, h, Except.map, Bytes.toNatLE_ofNatLE]

theorem reads_le32 (w : UInt32) : Reads (le32 : Decoder ε UInt32) (Bytes.le32 w) w := by
  intro rest
  have h := on_take_append (ε := ε) (Bytes.length_ofNatLE 4 w.toNat) rest
  simp [le32, little, Bytes.le32, h, Except.map, Bytes.toNatLE_ofNatLE]

theorem reads_be32 (w : UInt32) :
    Reads (UInt32.ofNat <$> big 4 : Decoder ε UInt32) (Bytes.be32 w) w := by
  intro rest
  have h := on_take_append (ε := ε) (Bytes.length_ofNatBE 4 w.toNat) rest
  simp [big, Bytes.be32, h, Except.map, Bytes.toNatBE_ofNatBE]

/-- A byte at the front of what is read. -/
theorem decodes_u8 {f : UInt8 → Decoder ε β} {b : UInt8} {y : Bytes} {o : Option β}
    (hf : Decodes (f b) y o) : Decodes (u8 >>= f) (b :: y) o :=
  (reads_u8 b).bind hf

end taking

/-- Records one after the other. -/
theorem decodes_times {d : Decoder ε β} {items : List α} {fronts : List Bytes} {p : α → Option β}
    (h : List.Forall₂ (fun a front => Decodes d front (p a)) items fronts) :
    Decodes (times items.length d) fronts.flatten (items.mapM p) := by
  induction h with
  | nil => exact reads_pure []
  | @cons a front as rest ha has ih =>
    simp only [List.length_cons, times, List.flatten_cons, List.mapM_cons]
    refine ha.bind fun b _ => ?_
    exact ih.bind_last fun bs _ => reads_pure (b :: bs)

/-! ### From a success to its bytes -/

/-- Whatever `d` reads, it reads from a front of its own and without regard to what follows. -/
def IsLocal (d : Decoder ε α) : Prop :=
  ∀ ⦃s a rest⦄, d.on s = (.ok a, rest) → ∃ front, s = front ++ rest ∧ d.Reads front a

theorem isLocal_pure (a : α) : IsLocal (pure a : Decoder ε α) := by
  intro s b rest h
  cases h
  exact ⟨[], rfl, reads_pure a⟩

theorem IsLocal.bind {d : Decoder ε α} {f : α → Decoder ε β} (hd : d.IsLocal)
    (hf : ∀ a, (f a).IsLocal) : (d >>= f).IsLocal := by
  intro s b rest h
  obtain ⟨a, t, ha, hb⟩ := on_bind_ok.1 h
  obtain ⟨x, rfl, hx⟩ := hd ha
  obtain ⟨y, rfl, hy⟩ := hf a hb
  exact ⟨x ++ y, (List.append_assoc ..).symm, hx.bind hy⟩

theorem IsLocal.map {d : Decoder ε α} (f : α → β) (hd : d.IsLocal) : (f <$> d).IsLocal := by
  rw [← bind_pure_comp]
  exact hd.bind fun a => isLocal_pure (f a)

theorem isLocal_require (p : Bool) (e : ε) : IsLocal (require p e) := by
  cases p with
  | true => exact isLocal_pure ()
  | false => intro s a rest h; cases h

theorem isLocal_some? (x : Option α) (e : ε) : IsLocal (some? x e) := by
  cases x with
  | some a => exact isLocal_pure a
  | none => intro s a rest h; cases h

theorem isLocal_lift (x : Except ε α) : IsLocal (lift x) := by
  cases x with
  | ok a => exact isLocal_pure a
  | error e => intro s a rest h; cases h

theorem on_map_ok {d : Decoder ε α} {f : α → β} {s rest : Bytes} {b : β} :
    (f <$> d).on s = (.ok b, rest) ↔ ∃ a, d.on s = (.ok a, rest) ∧ f a = b := by
  rw [on_map]
  rcases d.on s with ⟨e | a, t⟩
  · simp [Except.map]
  · simp [Except.map, and_comm]

theorem on_require_ok {p : Bool} {e : ε} {s rest : Bytes} :
    (require p e).on s = (.ok (), rest) ↔ p = true ∧ rest = s := by
  cases p with
  | true => exact ⟨fun h => ⟨rfl, (congrArg Prod.snd h).symm⟩, fun h => h.2 ▸ rfl⟩
  | false => exact ⟨nofun, nofun⟩

theorem on_some?_ok {x : Option α} {e : ε} {s rest : Bytes} {a : α} :
    (some? x e).on s = (.ok a, rest) ↔ x = some a ∧ rest = s := by
  cases x with
  | some b =>
    constructor
    · intro h
      cases h
      exact ⟨rfl, rfl⟩
    · rintro ⟨h, rfl⟩
      cases h
      rfl
  | none => exact ⟨nofun, nofun⟩

theorem on_lift_ok {x : Except ε α} {s rest : Bytes} {a : α} :
    (lift x).on s = (.ok a, rest) ↔ x = .ok a ∧ rest = s := by
  rw [show (lift x).on s = (x, s) from rfl, Prod.mk.injEq, eq_comm (a := s)]

/-- Whatever `d` reads has the property `P`. -/
def Ensures (d : Decoder ε α) (P : α → Prop) : Prop := ∀ ⦃s a rest⦄, d.on s = (.ok a, rest) → P a

theorem ensures_pure {P : α → Prop} {a : α} (h : P a) : Ensures (pure a : Decoder ε α) P := by
  intro s b rest hb
  cases hb
  exact h

theorem Ensures.bind {d : Decoder ε α} {f : α → Decoder ε β} {P : α → Prop} {Q : β → Prop}
    (hd : Ensures d P) (hf : ∀ a, P a → Ensures (f a) Q) : Ensures (d >>= f) Q := by
  intro s b rest h
  obtain ⟨a, t, ha, hb⟩ := on_bind_ok.1 h
  exact hf a (hd ha) hb

/-- What comes later ensures a property by itself. -/
theorem ensures_bind {d : Decoder ε α} {f : α → Decoder ε β} {Q : β → Prop}
    (hf : ∀ a, Ensures (f a) Q) : Ensures (d >>= f) Q :=
  Ensures.bind (P := fun _ => True) (fun _ _ _ _ => trivial) fun a _ => hf a

theorem ensures_require (p : Bool) (e : ε) : Ensures (require p e) fun _ => p = true := by
  intro s a rest h
  cases p with
  | true => rfl
  | false => cases h

theorem Ensures.times {d : Decoder ε α} {P : α → Prop} (hd : Ensures d P) (n : Nat) :
    Ensures (times n d) fun as => as.length = n ∧ ∀ a ∈ as, P a := by
  induction n with
  | zero => exact ensures_pure (by simp)
  | succ n ih =>
    refine hd.bind fun a ha => ih.bind fun as has => ensures_pure ?_
    simpa [has.1, ha] using has.2

section taking
variable [Truncation ε]

theorem isLocal_take (n : Nat) : IsLocal (take n : Decoder ε Bytes) := by
  intro s a rest h
  obtain ⟨hn, rfl⟩ := on_take_ok.1 h
  exact ⟨a, rfl, reads_take hn⟩

theorem on_skip_ok {n : Nat} {s rest : Bytes} :
    (skip n : Decoder ε Unit).on s = (.ok (), rest) ↔ ∃ front : Bytes, front.length = n ∧
      s = front ++ rest := by
  constructor
  · intro h
    unfold on skip at h
    by_cases hn : (s.take n).length = n
    · rw [if_pos hn] at h
      cases h
      exact ⟨s.take n, hn, (List.take_append_drop n s).symm⟩
    · rw [if_neg hn] at h
      cases h
  · rintro ⟨front, hn, rfl⟩
    exact on_skip_append hn rest

theorem isLocal_skip (n : Nat) : IsLocal (skip n : Decoder ε Unit) := by
  intro s a rest h
  obtain ⟨front, hn, rfl⟩ := on_skip_ok.1 h
  exact ⟨front, rfl, reads_skip hn⟩

theorem on_little_ok {k n : Nat} {s rest : Bytes} :
    (little k : Decoder ε Nat).on s = (.ok n, rest) ↔ n < 256 ^ k ∧ s = Bytes.ofNatLE k n ++ rest := by
  rw [little, on_map_ok]
  constructor
  · rintro ⟨front, h, rfl⟩
    obtain ⟨rfl, rfl⟩ := on_take_ok.1 h
    exact ⟨Bytes.toNatLE_lt front, by rw [Bytes.ofNatLE_toNatLE]⟩
  · rintro ⟨hn, rfl⟩
    refine ⟨_, on_take_append (Bytes.length_ofNatLE k n) rest, ?_⟩
    rw [Bytes.toNatLE_ofNatLE, Nat.mod_eq_of_lt hn]

theorem on_big_ok {k n : Nat} {s rest : Bytes} (h : (big k : Decoder ε Nat).on s = (.ok n, rest)) :
    n < 256 ^ k ∧ s = Bytes.ofNatBE k n ++ rest := by
  obtain ⟨front, hfront, rfl⟩ := on_map_ok.1 h
  obtain ⟨rfl, rfl⟩ := on_take_ok.1 hfront
  rw [Bytes.toNatBE_eq, Bytes.ofNatBE]
  refine ⟨?_, ?_⟩
  · rw [← List.length_reverse]
    exact Bytes.toNatLE_lt front.reverse
  · rw [← List.length_reverse, Bytes.ofNatLE_toNatLE, List.reverse_reverse]

theorem on_u8_ok {b : UInt8} {s rest : Bytes} (h : (u8 : Decoder ε UInt8).on s = (.ok b, rest)) :
    s = b :: rest := by
  obtain ⟨n, hn, rfl⟩ := on_map_ok.1 h
  exact (on_little_ok.1 hn).2

theorem on_le16_ok {w : UInt16} {s rest : Bytes}
    (h : (le16 : Decoder ε UInt16).on s = (.ok w, rest)) : s = Bytes.le16 w ++ rest := by
  obtain ⟨n, hlittle, rfl⟩ := on_map_ok.1 h
  obtain ⟨hn, rfl⟩ := on_little_ok.1 hlittle
  rw [Bytes.le16, UInt16.toNat_ofNat_of_lt' hn]

theorem on_le32_ok {w : UInt32} {s rest : Bytes}
    (h : (le32 : Decoder ε UInt32).on s = (.ok w, rest)) : s = Bytes.le32 w ++ rest := by
  obtain ⟨n, hlittle, rfl⟩ := on_map_ok.1 h
  obtain ⟨hn, rfl⟩ := on_little_ok.1 hlittle
  rw [Bytes.le32, UInt32.toNat_ofNat_of_lt' hn]

theorem on_be32_ok {w : UInt32} {s rest : Bytes}
    (h : (UInt32.ofNat <$> big 4 : Decoder ε UInt32).on s = (.ok w, rest)) :
    s = Bytes.be32 w ++ rest := by
  obtain ⟨n, hbig, rfl⟩ := on_map_ok.1 h
  obtain ⟨hn, rfl⟩ := on_big_ok hbig
  rw [Bytes.be32, UInt32.toNat_ofNat_of_lt' hn]

end taking

end PlatformGuard.Decoder
