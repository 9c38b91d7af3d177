import PlatformGuard.Bytes
import PlatformGuard.Status

/-!
# Reading from a byte string

A decoder takes bytes from the front of a byte string.  What it does not take is left, also when it
fails, so that a failure shows how far the input was understood.
-/

namespace PlatformGuard

/-- Why a byte string or a byte sink gave out. -/
inductive Bytes.Error where
  | exhausted
  | internal
  deriving DecidableEq, Repr

namespace Bytes.Error

def all : List Bytes.Error := [exhausted, internal]

instance : Status Bytes.Error :=
  let label : Bytes.Error → String
    | exhausted => "BufferExhausted"
    | internal => "Internal"
  { subsystem := fun _ => .io
    localCode := fun
      | exhausted => 0
      | internal => 1
    label
    ofLabel? := Status.find? label all }

end Bytes.Error

/-- Causes of failure among which is that the input ends too early. -/
class Truncation (ε : Type) where
  truncated : ε

instance : Truncation Bytes.Error := ⟨.exhausted⟩

/-- A step that takes bytes from the front of a byte string. -/
abbrev Decoder (ε : Type) := ExceptT ε (StateM Bytes)

namespace Decoder

variable {ε α β : Type}

/-- The outcome on `s`, and the bytes that are left. -/
def on (d : Decoder ε α) (s : Bytes) : Except ε α × Bytes := d s

/-- The value that `d` reads from the front of `s`. -/
def read (d : Decoder ε α) (s : Bytes) : Except ε α := (d s).1

/-- Fails with `e` unless `p` holds, and takes nothing. -/
def require (p : Bool) (e : ε) : Decoder ε Unit := if p then pure () else throw e

/-- Fails with `e` where there is no value, and takes nothing. -/
def some? (x : Option α) (e : ε) : Decoder ε α :=
  match x with
  | some a => pure a
  | none => throw e

/-- Goes on with a computation that takes no bytes. -/
def lift (x : Except ε α) : Decoder ε α := fun s => (x, s)

section reading
variable [Truncation ε]

/-- The next `n` bytes; takes nothing if there are fewer. -/
def take (n : Nat) : Decoder ε Bytes := fun s =>
  let front := s.take n
  if front.length = n then (.ok front, s.drop n) else (.error Truncation.truncated, s)

/-- The next `k` bytes as a number, lowest byte first. -/
def little (k : Nat) : Decoder ε Nat := Bytes.toNatLE <$> take k

/-- The next `k` bytes as a number, highest byte first. -/
def big (k : Nat) : Decoder ε Nat := Bytes.toNatBE <$> take k

def u8 : Decoder ε UInt8 := UInt8.ofNat <$> little 1
def le16 : Decoder ε UInt16 := UInt16.ofNat <$> little 2
def le32 : Decoder ε UInt32 := UInt32.ofNat <$> little 4

/-- Drops `n` bytes, sixteen at a time: if there are fewer, the whole groups of sixteen are taken. -/
def skip (n : Nat) : Decoder ε Unit := fun s =>
  let front := s.take n
  if front.length = n then (.ok (), s.drop n)
  else (.error Truncation.truncated, s.drop (front.length / 16 * 16))

/-- Reads `n` records one after the other. -/
def times (n : Nat) (d : Decoder ε α) : Decoder ε (List α) :=
  match n with
  | 0 => pure []
  | n + 1 => do
    let a ← d
    let as ← times n d
    return a :: as

end reading

/-! ### What decoders take -/

theorem on_bind (d : Decoder ε α) (f : α → Decoder ε β) (s : Bytes) :
    (d >>= f).on s = match d.on s with
      | (.ok a, t) => (f a).on t
      | (.error e, t) => (.error e, t) := by
  change (match d s with | (r, t) => (ExceptT.bindCont f r : StateM Bytes _) t) = _
  unfold on
  rcases d s with ⟨_ | _, _⟩ <;> rfl

theorem on_bind_ok {d : Decoder ε α} {f : α → Decoder ε β} {s u : Bytes} {b : β} :
    (d >>= f).on s = (.ok b, u) ↔ ∃ a t, d.on s = (.ok a, t) ∧ (f a).on t = (.ok b, u) := by
  rw [on_bind]
  constructor
  · intro h
    split at h
    case h_1 a t ha => exact ⟨a, t, ha, h⟩
    case h_2 => cases h
  · rintro ⟨a, t, ha, hb⟩
    rw [ha]
    exact hb

/-- Whatever `d` reads, it takes `n` bytes. -/
def Sized (n : Nat) (d : Decoder ε α) : Prop :=
  ∀ ⦃s a rest⦄, d.on s = (.ok a, rest) → s.length = n + rest.length

theorem sized_pure (a : α) : Sized 0 (pure a : Decoder ε α) := by
  intro s b rest h
  cases h
  simp

theorem Sized.bind {m n k : Nat} {d : Decoder ε α} {f : α → Decoder ε β} (hd : Sized m d)
    (hf : ∀ a, Sized n (f a)) (hk : m + n = k) : Sized k (d >>= f) := by
  intro s b rest h
  obtain ⟨a, t, ha, hb⟩ := on_bind_ok.1 h
  have := hd ha
  have := hf a hb
  omega

theorem Sized.map {n : Nat} {d : Decoder ε α} (f : α → β) (hd : Sized n d) : Sized n (f <$> d) := by
  rw [← bind_pure_comp]
  exact hd.bind (fun a => sized_pure (f a)) rfl

theorem sized_require (p : Bool) (e : ε) : Sized 0 (require p e) := by
  cases p with
  | true => exact sized_pure ()
  | false => intro s a rest h; cases h

theorem sized_some? (x : Option α) (e : ε) : Sized 0 (some? x e) := by
  cases x with
  | some a => exact sized_pure a
  | none => intro s a rest h; cases h

section taking
variable [Truncation ε]

theorem on_take_append {front : Bytes} {n : Nat} (h : front.length = n) (rest : Bytes) :
    (take n : Decoder ε Bytes).on (front ++ rest) = (.ok front, rest) := by
  subst h
  simp [on, take]

theorem on_take_ok {n : Nat} {s a rest : Bytes} :
    (take n : Decoder ε Bytes).on s = (.ok a, rest) ↔ a.length = n ∧ s = a ++ rest := by
  constructor
  · intro h
    unfold on take at h
    by_cases hn : (s.take n).length = n
    · rw [if_pos hn] at h
      cases h
      exact ⟨hn, (List.take_append_drop n s).symm⟩
    · rw [if_neg hn] at h
      cases h
  · rintro ⟨hn, rfl⟩
    exact on_take_append hn rest

theorem sized_take (n : Nat) : Sized n (take n : Decoder ε Bytes) := by
  intro s a rest h
  obtain ⟨hn, rfl⟩ := on_take_ok.1 h
  simp [hn]

end taking

end Decoder

end PlatformGuard
