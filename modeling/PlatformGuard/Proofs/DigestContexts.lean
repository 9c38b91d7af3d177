import Mathlib.Data.List.Basic
import PlatformGuard.Hash.Software

/-!
# Digests that are computed as the message comes in

The software engine keeps the bytes of its session and computes the digest at the end.  An engine in bounded
memory keeps a context instead, which takes the message in piece by piece.  All that is asked of a context is
that the cuts between the pieces do not show in the digest (`Hash.Incremental`).

SHA-2 has such a context, `Sha2.Stream`: the chaining words behind the whole blocks so far, the bytes behind
those, and the length of the message.
-/

namespace PlatformGuard

/-! ### SHA-2 in blocks -/

namespace Sha2

section blocks
variable {ω : Type} [Word ω]

/-- The length of a block in bytes. -/
def block (ω : Type) [Word ω] : Nat := 16 * Word.width ω

/-- What stands behind a message of the given length. -/
def padding (width length : Nat) : Bytes :=
  let block := 16 * width
  let used := length + 1 + 2 * width
  0x80 :: Bytes.zeros ((block - used % block) % block) ++ Bytes.ofNatBE (2 * width) (8 * length)

theorem pad_eq (width : Nat) (message : Bytes) :
    pad width message = message ++ padding width message.length := by
  simp [pad, padding]

/-- Whole blocks can be mixed in before anything is known of what follows. -/
theorem absorb_append (n m : Nat) (s : State ω) {front : Bytes} (back : Bytes)
    (h : front.length = n * block ω) :
    absorb (n + m) s (front ++ back) = absorb m (absorb n s front) back := by
  induction n generalizing s front with
  | zero =>
    obtain rfl : front = [] := List.eq_nil_of_length_eq_zero (by simpa using h)
    rw [Nat.zero_add]
    rfl
  | succ n ih =>
    have hsplit : front.length = n * block ω + block ω := by rw [h, Nat.succ_mul]
    have hle : block ω ≤ front.length := by omega
    have hrest : (front.drop (block ω)).length = n * block ω := by
      rw [List.length_drop]
      omega
    rw [Nat.add_right_comm]
    change absorb (n + m) (compress s (words 16 ((front ++ back).take (block ω))))
      ((front ++ back).drop (block ω)) = _
    rw [List.take_append_of_le_length hle, List.drop_append_of_le_length hle]
    exact ih _ hrest

/-- Bytes behind the blocks that are mixed in do not matter. -/
theorem absorb_front (n : Nat) (s : State ω) {front : Bytes} (back : Bytes)
    (h : front.length = n * block ω) : absorb n s (front ++ back) = absorb n s front :=
  absorb_append n 0 s back h

/-- The whole blocks at the front of a byte string. -/
theorem length_wholeBlocks (bs : Bytes) :
    (bs.take (bs.length / block ω * block ω)).length = bs.length / block ω * block ω := by
  rw [List.length_take, Nat.min_eq_left (Nat.div_mul_le_self _ _)]

theorem length_toBytes (s : State ω) : s.toBytes.length = 8 * Word.width ω := by
  simp only [State.toBytes, List.flatMap_cons, List.flatMap_nil, List.append_nil, List.length_append,
    Bytes.length_ofNatBE]
  omega

/-! ### The stream -/

/-- A digest under way. -/
structure Stream (ω : Type) where
  /-- The chaining words behind the whole blocks of the message so far. -/
  chaining : State ω
  /-- The bytes behind the last whole block. -/
  rest : Bytes
  /-- The length of the message so far. -/
  length : Nat

namespace Stream

/-- Takes in the next piece of the message. -/
def update (s : Stream ω) (bs : Bytes) : Stream ω :=
  let bytes := s.rest ++ bs
  let blocks := bytes.length / block ω
  ⟨absorb blocks s.chaining bytes, bytes.drop (blocks * block ω), s.length + bs.length⟩

/-- The chaining words behind the last block, which the padding fills. -/
def finish (s : Stream ω) : Bytes :=
  let bytes := s.rest ++ padding (Word.width ω) s.length
  (absorb (bytes.length / block ω) s.chaining bytes).toBytes

/-- The stream has taken in a message, in whatever pieces. -/
structure Of (initial : State ω) (message : Bytes) (s : Stream ω) : Prop where
  length : s.length = message.length
  blocks : ∃ (n : Nat) (front : Bytes), message = front ++ s.rest ∧ front.length = n * block ω ∧
    s.chaining = absorb n initial front

variable {initial : State ω} {message : Bytes} {s : Stream ω}

theorem of_new (initial : State ω) : Of initial [] ⟨initial, [], 0⟩ := ⟨rfl, 0, [], rfl, by simp, rfl⟩

theorem Of.update (h : Of initial message s) (bs : Bytes) : Of initial (message ++ bs) (s.update bs) := by
  obtain ⟨n, front, rfl, hlength, hchaining⟩ := h.blocks
  have hl := h.length
  -- the blocks that this piece completes
  let m := (s.rest ++ bs).length / block ω
  have hcut : (s.rest ++ bs).take (m * block ω) ++ (s.rest ++ bs).drop (m * block ω) = s.rest ++ bs :=
    List.take_append_drop _ _
  have hm : ((s.rest ++ bs).take (m * block ω)).length = m * block ω := length_wholeBlocks _
  refine ⟨?_, n + m, front ++ (s.rest ++ bs).take (m * block ω), ?_, ?_, ?_⟩
  · rw [Stream.update, hl, ← List.length_append]
  · change _ = _ ++ (s.rest ++ bs).drop (m * block ω)
    rw [List.append_assoc, List.append_assoc, hcut]
  · rw [List.length_append, hlength, hm, Nat.add_mul]
  · rw [absorb_append n m initial _ hlength, ← hchaining, ← absorb_front m s.chaining _ hm, hcut]
    rfl

theorem Of.finish (hpos : 0 < block ω) (h : Of initial message s) : s.finish = run initial message := by
  obtain ⟨n, front, rfl, hlength, hchaining⟩ := h.blocks
  let bytes := s.rest ++ padding (Word.width ω) s.length
  have hpad : pad (Word.width ω) (front ++ s.rest) = front ++ bytes := by
    rw [pad_eq, ← h.length, List.append_assoc]
  -- the blocks of the front are counted apart from those of the rest
  have hcount : (front ++ bytes).length / block ω = n + bytes.length / block ω := by
    rw [List.length_append, hlength, Nat.add_comm, Nat.add_mul_div_right _ _ hpos, Nat.add_comm]
  have hwords : absorb (bytes.length / block ω) s.chaining bytes =
      absorb ((front ++ bytes).length / block ω) initial (front ++ bytes) := by
    rw [hcount, absorb_append n _ initial bytes hlength, hchaining]
  unfold run
  rw [hpad]
  exact congrArg State.toBytes hwords

end Stream

end blocks

end Sha2

/-! ### Contexts -/

namespace Hash

/-- A digest that takes its message in piece by piece. -/
class Context (κ : Type) where
  new : Algorithm → κ
  update : κ → Bytes → κ
  /-- The length of the digest. -/
  size : κ → Nat
  finish : κ → Bytes

/-- The digest is that of all pieces, wherever they are cut. -/
class Incremental (κ : Type) [Context κ] : Prop where
  size_update : ∀ (a : Algorithm) (pieces : List Bytes),
    Context.size (pieces.foldl Context.update (Context.new a : κ)) = a.size
  finish_update : ∀ (a : Algorithm) (pieces : List Bytes),
    Context.finish (pieces.foldl Context.update (Context.new a : κ)) = a.digest pieces.flatten

/-- An engine that keeps the context of its session. -/
inductive Over (κ : Type) where
  | idle
  | hashing (c : κ)

namespace Over

variable {κ : Type}

def isBusy : Over κ → Bool
  | idle => false
  | hashing _ => true

instance [Context κ] : Engine (Over κ) where
  supports _ _ := true
  start a
    | idle => (.ok (), hashing (Context.new a))
    | e => (.error .busy, e)
  write bs
    | idle => (.error .idle, idle)
    | hashing c => (.ok (), hashing (Context.update c bs))
  finish size
    | idle => (.error .idle, idle)
    | hashing c => if size = Context.size c then (.ok (Context.finish c), idle) else (.error .wrongSize, idle)
  cancel _ := idle

end Over

/-! ### The context of SHA-2 -/

/-- A stream for each algorithm. -/
inductive Streamed where
  | sha256 (s : Sha2.Stream UInt32)
  | sha384 (s : Sha2.Stream UInt64)
  | sha512 (s : Sha2.Stream UInt64)

namespace Streamed

instance : Context Streamed where
  new
    | .sha256 => sha256 ⟨Sha2.initial256, [], 0⟩
    | .sha384 => sha384 ⟨Sha2.initial384, [], 0⟩
    | .sha512 => sha512 ⟨Sha2.initial512, [], 0⟩
  update c bs :=
    match c with
    | sha256 s => sha256 (s.update bs)
    | sha384 s => sha384 (s.update bs)
    | sha512 s => sha512 (s.update bs)
  size
    | sha256 _ => Algorithm.sha256.size
    | sha384 _ => Algorithm.sha384.size
    | sha512 _ => Algorithm.sha512.size
  finish
    | sha256 s => s.finish
    | sha384 s => s.finish.take 48
    | sha512 s => s.finish

/-- The context has taken in a message for an algorithm. -/
inductive Of (message : Bytes) : Algorithm → Streamed → Prop
  | sha256 {s} : Sha2.Stream.Of Sha2.initial256 message s → Of message .sha256 (sha256 s)
  | sha384 {s} : Sha2.Stream.Of Sha2.initial384 message s → Of message .sha384 (sha384 s)
  | sha512 {s} : Sha2.Stream.Of Sha2.initial512 message s → Of message .sha512 (sha512 s)

theorem of_new (a : Algorithm) : Of [] a (Context.new a) := by
  cases a with
  | sha256 => exact .sha256 (Sha2.Stream.of_new _)
  | sha384 => exact .sha384 (Sha2.Stream.of_new _)
  | sha512 => exact .sha512 (Sha2.Stream.of_new _)

variable {message : Bytes} {a : Algorithm} {c : Streamed}

theorem Of.update (h : Of message a c) (bs : Bytes) : Of (message ++ bs) a (Context.update c bs) := by
  cases h with
  | sha256 hs => exact .sha256 (hs.update bs)
  | sha384 hs => exact .sha384 (hs.update bs)
  | sha512 hs => exact .sha512 (hs.update bs)

theorem Of.updates (h : Of message a c) (pieces : List Bytes) :
    Of (message ++ pieces.flatten) a (pieces.foldl Context.update c) := by
  induction pieces generalizing message c with
  | nil => simpa using h
  | cons bs rest ih =>
    rw [List.flatten_cons, ← List.append_assoc]
    exact ih (h.update bs)

theorem Of.size (h : Of message a c) : Context.size c = a.size := by
  cases h <;> rfl

theorem Of.finish (h : Of message a c) : Context.finish c = a.digest message := by
  cases h with
  | sha256 hs => exact hs.finish (by decide)
  | sha384 hs => exact congrArg (List.take 48) (hs.finish (by decide))
  | sha512 hs => exact hs.finish (by decide)

/-- The streams give the digests of SHA-2, wherever the message is cut. -/
instance : Incremental Streamed where
  size_update a pieces := ((of_new a).updates pieces).size
  finish_update a pieces := ((of_new a).updates pieces).finish

end Streamed

/-! ### The length of a digest -/

theorem length_digest (a : Algorithm) (message : Bytes) : (a.digest message).length = a.size := by
  cases a with
  | sha256 => exact Sha2.length_toBytes _
  | sha384 =>
    have h : (Sha2.run Sha2.initial384 message).length = 64 := Sha2.length_toBytes _
    exact List.length_take_of_le (by omega)
  | sha512 => exact Sha2.length_toBytes _

end Hash

end PlatformGuard
