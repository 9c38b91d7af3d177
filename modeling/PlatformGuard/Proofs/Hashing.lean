import PlatformGuard.Hash.Faulty
import PlatformGuard.Hash.Software
import PlatformGuard.Manifest.Trust
import PlatformGuard.Proofs.Bytes
import PlatformGuard.Proofs.Steps

/-!
# What a digest is a digest of

An engine is lawful if it keeps the contract of its sessions whenever a call succeeds: what was written
since the session was opened is what the digest is taken of.  A call may fail at any point, and what
the engine holds after a failure is left open, so the laws cover every engine that fails on demand.
-/

namespace PlatformGuard.Hash

/-- An engine whose successful calls keep the contract of a session. -/
class Lawful (η : Type) [Engine η] where
  /-- The algorithm of the open session and the bytes written to it. -/
  session : η → Option (Algorithm × Bytes)
  session_start : ∀ {a : Algorithm} {e e' : η}, Engine.start a e = (.ok (), e') →
    session e' = some (a, [])
  session_write : ∀ {a : Algorithm} {w bs : Bytes} {e e' : η}, session e = some (a, w) →
    Engine.write bs e = (.ok (), e') → session e' = some (a, w ++ bs)
  digest_finish : ∀ {a : Algorithm} {w d : Bytes} {n : Nat} {e e' : η}, session e = some (a, w) →
    Engine.finish n e = (.ok d, e') → d = a.digest w

open Lawful

/-! ### Uses of an engine -/

section uses
variable {η ε : Type} [Engine η]

theorem feeding_ok {feed : ExceptT ε (StateM η) Unit} {e e' : η}
    (h : feeding feed e = (.ok (), e')) : feed e = (.ok (), e') := by
  unfold feeding at h
  split at h
  · rename_i hf
    cases h
    exact hf
  · cases h

variable [Lawful η]

theorem close_ok {a : Algorithm} {w d : Bytes} {n : Nat} {e e' : η} (hs : session e = some (a, w))
    (h : close a n e = (.ok d, e')) : d = a.digest w := by
  unfold close at h
  by_cases hn : n = a.size
  · rw [if_pos hn] at h
    exact digest_finish hs h
  · rw [if_neg hn] at h
    cases h

/-- The digest of one byte string is its digest. -/
theorem contiguous_ok {a : Algorithm} {message d : Bytes} {n : Nat} {e e' : η}
    (h : contiguous a message n e = (.ok d, e')) : d = a.digest message := by
  obtain ⟨_, e₁, h₁, h⟩ := Steps.bind_eq_ok.1 h
  obtain ⟨_, e₂, h₂, h⟩ := Steps.bind_eq_ok.1 h
  have hs : session e₂ = some (a, [] ++ message) :=
    session_write (session_start h₁) (feeding_ok h₂)
  exact close_ok hs h

theorem expect_ok {a : Algorithm} {w expected : Bytes} {e e' : η} (hs : session e = some (a, w))
    (h : expect a expected e = (.ok (), e')) : expected = a.digest w := by
  obtain ⟨d, e₁, h₁, h⟩ := Steps.bind_eq_ok.1 h
  by_cases hd : Bytes.ctEq d expected = true
  · rw [← Bytes.ctEq_iff.1 hd]
    exact close_ok hs h₁
  · rw [if_neg hd] at h
    cases h

end uses

/-! ### Engines that are lawful -/

instance : Lawful SoftEngine where
  session
    | .idle => none
    | .hashing a w => some (a, w.toList)
  session_start {a e e'} h := by
    cases e <;> cases h
    rfl
  session_write {a w bs e e'} hs h := by
    cases e <;> cases h
    cases hs
    simp
  digest_finish {a w d n e e'} hs h := by
    cases e with
    | idle => cases hs
    | hashing b v =>
      cases hs
      simp only [Engine.finish] at h
      split at h <;> cases h
      rfl

/-- A call of an engine with a fault that succeeds is a call of the engine. -/
theorem Faulty.call_ok {η α : Type} {c : Call} {step : ExceptT Error (StateM η) α} {failed : η → η}
    {f f' : Faulty η} {r : α} (h : call c step failed f = (.ok r, f')) :
    step f.engine = (.ok r, f'.engine) := by
  unfold call at h
  split at h
  · cases h
  · obtain ⟨hr, rfl⟩ := Prod.mk.inj h
    exact Prod.ext hr rfl

instance {η : Type} [Engine η] [Lawful η] : Lawful (Faulty η) where
  session f := session f.engine
  session_start h := session_start (Faulty.call_ok h)
  session_write hs h := session_write hs (Faulty.call_ok h)
  digest_finish hs h := digest_finish hs (Faulty.call_ok h)

end PlatformGuard.Hash

/-! ### Anchors -/

namespace PlatformGuard.Manifest.Anchor

open Hash Hash.Lawful

/-- Whether an anchor vouches for a key: the key is the root key, or its blob has the trusted digest. -/
def Vouches (a : Anchor) (key : PublicKey) : Prop :=
  match a with
  | rootKey root => root = key
  | keyDigest digest => digest = Algorithm.sha256.digest key.toBlob

theorem key_ext {k l : PublicKey} (hm : k.modulus = l.modulus) (he : k.exponent = l.exponent) :
    k = l := by
  cases k
  cases l
  cases hm
  cases he
  rfl

variable {η : Type} [Engine η] [Lawful η]

theorem writeEach_ok {a : Algorithm} {w : Bytes} {parts : List Bytes} {e e' : η}
    (hs : session e = some (a, w)) (h : writeEach parts e = (.ok (), e')) :
    session e' = some (a, w ++ parts.flatten) := by
  induction parts generalizing w e with
  | nil =>
    cases h
    simpa using hs
  | cons bs rest ih =>
    obtain ⟨_, e₁, h₁, h⟩ := Steps.bind_eq_ok.1 h
    rw [List.flatten_cons, ← List.append_assoc]
    exact ih (session_write hs h₁) h

theorem expectBlob_ok {key : PublicKey} {digest : Bytes} {e e' : η}
    (h : expectBlob key digest e = (.ok (), e')) :
    digest = Algorithm.sha256.digest key.toBlob := by
  obtain ⟨_, e₁, h₁, h⟩ := Steps.bind_eq_ok.1 h
  obtain ⟨_, e₂, h₂, h⟩ := Steps.bind_eq_ok.1 h
  have hs : session e₂ = some (.sha256, [] ++ key.fields.flatten) :=
    writeEach_ok (session_start h₁) (feeding_ok h₂)
  exact expect_ok hs h

/-- An anchor admits only keys that it vouches for. -/
theorem admits_ok {a : Anchor} {key : PublicKey} {e e' : η} (h : a.admits key e = (.ok (), e')) :
    a.Vouches key := by
  cases a with
  | rootKey root =>
    simp only [admits] at h
    by_cases hk : root.ctEq key = true
    · obtain ⟨hm, he⟩ := (Bool.and_eq_true_iff).1 hk
      exact key_ext (Bytes.ctEq_iff.1 hm) (Bytes.ctEq_iff.1 he)
    · rw [if_neg hk] at h
      cases h
  | keyDigest digest =>
    exact expectBlob_ok (Steps.adapt_eq_ok.1 h)

/-- Whether a manifest that came with the key `stored`, or with none, has to be signed with `key`. -/
def Demands (a : Anchor) (stored : Option PublicKey) (key : PublicKey) : Prop :=
  match stored with
  | none => a = rootKey key
  | some k => k = key ∧ a.Vouches key

theorem signer_ok {a : Anchor} {stored : Option PublicKey} {key : PublicKey} {e e' : η}
    (h : a.signer stored e = (.ok key, e')) : a.Demands stored key := by
  cases stored with
  | none =>
    cases a with
    | rootKey root =>
      cases h
      rfl
    | keyDigest digest => cases h
  | some k =>
    obtain ⟨_, e₁, h₁, h⟩ := Steps.bind_eq_ok.1 h
    cases h
    exact ⟨rfl, admits_ok h₁⟩

end PlatformGuard.Manifest.Anchor
