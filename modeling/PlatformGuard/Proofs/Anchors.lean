import PlatformGuard.Proofs.HashRuns
import PlatformGuard.Proofs.KeyBlobs

/-!
# The two kinds of anchor agree

A root key is compared part by part; a digest is compared with what an engine makes of four writes.  Both
describe the same trusted keys, up to collisions of the digest: what is hashed is the blob, and a blob belongs
to one key only.  An engine that fails any of its calls (`Breaks`) makes a digest trust nothing.
-/

namespace PlatformGuard

/-! ### Digests of several writes -/

namespace Hash

variable {η : Type} [Engine η]

/-- The engine gives the SHA-256 digest of any byte strings that are written one after the other. -/
def Capable (e : η) : Prop :=
  ∀ parts, ∃ e₁ e₂ e₃, Engine.start .sha256 e = (.ok (), e₁) ∧ Takes parts e₁ e₂ ∧
    Engine.finish Algorithm.sha256.size e₂ = (.ok (Algorithm.sha256.digest parts.flatten), e₃)

/-- Some call fails when the engine is to take the digest of byte strings: the start, a write behind others that
succeeded, or the end. -/
inductive Breaks (parts : List Bytes) (e : η) : Prop where
  | start {x : Error} {e₁ : η} : Engine.start .sha256 e = (.error x, e₁) → Breaks parts e
  | write {x : Error} {e₁ e₂ e₃ : η} {front rest : List Bytes} {bs : Bytes} :
      Engine.start .sha256 e = (.ok (), e₁) → parts = front ++ bs :: rest → Takes front e₁ e₂ →
      Engine.write bs e₂ = (.error x, e₃) → Breaks parts e
  | finish {x : Error} {e₁ e₂ e₃ : η} : Engine.start .sha256 e = (.ok (), e₁) → Takes parts e₁ e₂ →
      Engine.finish Algorithm.sha256.size e₂ = (.error x, e₃) → Breaks parts e

theorem Takes.unique {parts : List Bytes} {e e₁ e₂ : η} (h₁ : Takes parts e e₁) (h₂ : Takes parts e e₂) :
    e₁ = e₂ := by
  induction parts generalizing e with
  | nil => exact h₁.trans h₂.symm
  | cons bs rest ih =>
    obtain ⟨u₁, hw₁, h₁⟩ := h₁
    obtain ⟨u₂, hw₂, h₂⟩ := h₂
    cases hw₁.symm.trans hw₂
    exact ih h₁ h₂

theorem Takes.of_append {front rest : List Bytes} {e e' : η} (h : Takes (front ++ rest) e e') :
    ∃ e₁, Takes front e e₁ ∧ Takes rest e₁ e' := by
  induction front generalizing e with
  | nil => exact ⟨e, rfl, h⟩
  | cons bs front ih =>
    obtain ⟨e₁, hw, h⟩ := h
    obtain ⟨e₂, hfront, hrest⟩ := ih h
    exact ⟨e₂, ⟨e₁, hw, hfront⟩, hrest⟩

/-- Where a call fails, there is no digest. -/
theorem Breaks.not_computes {parts : List Bytes} {e : η} (hb : Breaks parts e) (e' : η) :
    ¬Computes parts e e' := by
  rintro ⟨e₁, e₂, d, hstart, htakes, hfinish⟩
  cases hb with
  | start h => cases hstart.symm.trans h
  | write h hparts hfront hwrite =>
    cases hstart.symm.trans h
    subst hparts
    obtain ⟨u, hu, v, hv, -⟩ := htakes.of_append
    cases hu.unique hfront
    cases hv.symm.trans hwrite
  | finish h ht hend =>
    cases hstart.symm.trans h
    cases htakes.unique ht
    cases hfinish.symm.trans hend

/-! ### Engines that are capable -/

theorem Simulates.takes {R : η → Session → Prop} (hR : Simulates R) {a : Algorithm} {w : Bytes} {e : η}
    (h : R e (some (a, w))) (parts : List Bytes) :
    ∃ e', Takes parts e e' ∧ R e' (some (a, w ++ parts.flatten)) := by
  induction parts generalizing e w with
  | nil => exact ⟨e, rfl, by simpa using h⟩
  | cons bs rest ih =>
    obtain ⟨e₁, hwrite, h₁⟩ := hR.write bs h
    obtain ⟨e₂, hrest, h₂⟩ := ih h₁
    exact ⟨e₂, ⟨e₁, hwrite, hrest⟩, by simpa using h₂⟩

/-- An idle engine that follows the automaton of sessions is capable. -/
theorem Simulates.capable {R : η → Session → Prop} (hR : Simulates R) {e : η} (h : R e none) :
    Capable e := by
  intro parts
  obtain ⟨e₁, hstart, h₁⟩ := hR.start .sha256 h
  obtain ⟨e₂, htakes, h₂⟩ := hR.takes h₁ parts
  obtain ⟨e₃, hfinish, -⟩ := hR.finish h₂
  exact ⟨e₁, e₂, e₃, hstart, htakes, hfinish⟩

end Hash

/-! ### What an anchor admits -/

namespace Manifest.Anchor

open Hash

section admitting
variable {η : Type} [Engine η]

theorem admits_rootKey_iff {root key : PublicKey} {e : η} :
    ((rootKey root).admits key e).1 = .ok () ↔
      root.modulus = key.modulus ∧ root.exponent = key.exponent := by
  simp only [admits]
  by_cases hk : root.ctEq key = true
  · rw [if_pos hk]
    obtain rfl := ctEq_iff.1 hk
    exact ⟨fun _ => ⟨rfl, rfl⟩, fun _ => rfl⟩
  · rw [if_neg hk]
    constructor
    · intro h
      cases h
    · rintro ⟨hm, he⟩
      exact absurd (ctEq_iff.2 (key_ext hm he)) hk

/-- A capable engine decides whether a digest is that of a blob. -/
theorem expectBlob_of_capable {e : η} (hc : Capable e) (key : PublicKey) (digest : Bytes) :
    (expectBlob key digest e).1 =
      if digest = Algorithm.sha256.digest key.toBlob then .ok () else .error .unspecified := by
  obtain ⟨e₁, e₂, e₃, hstart, htakes, hfinish⟩ := hc key.fields
  have hfeeding := feeding_of_ok (writeEach_eq_ok.2 htakes)
  have hclose : close .sha256 Algorithm.sha256.size e₂ =
      (.ok (Algorithm.sha256.digest key.toBlob), e₃) := close_eq_ok.2 hfinish
  simp only [expectBlob, expect, Steps.bind_apply, hstart, hfeeding, hclose]
  by_cases hd : digest = Algorithm.sha256.digest key.toBlob
  · rw [if_pos hd, if_pos (Bytes.ctEq_iff.2 hd.symm)]
    rfl
  · rw [if_neg hd, if_neg fun h => hd (Bytes.ctEq_iff.1 h).symm]
    rfl

theorem admits_keyDigest_iff {key : PublicKey} {digest : Bytes} {e : η} (hc : Capable e) :
    ((keyDigest digest).admits key e).1 = .ok () ↔ digest = Algorithm.sha256.digest key.toBlob := by
  simp only [admits, Steps.adapt_apply, Steps.mapError_eq_ok, expectBlob_of_capable hc]
  split
  · exact iff_of_true rfl ‹_›
  · refine iff_of_false (fun h => ?_) ‹_›
    cases h

/-- A digest trusts nothing where the engine fails. -/
theorem admits_of_breaks {key : PublicKey} {digest : Bytes} {e : η} (hb : Breaks key.fields e) :
    ((keyDigest digest).admits key e).1 = .error .verifyFailed := by
  rcases h : (keyDigest digest).admits key e with ⟨x | _, e'⟩
  · rw [admits_error h]
  · exact absurd (computes_of_expectBlob (Steps.adapt_eq_ok.1 h)) (hb.not_computes e')

end admitting

/-! ### Agreement -/

/-- What the two kinds of anchor admit, and what they have in common. -/
structure Agreement : Prop where
  rootKey : ∀ {η : Type} [Engine η] (root key : PublicKey) (e : η),
    ((Anchor.rootKey root).admits key e).1 = .ok () ↔
      root.modulus = key.modulus ∧ root.exponent = key.exponent
  keyDigest : ∀ {η : Type} [Engine η] {e : η}, Capable e → ∀ (key : PublicKey) (digest : Bytes),
    ((Anchor.keyDigest digest).admits key e).1 = .ok () ↔
      digest = Algorithm.sha256.digest key.toBlob
  /-- The digest of the root key's blob trusts every key that the root key trusts. -/
  digest_of_root : ∀ {η : Type} [Engine η] {e : η}, Capable e → ∀ root key : PublicKey,
    ((Anchor.rootKey root).admits key e).1 = .ok () →
      ((Anchor.keyDigest (Algorithm.sha256.digest root.toBlob)).admits key e).1 = .ok ()
  /-- Whatever else it trusts collides with the root key. -/
  collision : ∀ {η : Type} [Engine η] {e : η}, Capable e → ∀ root key : PublicKey,
    ((Anchor.keyDigest (Algorithm.sha256.digest root.toBlob)).admits key e).1 = .ok () → key ≠ root →
      key.toBlob ≠ root.toBlob ∧
        Algorithm.sha256.digest key.toBlob = Algorithm.sha256.digest root.toBlob
  breaks : ∀ {η : Type} [Engine η] {e : η} (key : PublicKey) (digest : Bytes), Breaks key.fields e →
    ((Anchor.keyDigest digest).admits key e).1 = .error .verifyFailed
  refusal : ∀ {η : Type} [Engine η] {a : Anchor} {key : PublicKey} {e : η} {x : Manifest.Error},
    (a.admits key e).1 = .error x → x = .verifyFailed

/-- **The two kinds of anchor agree.** -/
theorem anchors_agree : Agreement where
  rootKey _ _ _ := admits_rootKey_iff
  keyDigest hc _ _ := admits_keyDigest_iff hc
  digest_of_root hc root key h := by
    obtain ⟨hm, he⟩ := admits_rootKey_iff.1 h
    rw [admits_keyDigest_iff hc, key_ext hm he]
  collision hc root key h hne := by
    have hdigest := (admits_keyDigest_iff hc).1 h
    exact ⟨fun hblob => hne (PublicKey.toBlob_injective hblob), hdigest.symm⟩
  breaks _ _ hb := admits_of_breaks hb
  refusal h := admits_error (Prod.ext h rfl)

/-- An idle engine whose fourth write fails. -/
def thriceWriting : Faulty SoftEngine := ⟨.idle, some ⟨.write, 3, .unspecified⟩⟩

/-- The digest of a key trusts it, with an engine that keeps the bytes and with one over streams, and nothing
when the last part of the blob cannot be written. -/
theorem idleKey_agreement :
    let anchor := Anchor.keyDigest (Algorithm.sha256.digest StoredManifest.idleKey.toBlob)
    Capable SoftEngine.idle ∧ (anchor.admits StoredManifest.idleKey SoftEngine.idle).1 = .ok () ∧
    Capable (Over.idle : Over Streamed) ∧
    (anchor.admits StoredManifest.idleKey (Over.idle : Over Streamed)).1 = .ok () ∧
    Breaks StoredManifest.idleKey.fields thriceWriting ∧
    (anchor.admits StoredManifest.idleKey thriceWriting).1 = .error .verifyFailed := by
  intro anchor
  have hsoft : Capable SoftEngine.idle := simulates_softEngine.capable rfl
  have hover : Capable (Over.idle : Over Streamed) := Over.simulates.capable .idle
  have hparts : StoredManifest.idleKey.fields =
      StoredManifest.idleKey.fields.take 3 ++ [StoredManifest.idleKey.exponent] := rfl
  have hbreaks : Breaks StoredManifest.idleKey.fields thriceWriting :=
    .write rfl hparts ⟨_, rfl, _, rfl, _, rfl, rfl⟩ rfl
  have hroot := anchors_agree.digest_of_root hsoft _ StoredManifest.idleKey
    ((anchors_agree.rootKey _ _ _).2 ⟨rfl, rfl⟩)
  exact ⟨hsoft, hroot, hover, (anchors_agree.keyDigest hover _ _).2 rfl, hbreaks,
    anchors_agree.breaks _ _ hbreaks⟩

end Manifest.Anchor

end PlatformGuard
