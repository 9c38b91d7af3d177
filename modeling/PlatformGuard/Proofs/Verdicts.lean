import PlatformGuard.Proofs.Accepting
import PlatformGuard.Proofs.Authentication

/-!
# Verdicts

A verification ends in one of two ways, and what decides between them can be said without the steps of
the verification: a key that is trusted (`HasKey`), a digest that the engine computes (`Hash.Computes`) and
that is the expected one, a verifier that says yes, and bytes that are a manifest (`Passes`).  Each is
needed and together they are enough.  Where the first to fail is one of those about trust (`Distrusted`),
the error is the same for all of them.

The lemmas follow the verification from the inside out: each step succeeds exactly if its condition
holds, and each step about trust has one error only.
-/

namespace PlatformGuard

/-! ### Digests that an engine computes -/

namespace Hash

section computing
variable {η : Type} [Engine η]

/-- The engine takes byte strings one after the other. -/
def Takes : List Bytes → η → η → Prop
  | [], e, e' => e' = e
  | bs :: rest, e, e' => ∃ e₁, Engine.write bs e = (.ok (), e₁) ∧ Takes rest e₁ e'

/-- The engine computes a SHA-256 digest of byte strings: no call of the session fails. -/
def Computes (parts : List Bytes) (e e' : η) : Prop :=
  ∃ e₁ e₂ d, Engine.start .sha256 e = (.ok (), e₁) ∧ Takes parts e₁ e₂ ∧
    Engine.finish Algorithm.sha256.size e₂ = (.ok d, e')

theorem close_eq_ok {a : Algorithm} {d : Bytes} {e e' : η} :
    close a a.size e = (.ok d, e') ↔ Engine.finish a.size e = (.ok d, e') := by
  unfold close
  rw [if_pos rfl]

variable [Lawful η]

/-- A digest of one byte string is given exactly if the engine computes it. -/
theorem contiguous_eq_ok {message d : Bytes} {e e' : η} :
    contiguous .sha256 message Algorithm.sha256.size e = (.ok d, e') ↔
      d = Algorithm.sha256.digest message ∧ Computes [message] e e' := by
  constructor
  · intro h
    have hd := contiguous_ok h
    obtain ⟨_, e₁, hstart, h⟩ := Steps.bind_eq_ok.1 h
    obtain ⟨_, e₂, hwrite, h⟩ := Steps.bind_eq_ok.1 h
    exact ⟨hd, e₁, e₂, d, hstart, ⟨e₂, feeding_ok hwrite, rfl⟩, close_eq_ok.1 h⟩
  · rintro ⟨rfl, e₁, e₂, d, hstart, ⟨e₃, hwrite, rfl⟩, hfinish⟩
    have hclose := close_eq_ok.2 hfinish
    have hs : Lawful.session e₂ = some (.sha256, [] ++ message) :=
      Lawful.session_write (Lawful.session_start hstart) hwrite
    rw [close_ok hs hclose] at hclose
    exact Steps.bind_eq_ok.2 ⟨(), e₁, hstart, Steps.bind_eq_ok.2 ⟨(), e₂, feeding_of_ok hwrite, hclose⟩⟩

theorem Working.computes {e : η} (hw : Working e) (message : Bytes) : ∃ e', Computes [message] e e' := by
  obtain ⟨e', hdigest, -⟩ := hw.contiguous .sha256 message
  exact ⟨e', (contiguous_eq_ok.1 hdigest).2⟩

end computing

end Hash

/-! ### Anchors -/

namespace Manifest.Anchor

open Hash

variable {η : Type} [Engine η]

/-- An anchor admits a key: it vouches for the key, and where it knows a digest only, the engine computes
the digest of the key's blob. -/
def Admits (a : Anchor) (key : PublicKey) (e e' : η) : Prop :=
  a.Vouches key ∧ match a with
    | rootKey _ => e' = e
    | keyDigest _ => Computes key.fields e e'

theorem writeEach_eq_ok {parts : List Bytes} {e e' : η} :
    writeEach parts e = (.ok (), e') ↔ Takes parts e e' := by
  induction parts generalizing e with
  | nil =>
    constructor
    · intro h
      cases h
      rfl
    · rintro rfl
      rfl
  | cons bs rest ih =>
    constructor
    · intro h
      obtain ⟨_, e₁, hwrite, hrest⟩ := Steps.bind_eq_ok.1 h
      exact ⟨e₁, hwrite, ih.1 hrest⟩
    · rintro ⟨e₁, hwrite, hrest⟩
      exact Steps.bind_eq_ok.2 ⟨(), e₁, hwrite, ih.2 hrest⟩

theorem ctEq_iff {k l : PublicKey} : k.ctEq l = true ↔ k = l := by
  constructor
  · intro h
    obtain ⟨hm, he⟩ := Bool.and_eq_true_iff.1 h
    exact key_ext (Bytes.ctEq_iff.1 hm) (Bytes.ctEq_iff.1 he)
  · rintro rfl
    exact Bool.and_eq_true_iff.2 ⟨Bytes.ctEq_iff.2 rfl, Bytes.ctEq_iff.2 rfl⟩

/-- Whatever goes wrong, an anchor says the same. -/
theorem admits_error {a : Anchor} {key : PublicKey} {e e' : η} {x : Manifest.Error}
    (h : a.admits key e = (.error x, e')) : x = .verifyFailed := by
  cases a with
  | rootKey root =>
    simp only [admits] at h
    by_cases hk : root.ctEq key = true
    · rw [if_pos hk] at h
      cases h
    · rw [if_neg hk] at h
      cases h
      rfl
  | keyDigest digest =>
    simp only [admits, Steps.adapt_apply] at h
    rcases hr : (expectBlob key digest e).1 with y | _
    · rw [hr] at h
      cases h
      rfl
    · rw [hr] at h
      cases h

/-- A digest that is accepted was computed. -/
theorem computes_of_expectBlob {key : PublicKey} {digest : Bytes} {e e' : η}
    (h : expectBlob key digest e = (.ok (), e')) : Computes key.fields e e' := by
  obtain ⟨_, e₁, hstart, h⟩ := Steps.bind_eq_ok.1 h
  obtain ⟨_, e₂, hwrite, h⟩ := Steps.bind_eq_ok.1 h
  obtain ⟨d, e₃, hclose, h⟩ := Steps.bind_eq_ok.1 h
  refine ⟨e₁, e₂, d, hstart, writeEach_eq_ok.1 (feeding_ok hwrite), ?_⟩
  by_cases hctEq : Bytes.ctEq d digest = true
  · rw [if_pos hctEq] at h
    cases h
    exact close_eq_ok.1 hclose
  · rw [if_neg hctEq] at h
    cases h

variable [Lawful η]

theorem expectBlob_eq_ok {key : PublicKey} {digest : Bytes} {e e' : η} :
    expectBlob key digest e = (.ok (), e') ↔
      digest = Algorithm.sha256.digest key.toBlob ∧ Computes key.fields e e' := by
  constructor
  · intro h
    exact ⟨expectBlob_ok h, computes_of_expectBlob h⟩
  · rintro ⟨rfl, e₁, e₂, d, hstart, htakes, hfinish⟩
    have hwrite := writeEach_eq_ok.2 htakes
    have hs : Lawful.session e₂ = some (.sha256, [] ++ key.fields.flatten) :=
      writeEach_ok (Lawful.session_start hstart) hwrite
    have hclose := close_eq_ok.2 hfinish
    have hd : d = Algorithm.sha256.digest key.toBlob := close_ok hs hclose
    have hexpect : expect .sha256 (Algorithm.sha256.digest key.toBlob) e₂ = (.ok (), e') := by
      refine Steps.bind_eq_ok.2 ⟨d, e', hclose, ?_⟩
      rw [if_pos (Bytes.ctEq_iff.2 hd)]
      rfl
    exact Steps.bind_eq_ok.2 ⟨(), e₁, hstart, Steps.bind_eq_ok.2 ⟨(), e₂, feeding_of_ok hwrite, hexpect⟩⟩

/-- The check of an anchor succeeds exactly for the keys that it admits. -/
theorem admits_eq_ok {a : Anchor} {key : PublicKey} {e e' : η} :
    a.admits key e = (.ok (), e') ↔ a.Admits key e e' := by
  cases a with
  | rootKey root =>
    constructor
    · intro h
      have hv : (rootKey root).Vouches key := admits_ok h
      simp only [admits] at h
      rw [if_pos (ctEq_iff.2 hv)] at h
      cases h
      exact ⟨hv, rfl⟩
    · rintro ⟨hv, rfl⟩
      simp only [admits]
      rw [if_pos (ctEq_iff.2 hv)]
      rfl
  | keyDigest digest => exact Steps.adapt_eq_ok.trans expectBlob_eq_ok

omit [Lawful η] in
theorem signer_none {a : Anchor} {key : PublicKey} {e e' : η} :
    a.signer none e = (.ok key, e') ↔ a = rootKey key ∧ e' = e := by
  cases a with
  | rootKey root =>
    constructor
    · intro h
      cases h
      exact ⟨rfl, rfl⟩
    · rintro ⟨h, rfl⟩
      cases h
      rfl
  | keyDigest digest =>
    constructor
    · intro h
      cases h
    · rintro ⟨h, -⟩
      cases h

theorem signer_some {a : Anchor} {k key : PublicKey} {e e' : η} :
    a.signer (some k) e = (.ok key, e') ↔ k = key ∧ a.Admits key e e' := by
  constructor
  · intro h
    obtain ⟨_, e₁, hadmits, h⟩ := Steps.bind_eq_ok.1 h
    cases h
    exact ⟨rfl, admits_eq_ok.1 hadmits⟩
  · rintro ⟨rfl, hadmits⟩
    exact Steps.bind_eq_ok.2 ⟨(), e', admits_eq_ok.2 hadmits, rfl⟩

end Manifest.Anchor

/-! ### Signatures -/

namespace Engines

variable {η ν ε : Type} [Hash.Engine η] [Signature.Verifier ν]

/-- Whatever goes wrong, a signature is refused in the same way. -/
theorem verifySigned_error {refusal x : ε} {key : PublicKey} {covered signature : Bytes}
    {expected : Option Bytes} {e e' : Engines η ν}
    (h : verifySigned refusal key covered signature expected e = (.error x, e')) : x = refusal := by
  -- every step of it renames its errors, so that none of them can be another one
  have hrenamed : ∀ {δ α : Type} {r : Except δ α}, r.mapError (fun _ => refusal) = .error x →
      x = refusal := by
    intro δ α r hr
    cases r with
    | error y => exact (Except.error.inj hr).symm
    | ok a => cases hr
  rcases Steps.bind_eq_error.1 h with hhash | ⟨d, e₁, -, h⟩
  · exact hrenamed (congrArg Prod.fst hhash)
  · by_cases hx : expected.all (Bytes.ctEq d) = true
    · rw [hx] at h
      exact hrenamed (congrArg Prod.fst h)
    · rw [Bool.not_eq_true] at hx
      rw [hx] at h
      cases h
      rfl

variable [Hash.Lawful η]

/-- A signature is accepted exactly if the digest can be computed, is the expected one, and the verifier
says yes. -/
theorem verifySigned_eq_ok {refusal : ε} {key : PublicKey} {covered signature : Bytes}
    {expected : Option Bytes} {e e' : Engines η ν} :
    verifySigned refusal key covered signature expected e = (.ok (), e') ↔
      Hash.Computes [covered] e.hash e'.hash ∧
      (∀ d ∈ expected, d = Hash.Algorithm.sha256.digest covered) ∧
      Signature.Verifier.verify ⟨key, signature, Hash.Algorithm.sha256.digest covered⟩ e.signature =
        (.ok (), e'.signature) := by
  constructor
  · intro h
    obtain ⟨hexpected, hasked⟩ := verifySigned_ok h
    refine ⟨?_, hexpected, hasked⟩
    obtain ⟨d, e₁, hhash, h⟩ := Steps.bind_eq_ok.1 h
    have hcomputes := (Hash.contiguous_eq_ok.1 (onHash_ok.1 hhash).1).2
    by_cases hx : expected.all (Bytes.ctEq d) = true
    · rw [hx] at h
      rw [(onSignature_ok.1 h).2]
      exact hcomputes
    · rw [Bool.not_eq_true] at hx
      rw [hx] at h
      cases h
  · rintro ⟨hcomputes, hexpected, hasked⟩
    have hhash := Hash.contiguous_eq_ok.2 ⟨rfl, hcomputes⟩
    have hall : expected.all (Bytes.ctEq (Hash.Algorithm.sha256.digest covered)) = true := by
      cases expected with
      | none => rfl
      | some d => exact Bytes.ctEq_iff.2 (hexpected d rfl).symm
    refine Steps.bind_eq_ok.2 ⟨_, ⟨e'.hash, e.signature⟩, onHash_ok.2 ⟨hhash, rfl⟩, ?_⟩
    rw [hall]
    exact onSignature_ok.2 ⟨hasked, rfl⟩

/-- Where no digest is expected, it is the verifier who decides. -/
theorem verifySigned_of_computes {refusal : ε} {key : PublicKey} {covered signature : Bytes}
    {e : Engines η ν} {h : η} (hc : Hash.Computes [covered] e.hash h) :
    verifySigned refusal key covered signature none e =
      let answer := Signature.Verifier.verify
        ⟨key, signature, Hash.Algorithm.sha256.digest covered⟩ e.signature
      (answer.1.mapError fun _ => refusal, ⟨h, answer.2⟩) := by
  have hdigest : onHash (fun _ => refusal)
      (Hash.contiguous .sha256 covered Hash.Algorithm.sha256.size) e =
        (.ok (Hash.Algorithm.sha256.digest covered), ⟨h, e.signature⟩) :=
    onHash_ok.2 ⟨Hash.contiguous_eq_ok.2 ⟨rfl, hc⟩, rfl⟩
  unfold verifySigned
  rw [Steps.bind_apply, hdigest]
  rfl

/-- Without a digest the verifier is not asked. -/
theorem verifySigned_of_fault {refusal : ε} {key : PublicKey} {covered signature : Bytes}
    {expected : Option Bytes} {e : Engines η ν} (hf : ∀ h, ¬Hash.Computes [covered] e.hash h) :
    ∃ h, verifySigned refusal key covered signature expected e = (.error refusal, ⟨h, e.signature⟩) := by
  rcases hd : Hash.contiguous .sha256 covered Hash.Algorithm.sha256.size e.hash with ⟨x | d, h⟩
  · refine ⟨h, Steps.bind_eq_error.2 (.inl ?_)⟩
    unfold onHash
    rw [hd]
    rfl
  · exact absurd (Hash.contiguous_eq_ok.1 hd).2 (hf h)

/-- An idle hash engine beside a verifier that gives the same answer to every question. -/
def deciding (answer : Except Signature.Error Unit) :
    Engines Hash.SoftEngine (Signature.Transcript (Signature.Forced Rsa.SoftVerifier)) :=
  ⟨.idle, ⟨⟨⟨⟩, some answer⟩, []⟩⟩

end Engines

namespace StoredManifest

open Manifest

variable {φ : Type} [Flash φ]

/-! ### The key behind a manifest -/

/-- The parts of a key blob that lies in flash: its two length fields can be read, it fits its cache, and
it can be read and is the blob of a key. -/
structure BlobAt (s : StoredManifest φ) (offset : Nat) (modulusLength exponentLength blob : Bytes)
    (key : PublicKey) : Prop where
  modulusLength_read : s.readAt offset 2 = .ok modulusLength
  modulusLength_le : Bytes.toNatLE modulusLength ≤ PublicKey.maxSignatureSize
  exponentLength_read : s.readAt (offset + 2 + Bytes.toNatLE modulusLength) 1 = .ok exponentLength
  room : blob.length ≤ s.caches.key.length
  length_eq : blob.length = 2 + Bytes.toNatLE modulusLength + 1 + Bytes.toNatLE exponentLength
  blob_read : s.readAt offset blob.length = .ok blob
  key_eq : PublicKey.ofBlob blob = .ok key

/-- Behind a manifest of the given length lies a key. -/
def HoldsKey (s : StoredManifest φ) (length : Nat) (key : PublicKey) : Prop :=
  ∃ modulusLength exponentLength blob, s.BlobAt length modulusLength exponentLength blob key

theorem keyBlobLength_eq_ok {s : StoredManifest φ} {length n : Nat} :
    s.keyBlobLength length = .ok n ↔ ∃ modulusLength exponentLength,
      s.readAt length 2 = .ok modulusLength ∧
      Bytes.toNatLE modulusLength ≤ PublicKey.maxSignatureSize ∧
      s.readAt (length + 2 + Bytes.toNatLE modulusLength) 1 = .ok exponentLength ∧
      n = 2 + Bytes.toNatLE modulusLength + 1 + Bytes.toNatLE exponentLength := by
  unfold keyBlobLength
  constructor
  · intro h
    obtain ⟨modulusLength, hm, h⟩ := Steps.exceptBind_eq_ok.1 h
    by_cases hle : PublicKey.maxSignatureSize < Bytes.toNatLE modulusLength
    · rw [if_pos hle] at h
      cases h
    · rw [if_neg hle] at h
      obtain ⟨exponentLength, he, h⟩ := Steps.exceptBind_eq_ok.1 h
      cases h
      exact ⟨modulusLength, exponentLength, hm, Nat.le_of_not_lt hle, he, rfl⟩
  · rintro ⟨modulusLength, exponentLength, hm, hle, he, rfl⟩
    refine Steps.exceptBind_eq_ok.2 ⟨modulusLength, hm, ?_⟩
    rw [if_neg (Nat.not_lt_of_le hle)]
    exact Steps.exceptBind_eq_ok.2 ⟨exponentLength, he, rfl⟩

/-- The key behind a manifest of the second format is found exactly if there is one. -/
theorem storedKey_v2 {s : StoredManifest φ} {header : Header} {stored : Option PublicKey}
    (hf : header.format = .v2) : (storedKey header s).1 = .ok stored ↔
      ∃ key, stored = some key ∧ s.HoldsKey header.length.toNat key := by
  constructor
  · intro h
    have hstep : storedKey header s = (.ok stored, (storedKey header s).2) := Prod.ext h rfl
    obtain ⟨blob, key, hcache, hkey, rfl⟩ := (storedKey_eq_ok hf).1 hstep
    obtain ⟨n, hn, hroom, hblob, -⟩ := cacheKey_eq_ok.1 hcache
    obtain ⟨modulusLength, exponentLength, hm, hle, he, rfl⟩ := keyBlobLength_eq_ok.1 hn
    have hlength := length_readAt hblob
    exact ⟨key, rfl, modulusLength, exponentLength, blob, hm, hle, he, hlength ▸ hroom, hlength,
      hlength.symm ▸ hblob, hkey⟩
  · rintro ⟨key, rfl, modulusLength, exponentLength, blob, hb⟩
    have hn := keyBlobLength_eq_ok.2
      ⟨_, _, hb.modulusLength_read, hb.modulusLength_le, hb.exponentLength_read, hb.length_eq⟩
    have hcache := cacheKey_eq_ok.2 ⟨_, hn, hb.room, hb.blob_read, rfl⟩
    exact congrArg Prod.fst ((storedKey_eq_ok hf).2 ⟨blob, key, hcache, hb.key_eq, rfl⟩)

theorem storedKey_legacy {s : StoredManifest φ} {header : Header} (hf : header.format = .legacy) :
    (storedKey header s).1 = .ok none := by
  unfold storedKey
  simp only [hf]
  rfl

section verifying
variable {η ν : Type} [Hash.Engine η] [Signature.Verifier ν]

/-- The key that a manifest has to be signed with, and what it does to the hash engine to make sure of
it: a legacy manifest has to be signed with the root key, and one of the second format with the key that
lies behind it and that the anchor admits. -/
def HasKey (s : StoredManifest φ) (anchor : Anchor) (header : Header) (key : PublicKey) (h h' : η) :
    Prop :=
  match header.format with
  | .legacy => anchor = .rootKey key ∧ h' = h
  | .v2 => s.HoldsKey header.length.toNat key ∧ anchor.Admits key h h'

/-- What is cached passes its verification. -/
structure Passes (s : StoredManifest φ) (anchor : Anchor) (expected : Option Bytes) (header : Header)
    (e : Engines η ν) (key : PublicKey) (h h' : η) : Prop where
  hasKey : s.HasKey anchor header key e.hash h
  computes : Hash.Computes [(s.cached header).signed] h h'
  expected_eq : ∀ d ∈ expected, d = Hash.Algorithm.sha256.digest (s.cached header).signed
  answered : (Signature.Verifier.verify (s.question header key) e.signature).1 = .ok ()
  parsed : ∃ m, Manifest.parse (s.cached header).bytes = .ok m

/-- What is cached is not trusted: the first check that fails is that of the anchor, which refuses the key
that lies behind the manifest, that of the hash engine, that of the expected digest, or that of the
verifier. -/
inductive Distrusted (s : StoredManifest φ) (anchor : Anchor) (expected : Option Bytes)
    (header : Header) (e : Engines η ν) : Prop
  | anchor (key : PublicKey) (format_eq : header.format = .v2)
      (holds : s.HoldsKey header.length.toNat key) (refused : ∀ h, ¬anchor.Admits key e.hash h)
  | hashing (key : PublicKey) (h : η) (hasKey : s.HasKey anchor header key e.hash h)
      (failed : ∀ h', ¬Hash.Computes [(s.cached header).signed] h h')
  | expected (key : PublicKey) (h h' : η) (hasKey : s.HasKey anchor header key e.hash h)
      (computes : Hash.Computes [(s.cached header).signed] h h') (d : Bytes) (mem : d ∈ expected)
      (ne : d ≠ Hash.Algorithm.sha256.digest (s.cached header).signed)
  | signature (key : PublicKey) (h h' : η) (hasKey : s.HasKey anchor header key e.hash h)
      (computes : Hash.Computes [(s.cached header).signed] h h')
      (expected_eq : ∀ d ∈ expected, d = Hash.Algorithm.sha256.digest (s.cached header).signed)
      (refused : (Signature.Verifier.verify (s.question header key) e.signature).1 ≠ .ok ())

variable [Hash.Lawful η]

/-- Finding the key and asking the anchor about it leads to a key exactly if there is one to trust. -/
theorem hasKey_iff {s : StoredManifest φ} {anchor : Anchor} {header : Header} {key : PublicKey}
    {h h' : η} : s.HasKey anchor header key h h' ↔
      ∃ stored, (storedKey header s).1 = .ok stored ∧ anchor.signer stored h = (.ok key, h') := by
  unfold HasKey
  cases hf : header.format with
  | legacy =>
    have hstored : (storedKey header s).1 = .ok none := storedKey_legacy hf
    constructor
    · intro hkey
      exact ⟨none, hstored, Anchor.signer_none.2 hkey⟩
    · rintro ⟨stored, hstored', hsigner⟩
      rw [hstored] at hstored'
      cases hstored'
      exact Anchor.signer_none.1 hsigner
  | v2 =>
    constructor
    · rintro ⟨hholds, hadmits⟩
      exact ⟨some key, (storedKey_v2 hf).2 ⟨key, rfl, hholds⟩, Anchor.signer_some.2 ⟨rfl, hadmits⟩⟩
    · rintro ⟨stored, hstored, hsigner⟩
      obtain ⟨k, rfl, hholds⟩ := (storedKey_v2 hf).1 hstored
      obtain ⟨rfl, hadmits⟩ := Anchor.signer_some.1 hsigner
      exact ⟨hholds, hadmits⟩

omit [Hash.Lawful η] in
theorem judge_eq_ok {envelope : Envelope} {stored : Except Error (Option PublicKey)} {anchor : Anchor}
    {expected : Option Bytes} {e e' : Engines η ν} :
    judge envelope stored anchor expected e = (.ok (), e') ↔
      ∃ o key h, stored = .ok o ∧ anchor.signer o e.hash = (.ok key, h) ∧
        Engines.verifySigned Error.verifyFailed key envelope.signed envelope.signature expected
          ⟨h, e.signature⟩ = (.ok (), e') ∧
        ∃ m, Manifest.parse envelope.bytes = .ok m := by
  constructor
  · intro hj
    obtain ⟨o, e₁, hfound, hj⟩ := Steps.bind_eq_ok.1 hj
    rw [Steps.ofExcept_apply] at hfound
    obtain ⟨hstored, rfl⟩ := Prod.mk.inj hfound
    obtain ⟨key, ⟨h, k⟩, hsigner, hj⟩ := Steps.bind_eq_ok.1 hj
    obtain ⟨hsigner, hsame⟩ := Engines.onHash_ok.1 hsigner
    obtain rfl : k = e.signature := hsame
    obtain ⟨_, e₃, hsigned, hj⟩ := Steps.bind_eq_ok.1 hj
    obtain ⟨m, e₄, hparsed, hj⟩ := Steps.bind_eq_ok.1 hj
    rw [Steps.ofExcept_apply] at hparsed
    obtain ⟨hm, rfl⟩ := Prod.mk.inj hparsed
    cases hj
    exact ⟨o, key, h, hstored, hsigner, hsigned, m, hm⟩
  · rintro ⟨o, key, h, rfl, hsigner, hsigned, m, hm⟩
    refine Steps.bind_eq_ok.2 ⟨o, e, Steps.ofExcept_apply _ _, Steps.bind_eq_ok.2 ⟨key,
      ⟨h, e.signature⟩, Engines.onHash_ok.2 ⟨hsigner, rfl⟩, Steps.bind_eq_ok.2 ⟨(), e', hsigned,
      Steps.bind_eq_ok.2 ⟨m, e', ?_, rfl⟩⟩⟩⟩
    rw [Steps.ofExcept_apply, hm]

/-- A judgement succeeds exactly if what is cached passes. -/
theorem judge_ok_iff {s : StoredManifest φ} {header : Header} {anchor : Anchor}
    {expected : Option Bytes} {e : Engines η ν} :
    (judge (s.cached header) (storedKey header s).1 anchor expected e).1 = .ok () ↔
      ∃ key h h', s.Passes anchor expected header e key h h' := by
  constructor
  · intro hj
    obtain ⟨o, key, h, hstored, hsigner, hsigned, hparsed⟩ := judge_eq_ok.1 (Prod.ext hj rfl)
    obtain ⟨hcomputes, hexpected, hasked⟩ := Engines.verifySigned_eq_ok.1 hsigned
    exact ⟨key, h, _, hasKey_iff.2 ⟨o, hstored, hsigner⟩, hcomputes, hexpected,
      congrArg Prod.fst hasked, hparsed⟩
  · rintro ⟨key, h, h', hp⟩
    obtain ⟨o, hstored, hsigner⟩ := hasKey_iff.1 hp.hasKey
    obtain ⟨v, hasked⟩ : ∃ v, Signature.Verifier.verify (s.question header key) e.signature =
        (.ok (), v) := ⟨_, Prod.ext hp.answered rfl⟩
    have hsigned : Engines.verifySigned Error.verifyFailed key (s.cached header).signed
        (s.cached header).signature expected ⟨h, e.signature⟩ =
          ((.ok (), ⟨h', v⟩) : _ × Engines η ν) :=
      Engines.verifySigned_eq_ok.2 ⟨hp.computes, hp.expected_eq, hasked⟩
    exact congrArg Prod.fst (judge_eq_ok.2 ⟨o, key, h, hstored, hsigner, hsigned, hp.parsed⟩)

omit [Hash.Lawful η] in
/-- A judgement fails where its key is refused. -/
theorem judge_of_signer_error {envelope : Envelope} {o : Option PublicKey} {anchor : Anchor}
    {expected : Option Bytes} {e : Engines η ν} {x : Error} {h : η}
    (hs : anchor.signer o e.hash = (.error x, h)) :
    (judge envelope (.ok o) anchor expected e).1 = .error x := by
  have hsigner : Engines.onHash (fun x => x) (anchor.signer o) e =
      ((.error x, ⟨h, e.signature⟩) : _ × Engines η ν) := by
    unfold Engines.onHash
    rw [hs]
    rfl
  have hjudge : judge envelope (.ok o) anchor expected e = (.error x, ⟨h, e.signature⟩) :=
    Steps.bind_eq_error.2 (.inr ⟨o, e, Steps.ofExcept_apply _ _, Steps.bind_eq_error.2 (.inl hsigner)⟩)
  exact congrArg Prod.fst hjudge

omit [Hash.Lawful η] in
/-- A judgement fails where the signature is refused. -/
theorem judge_of_signed_error {envelope : Envelope} {o : Option PublicKey} {key : PublicKey}
    {anchor : Anchor} {expected : Option Bytes} {e e' : Engines η ν} {x : Error} {h : η}
    (hs : anchor.signer o e.hash = (.ok key, h))
    (hv : Engines.verifySigned Error.verifyFailed key envelope.signed envelope.signature expected
      ⟨h, e.signature⟩ = (.error x, e')) :
    (judge envelope (.ok o) anchor expected e).1 = .error x := by
  have hsigner : Engines.onHash (fun x => x) (anchor.signer o) e =
      ((.ok key, ⟨h, e.signature⟩) : _ × Engines η ν) := Engines.onHash_ok.2 ⟨hs, rfl⟩
  have hjudge : judge envelope (.ok o) anchor expected e = (.error x, e') :=
    Steps.bind_eq_error.2 (.inr ⟨o, e, Steps.ofExcept_apply _ _,
      Steps.bind_eq_error.2 (.inr ⟨key, _, hsigner, Steps.bind_eq_error.2 (.inl hv)⟩)⟩)
  exact congrArg Prod.fst hjudge

/-- With a trusted key, a judgement fails in the one way if the signature is not accepted. -/
theorem judge_of_not_signed {s : StoredManifest φ} {header : Header} {anchor : Anchor}
    {expected : Option Bytes} {e : Engines η ν} {key : PublicKey} {h : η}
    (hk : s.HasKey anchor header key e.hash h)
    (hn : ∀ e', Engines.verifySigned Error.verifyFailed key (s.cached header).signed
      (s.cached header).signature expected ⟨h, e.signature⟩ ≠ (.ok (), e')) :
    (judge (s.cached header) (storedKey header s).1 anchor expected e).1 = .error .verifyFailed := by
  obtain ⟨o, hstored, hsigner⟩ := hasKey_iff.1 hk
  rw [hstored]
  rcases hv : Engines.verifySigned Error.verifyFailed key (s.cached header).signed
    (s.cached header).signature expected ⟨h, e.signature⟩ with ⟨x | _, e'⟩
  · rw [judge_of_signed_error hsigner hv, Engines.verifySigned_error hv]
  · exact absurd hv (hn e')

/-- **What is not trusted is refused in one way.** -/
theorem judge_of_distrusted {s : StoredManifest φ} {header : Header} {anchor : Anchor}
    {expected : Option Bytes} {e : Engines η ν} (hd : s.Distrusted anchor expected header e) :
    (judge (s.cached header) (storedKey header s).1 anchor expected e).1 = .error .verifyFailed := by
  cases hd with
  | anchor key hformat hholds hrefused =>
    have hstored := (storedKey_v2 hformat).2 ⟨key, rfl, hholds⟩
    rw [hstored]
    rcases ha : anchor.admits key e.hash with ⟨x | _, h⟩
    · have hsigner : anchor.signer (some key) e.hash = (.error x, h) :=
        Steps.bind_eq_error.2 (.inl ha)
      rw [judge_of_signer_error hsigner, Anchor.admits_error ha]
    · exact absurd (Anchor.admits_eq_ok.1 ha) (hrefused h)
  | hashing key h hkey hfailed =>
    refine judge_of_not_signed hkey fun e' hv => ?_
    exact hfailed _ (Engines.verifySigned_eq_ok.1 hv).1
  | expected key h h' hkey hcomputes d hmem hne =>
    refine judge_of_not_signed hkey fun e' hv => ?_
    exact hne ((Engines.verifySigned_eq_ok.1 hv).2.1 d hmem)
  | signature key h h' hkey hcomputes hexpected hrefused =>
    refine judge_of_not_signed hkey fun e' hv => ?_
    exact hrefused (congrArg Prod.fst (Engines.verifySigned_eq_ok.1 hv).2.2)

/-! ### Verdicts -/

omit [Hash.Lawful η] in
/-- In a run, a manifest that is loaded is cached under a header. -/
theorem header_of_loaded (flash : φ) (base : UInt32) (caches : Caches) (es : List (Event φ η ν))
    (hs : ((init flash base caches).run es).stage = .loaded) :
    ∃ header, ((init flash base caches).run es).header = some header := by
  induction es using List.reverseRecOn with
  | nil => cases hs
  | append_singleton es e ih =>
    rw [run_snoc] at hs ⊢
    generalize (init flash base caches).run es = t at ih hs ⊢
    cases e with
    | load =>
      rw [after] at hs ⊢
      rcases hl : t.load with ⟨x | _, u⟩
      · rw [hl] at hs
        obtain ⟨-, hu | hu⟩ := load_error hl
        · exact absurd (hu.symm.trans hs) (by decide)
        · exact absurd (hu.symm.trans hs) (by decide)
      · obtain ⟨-, header, -, hheader, -⟩ := load_ok hl
        exact ⟨header, hheader⟩
    | verify anchor expected e =>
      by_cases ht : t.stage = .loaded
      · obtain ⟨header, hheader⟩ := ih ht
        obtain ⟨r, c, e', -, hv⟩ := verify_loaded ht hheader anchor expected e
        rw [after, hv]
        exact ⟨header, hheader⟩
      · rw [after, verify_of_ne_loaded ht] at hs
        exact absurd hs ht
    | reset => cases hs
    | flash device => exact ih hs

/-- How the verification of a loaded manifest ends: it succeeds exactly if what is cached passes; the
stage after it says whether it did, and otherwise only the cache of the key has changed; and what is not
trusted is refused in one way. -/
structure Verdict (s : StoredManifest φ) (anchor : Anchor) (expected : Option Bytes) (header : Header)
    (e : Engines η ν) (r : Except Error Unit) (t : StoredManifest φ) : Prop where
  ok_iff : r = .ok () ↔ ∃ key h h', s.Passes anchor expected header e key h h'
  valid_iff : t.stage = .valid ↔ r = .ok ()
  invalid_iff : t.stage = .invalid ↔ r ≠ .ok ()
  frame : ∃ c, t = (s.withKey c).withStage t.stage
  distrusted : s.Distrusted anchor expected header e → r = .error .verifyFailed

/-- **The outcome of a verification.**  Whatever happened before, a verification of a loaded manifest ends
in the verdict about what is cached, and any other changes nothing and asks no engine. -/
theorem verify_outcome (flash : φ) (base : UInt32) (caches : Caches) (es : List (Event φ η ν))
    (anchor : Anchor) (expected : Option Bytes) (e : Engines η ν) :
    let s := (init flash base caches).run es
    (s.stage ≠ .loaded → s.verify anchor expected e = (.error .noManifest, s, e)) ∧
    (s.stage = .loaded → ∃ header, s.header = some header ∧
      s.Verdict anchor expected header e (s.verify anchor expected e).1
        (s.verify anchor expected e).2.1) := by
  intro s
  refine ⟨fun hs => verify_of_ne_loaded hs anchor expected e, fun hs => ?_⟩
  obtain ⟨header, hheader⟩ := header_of_loaded flash base caches es hs
  refine ⟨header, hheader, ?_⟩
  obtain ⟨r, c, e', hj, hv⟩ := verify_loaded hs hheader anchor expected e
  have hr : (judge (s.cached header) (storedKey header s).1 anchor expected e).1 = r :=
    congrArg Prod.fst hj
  rw [hv]
  refine ⟨?_, ?_, ?_, ⟨c, rfl⟩, fun hd => ?_⟩
  · rw [← hr]
    exact judge_ok_iff
  · cases r <;> simp [Except.isOk, Except.toBool]
  · cases r <;> simp [Except.isOk, Except.toBool]
  · rw [← hr]
    exact judge_of_distrusted hd

end verifying

/-- A verifier that says yes to everything, and an idle hash engine. -/
def agreeing : Engines Hash.SoftEngine (Signature.Forced Rsa.SoftVerifier) :=
  ⟨.idle, ⟨⟨⟩, some (.ok ())⟩⟩

/-- A run that loads. -/
def loadingRun : List (Event Flash.Ram Hash.SoftEngine (Signature.Forced Rsa.SoftVerifier)) := [.load]

/-- Nothing is verified before it is loaded; then the manifest passes. -/
theorem loadingRun_outcome :
    idleStored.verify (.rootKey idleKey) none agreeing = (.error .noManifest, idleStored, agreeing) ∧
    ((idleStored.run loadingRun).verify (.rootKey idleKey) none agreeing).1 = .ok () ∧
    ∃ header, (idleStored.run loadingRun).header = some header ∧
      (idleStored.run loadingRun).Verdict (.rootKey idleKey) none header agreeing
        ((idleStored.run loadingRun).verify (.rootKey idleKey) none agreeing).1
        ((idleStored.run loadingRun).verify (.rootKey idleKey) none agreeing).2.1 := by
  have hinit : init idleStored.flash idleStored.base idleStored.caches = idleStored := rfl
  have hloaded : (idleStored.run loadingRun).stage = .loaded := by decide +kernel
  have hok : ((idleStored.run loadingRun).verify (.rootKey idleKey) none agreeing).1.toOption =
      some () := by decide +kernel
  have hbefore := (verify_outcome idleStored.flash idleStored.base idleStored.caches
    (loadingRun.take 0) (.rootKey idleKey) none agreeing).1 nofun
  have hafter := (verify_outcome idleStored.flash idleStored.base idleStored.caches
    loadingRun (.rootKey idleKey) none agreeing).2
  rw [hinit] at hbefore hafter
  exact ⟨hbefore, Steps.toOption_eq_some.1 hok, hafter hloaded⟩

end StoredManifest

end PlatformGuard
