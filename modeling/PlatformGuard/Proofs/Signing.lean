import PlatformGuard.Proofs.Accepting

/-!
# Signed drafts are accepted, and nothing else is

A signer writes a manifest from a draft and never sees flash, and a verifier reads flash and never sees the
draft.  Both take the digest of the same signed extent: what is signed is loaded and becomes valid wherever
it lies, and a verifier that knows no other signature accepts nothing else, whatever the flash holds.
-/

namespace PlatformGuard

/-! ### Signers and verifiers -/

namespace Signature

variable {σ ν : Type} [Signer σ] [Verifier ν]

/-- A signer whose signatures have the length that it says, which is one of those that a manifest may
have. -/
structure Sized (k : σ) : Prop where
  sanctioned : Signer.size k = 256 ∨ Signer.size k = 384 ∨ Signer.size k = 512
  length : ∀ message signature k', Signer.sign message k = (.ok signature, k') →
    signature.length = Signer.size k

/-- The verifier accepts under the key whatever the signer signs. -/
def Trusts (v : ν) (key : PublicKey) (k : σ) : Prop :=
  ∀ message signature k', Signer.sign message k = (.ok signature, k') →
    ∃ v', Verifier.verify ⟨key, signature, message⟩ v = (.ok (), v')

/-- The verifier accepts no answer but one. -/
def TrustsOnly (v : ν) (q : Question) : Prop :=
  ∀ q' v', Verifier.verify q' v = (.ok (), v') → q' = q

end Signature

namespace Manifest.Draft

variable {η σ : Type} [Hash.Engine η] [Hash.Lawful η] [Signature.Signer σ]

/-! ### Signing -/

/-- What is signed is the digest of what the signature covers. -/
theorem sign_ok {d : Draft} {bytes : Bytes} {e e' : Engines η σ} (h : d.sign e = (.ok bytes, e')) :
    ∃ covered signature, d.encodeSigned (Signature.Signer.size e.signature) = .ok covered ∧
      Signature.Signer.sign (Hash.Algorithm.sha256.digest covered) e.signature =
        (.ok signature, e'.signature) ∧
      bytes = covered ++ signature := by
  obtain ⟨_, _, he, h⟩ := Steps.bind_eq_ok.1 h
  cases he
  rcases hcovered : d.encodeSigned (Signature.Signer.size e.signature) with x | covered
  · rw [hcovered] at h
    cases h
  · rw [hcovered] at h
    obtain ⟨digest, e₁, hdigest, h⟩ := Steps.bind_eq_ok.1 h
    obtain ⟨signature, e₂, hsign, h⟩ := Steps.bind_eq_ok.1 h
    cases h
    obtain ⟨hdigest, hkept⟩ := Engines.onHash_ok.1 hdigest
    obtain ⟨hsign, -⟩ := Engines.onSignature_ok.1 hsign
    rw [Hash.contiguous_ok hdigest, hkept] at hsign
    exact ⟨covered, signature, rfl, hsign, rfl⟩

/-- A draft that can be encoded is signed, if the engine works and the signer signs. -/
theorem sign_of_ok {d : Draft} {covered signature : Bytes} {e : Engines η σ} {k : σ}
    (hw : Hash.Working e.hash)
    (hcovered : d.encodeSigned (Signature.Signer.size e.signature) = .ok covered)
    (hsign : Signature.Signer.sign (Hash.Algorithm.sha256.digest covered) e.signature =
      (.ok signature, k)) :
    ∃ h, d.sign e = (.ok (covered ++ signature), ⟨h, k⟩) := by
  obtain ⟨h, hdigest, -⟩ := hw.contiguous .sha256 covered
  refine ⟨h, Steps.bind_eq_ok.2 ⟨e, e, rfl, ?_⟩⟩
  rw [hcovered]
  exact Steps.bind_eq_ok.2 ⟨_, ⟨h, e.signature⟩, Engines.onHash_ok.2 ⟨hdigest, rfl⟩,
    Steps.bind_eq_ok.2 ⟨signature, ⟨h, k⟩, Engines.onSignature_ok.2 ⟨hsign, rfl⟩, rfl⟩⟩

/-- Some encoding of the draft is a manifest. -/
def Accepted (d : Draft) : Prop :=
  ∃ signature bytes m, d.encode signature = .ok bytes ∧ Manifest.parse bytes = .ok m

/-- Any encoding of such a draft is a manifest if the signature has a sanctioned length, and the parts of
the manifest are those of the encoding. -/
theorem Accepted.parse {d : Draft} {covered signature : Bytes} (hd : d.Accepted)
    (hcovered : d.encodeSigned signature.length = .ok covered)
    (hsize : signature.length = 256 ∨ signature.length = 384 ∨ signature.length = 512) :
    ∃ m, Manifest.parse m.envelope.bytes = .ok m ∧ ofManifest m = d.normalise ∧
      m.envelope.bytes = covered ++ signature ∧ m.envelope.signed = covered ∧
      m.signature = signature ∧ m.platformId = d.platformId ∧ m.envelope.header.format = d.format := by
  obtain ⟨signature', bytes', m', hencode', hm'⟩ := hd
  obtain ⟨hlaid, _, -, hparse'⟩ := parse_encode hencode'
  obtain ⟨-, hc, -⟩ := (hparse' m').1 hm'
  have hencode : d.encode signature = .ok (covered ++ signature) := by
    rw [Draft.encode, hcovered]
    rfl
  obtain ⟨-, header, hid, hparse⟩ := parse_encode hencode
  obtain ⟨m, henvelope, hid', hbody⟩ : ∃ m : Manifest, m.envelope = ⟨header, covered ++ signature⟩ ∧
      m.platformId = m'.platformId ∧ m.body = m'.body := ⟨⟨_, m'.platformId, m'.body⟩, rfl, rfl, rfl⟩
  rw [← hid', ← hbody] at hc
  have hm := (hparse m).2 ⟨isSome_ofBytes?.2 hsize, hc, henvelope⟩
  obtain ⟨body, written, -, hheader, hbytes⟩ := encode_eq_ok hencode
  obtain ⟨hlength, hsignature, hformat, -⟩ := header_eq_ok hheader
  obtain ⟨hread, hl, -, -⟩ := parse_eq_ok.1 hm
  rw [henvelope] at hread hl
  -- the header that is read is the one that was written, so its lengths cut the bytes where they were joined
  have hwritten : header = written := by
    rw [hbytes] at hread
    exact ((read_encode_header _ (by omega)).1 hread).2
  have hsigned : header.signedLength = covered.length := by
    rw [List.length_append] at hl
    rw [Header.signedLength, ← hl, hwritten, hsignature]
    omega
  refine ⟨m, ?_, ofManifest_contents? hlaid hc ?_, ?_, ?_, ?_, (contents?_eq_some.1 hc).2.1, ?_⟩
  · rw [henvelope]
    exact hm
  · rw [Manifest.id, henvelope, hid]
  · rw [henvelope]
  · rw [henvelope, Envelope.signed, hsigned, List.take_left]
  · rw [Manifest.signature, henvelope, Envelope.signature, hsigned, List.drop_left]
  · rw [henvelope, ← hformat, hwritten]

end Manifest.Draft

/-! ### What a verifier with one answer accepts -/

namespace StoredManifest

open Manifest

variable {φ η ν : Type} [Flash φ] [Hash.Engine η] [Hash.Lawful η] [Signature.Verifier ν]

/-- What is cached is what a question is about. -/
structure Bears (s : StoredManifest φ) (anchor : Anchor) (q : Signature.Question) (header : Header) :
    Prop where
  header_eq : s.header = some header
  message : Hash.Algorithm.sha256.digest (s.cached header).signed = q.message
  /-- The signature behind the signed extent, and the one that is cached on its own. -/
  signature : (s.cached header).signature = q.signature ∧ s.signature = .ok q.signature
  vouched : anchor.Vouches q.key
  rootKey : header.format = .legacy → anchor = .rootKey q.key
  key : header.format = .v2 → q.key.toBlob <+: s.caches.key

omit [Flash φ] in
/-- A signature that was loaded is cached as a whole. -/
theorem signature_loaded {s : StoredManifest φ} {envelope : Envelope} {id raw : Bytes}
    (hr : Header.decoder.read raw = .ok envelope.header)
    (hl : envelope.bytes.length = envelope.header.length.toNat) :
    (s.loaded envelope id).signature = .ok envelope.signature := by
  have hroom := Header.length_le hr
  have hlength : envelope.signature.length = envelope.header.signatureLength.toNat := by
    rw [Envelope.signature, List.length_drop, hl, Header.signedLength]
    omega
  change Except.ok ((envelope.signature ++ _).take envelope.header.signatureLength.toNat) = _
  rw [← hlength, List.take_left]

/-- The key that an anchor demands is the root key, or it was found behind the manifest and cached. -/
theorem key_of_demands {s t : StoredManifest φ} {header : Header} {stored : Option PublicKey}
    {anchor : Anchor} {key : PublicKey} (h : storedKey header s = (.ok stored, t))
    (hd : anchor.Demands stored key) :
    anchor.Vouches key ∧ (header.format = .legacy → anchor = .rootKey key) ∧
      (header.format = .v2 → key.toBlob <+: t.caches.key) := by
  cases hf : header.format with
  | legacy =>
    have hnone := storedKey_ok h
    unfold KeyBehind at hnone
    rw [hf] at hnone
    obtain rfl : stored = none := hnone
    obtain rfl : anchor = .rootKey key := hd
    exact ⟨rfl, fun _ => rfl, nofun⟩
  | v2 =>
    obtain ⟨blob, found, hblob, hfound, rfl⟩ := (storedKey_eq_ok hf).1 h
    obtain ⟨rfl, hv⟩ := hd
    obtain ⟨n, -, -, -, rfl⟩ := cacheKey_eq_ok.1 hblob
    obtain ⟨rest, rfl⟩ := PublicKey.ofBlob_eq_ok.1 hfound
    refine ⟨hv, nofun, fun _ => ?_⟩
    exact (List.prefix_append _ _).trans (List.prefix_append _ _)

/-- If the verifier has but one answer, then only what the answer is about becomes valid. -/
theorem bears_of_verify {t : StoredManifest φ} {envelope : Envelope} {anchor : Anchor}
    {expected : Option Bytes} {e : Engines η ν} {q : Signature.Question}
    (hstage : t.stage = .loaded) (hheader : t.header = some envelope.header)
    (hcached : t.cached envelope.header = envelope)
    (hsignature : t.signature = .ok envelope.signature) (hq : Signature.TrustsOnly e.signature q)
    (hv : (t.verify anchor expected e).2.1.stage = .valid) :
    (t.verify anchor expected e).2.1.Bears anchor q envelope.header := by
  obtain ⟨c, hc⟩ := storedKey_frame t envelope.header
  rcases hk : storedKey envelope.header t with ⟨stored, u⟩
  rcases hj : judge envelope stored anchor expected e with ⟨r, e'⟩
  have hverify := verify_eq hstage hheader anchor expected e
  rw [hcached, hk, hj] at hverify
  rw [hk] at hc
  obtain rfl : u = t.withKey c := hc
  rw [hverify] at hv ⊢
  cases r with
  | error x => cases hv
  | ok _ =>
    obtain ⟨o, key, rfl, hdemands, -, hasked, -⟩ := judge_ok hj
    obtain ⟨hvouched, hroot, hkey⟩ := key_of_demands hk hdemands
    obtain rfl := hq _ _ hasked
    have hkept : ((t.withKey c).withStage .valid).signature = t.signature := by
      unfold signature loadedHeader withStage withKey
      simp only [hstage, hheader]
    change ((t.withKey c).withStage .valid).Bears anchor _ envelope.header
    refine ⟨hheader, ?_, ⟨?_, hkept.trans hsignature⟩, hvouched, hroot, hkey⟩ <;>
      rw [withStage_cached, withKey_cached, hcached]

theorem bears_of_load {s : StoredManifest φ} {anchor : Anchor} {expected : Option Bytes}
    {e : Engines η ν} {q : Signature.Question} (hq : Signature.TrustsOnly e.signature q)
    (hv : (s.load.2.verify anchor expected e).2.1.stage = .valid) :
    ∃ header, (s.load.2.verify anchor expected e).2.1.Bears anchor q header := by
  rcases hload : s.load with ⟨x | _, t⟩ <;> rw [hload] at hv
  · obtain ⟨-, ht⟩ := load_error hload
    have hne : t.stage ≠ .loaded := by rcases ht with ht | ht <;> simp [ht]
    rw [verify_of_ne_loaded hne] at hv
    exact absurd hv (by rcases ht with ht | ht <;> simp [ht])
  · obtain ⟨raw, envelope, id, -, hr, -, hbytes, -, -, -, rfl⟩ := load_eq_ok.1 hload
    have hlength := length_readAt hbytes
    exact ⟨envelope.header, bears_of_verify rfl rfl (cached_loaded hlength)
      (signature_loaded hr hlength) hq hv⟩

end StoredManifest

/-! ### Signing and verifying -/

namespace Manifest.Draft

open Signature

variable {η θ σ φ ν : Type} [Hash.Engine η] [Hash.Lawful η] [Hash.Engine θ] [Hash.Lawful θ] [Signer σ]
  [Flash φ] [Verifier ν]

/-- A signed draft is loaded and becomes valid where it is installed, and the draft itself is had back in its
normal form. -/
theorem verify_of_sign {d : Draft} {covered signature : Bytes} {key : PublicKey} {anchor : Anchor}
    {expected : Option Bytes} {s : StoredManifest φ} {e : Engines η ν} {v : ν} (hd : d.Accepted)
    (hcovered : d.encodeSigned signature.length = .ok covered)
    (hsize : signature.length = 256 ∨ signature.length = 384 ∨ signature.length = 512)
    (hi : s.Installed (covered ++ signature) d.platformId signature (d.format.trailer key))
    (hw : Hash.Working e.hash)
    (ha : anchor = .rootKey key ∨
      d.format = .v2 ∧ anchor = .keyDigest (Hash.Algorithm.sha256.digest key.toBlob))
    (hx : ∀ h ∈ expected, h = Hash.Algorithm.sha256.digest covered)
    (hv : Verifier.verify ⟨key, signature, Hash.Algorithm.sha256.digest covered⟩ e.signature =
      (.ok (), v)) :
    ∃ t u e' m, s.load = (.ok (), t) ∧ t.stage = .loaded ∧
      t.verify anchor expected e = (.ok (), u, e') ∧ u.stage = .valid ∧ u.manifest = .ok m ∧
      ofManifest m = d.normalise := by
  obtain ⟨m, hm, hnormal, hbytes, hsigned, hsignature, hid, hformat⟩ := hd.parse hcovered hsize
  rw [← hformat] at ha
  have hm' : s.Installed m.envelope.bytes m.platformId m.signature
      (m.envelope.header.format.trailer key) := by
    rw [hbytes, hid, hsignature, hformat]
    exact hi
  rw [← hsigned] at hx
  rw [← hsigned, ← hsignature] at hv
  obtain ⟨t, u, e', hload, hloaded, hverify, hvalid, hmanifest⟩ :=
    StoredManifest.verify_of_parse hm hm' hw (Anchor.demands_stored ha) hx hv
  exact ⟨t, u, e', m, hload, hloaded, hverify, hvalid, hmanifest, hnormal⟩

/-- **Signing and verifying.**  A draft of which some encoding is accepted is signed whenever it can be
encoded and the signer signs.  What is signed becomes valid wherever it is installed, under every anchor
for the key and with every verifier that trusts the signer; and with a verifier that knows this signature
only, nothing becomes valid but what has the signed digest, this signature and this key. -/
theorem sign_verify {d : Draft} {maker : Engines η σ} (hd : d.Accepted)
    (hw : Hash.Working maker.hash) (hsized : Sized maker.signature) :
    (∀ covered signature k, d.encodeSigned (Signer.size maker.signature) = .ok covered →
      Signer.sign (Hash.Algorithm.sha256.digest covered) maker.signature = (.ok signature, k) →
      ∃ h, d.sign maker = (.ok (covered ++ signature), ⟨h, k⟩)) ∧
    ∀ bytes maker', d.sign maker = (.ok bytes, maker') →
      ∃ covered signature, bytes = covered ++ signature ∧
        Signer.sign (Hash.Algorithm.sha256.digest covered) maker.signature =
          (.ok signature, maker'.signature) ∧
        (∀ (s : StoredManifest φ) (e : Engines η ν) (key : PublicKey) (anchor : Anchor)
            (expected : Option Bytes),
          s.Installed bytes d.platformId signature (d.format.trailer key) →
          Hash.Working e.hash → Trusts e.signature key maker.signature →
          (anchor = .rootKey key ∨
            d.format = .v2 ∧ anchor = .keyDigest (Hash.Algorithm.sha256.digest key.toBlob)) →
          (∀ h ∈ expected, h = Hash.Algorithm.sha256.digest covered) →
          ∃ t u e' m, s.load = (.ok (), t) ∧ t.stage = .loaded ∧
            t.verify anchor expected e = (.ok (), u, e') ∧ u.stage = .valid ∧
            u.manifest = .ok m ∧ ofManifest m = d.normalise) ∧
        ∀ (s : StoredManifest φ) (e : Engines θ ν) (key : PublicKey) (anchor : Anchor)
            (expected : Option Bytes),
          TrustsOnly e.signature ⟨key, signature, Hash.Algorithm.sha256.digest covered⟩ →
          (s.load.2.verify anchor expected e).2.1.stage = .valid →
          ∃ header, (s.load.2.verify anchor expected e).2.1.Bears anchor
            ⟨key, signature, Hash.Algorithm.sha256.digest covered⟩ header := by
  refine ⟨fun covered signature k hcovered hsign => sign_of_ok hw hcovered hsign, ?_⟩
  intro bytes maker' h
  obtain ⟨covered, signature, hcovered, hsign, rfl⟩ := sign_ok h
  have hlength : signature.length = Signer.size maker.signature := hsized.length _ _ _ hsign
  rw [← hlength] at hcovered
  have hsize := hlength ▸ hsized.sanctioned
  refine ⟨covered, signature, rfl, hsign, ?_, ?_⟩
  · intro s e key anchor expected hi hw' htrusts ha hx
    obtain ⟨v, hv⟩ := htrusts _ _ _ hsign
    exact verify_of_sign hd hcovered hsize hi hw' ha hx hv
  · intro s e key anchor expected honly hv
    exact StoredManifest.bears_of_load honly hv

/-- A signer that signs one message only, with zeros. -/
structure OneMessage where
  message : Bytes

instance : Signer OneMessage where
  size _ := 256
  sign message k :=
    if message = k.message then (.ok (Bytes.zeros 256), k) else (.error .unspecified, k)

/-- A verifier with one answer. -/
structure OneAnswer where
  answer : Question

instance : Verifier OneAnswer where
  verify q v := if q = v.answer then (.ok (), v) else (.error .badSignature, v)

theorem sign_oneMessage {message signature : Bytes} {k k' : OneMessage}
    (h : Signer.sign message k = (.ok signature, k')) :
    message = k.message ∧ signature = Bytes.zeros 256 := by
  change (if message = k.message then _ else _) = _ at h
  split at h
  · rename_i hmessage
    cases h
    exact ⟨hmessage, rfl⟩
  · cases h

theorem sized_oneMessage (k : OneMessage) : Sized k :=
  ⟨.inl rfl, fun _ _ _ h => (sign_oneMessage h).2 ▸ List.length_replicate⟩

theorem trusts_oneAnswer (key : PublicKey) (k : OneMessage) :
    Trusts (⟨⟨key, Bytes.zeros 256, k.message⟩⟩ : OneAnswer) key k := by
  intro message signature k' h
  obtain ⟨rfl, rfl⟩ := sign_oneMessage h
  exact ⟨_, if_pos rfl⟩

theorem trustsOnly_oneAnswer (q : Question) : TrustsOnly (⟨q⟩ : OneAnswer) q := by
  intro q' v' h
  change (if q' = q then _ else _) = _ at h
  split at h
  · assumption
  · cases h

/-- The signed extent of the draft of a block. -/
def blockCovered : Bytes :=
  match blockDraft.encodeSigned 256 with
  | .ok covered => covered
  | .error _ => []

def blockMaker : Engines Hash.SoftEngine OneMessage :=
  ⟨.idle, ⟨Hash.Algorithm.sha256.digest blockCovered⟩⟩

/-- The exponent 65537 is short enough for a key. -/
theorem sized_65537 : 0 < ([1, 0, 1] : Bytes).length ∧ ([1, 0, 1] : Bytes).length ≤ 255 := by decide

def blockKey : PublicKey := ⟨List.replicate 256 0xa5, [1, 0, 1], by decide +kernel, sized_65537⟩

def blockAnchor : Anchor := .keyDigest (Hash.Algorithm.sha256.digest blockKey.toBlob)

def blockEngines : Engines Hash.SoftEngine OneAnswer :=
  ⟨.idle, ⟨⟨blockKey, Bytes.zeros 256, Hash.Algorithm.sha256.digest blockCovered⟩⟩⟩

/-- What the draft is signed as, between bytes that are erased, with the key behind it. -/
def blockStored : StoredManifest Flash.Ram :=
  { flash := ⟨(List.replicate 4 0xff ++ ((blockCovered ++ Bytes.zeros 256 ++ blockKey.toBlob) ++
      List.replicate 4 0xff)).toArray⟩
    base := 4
    caches := ⟨Bytes.zeros 512, Bytes.zeros 2, Bytes.zeros 256, Bytes.zeros 262⟩ }

theorem blockDraft_accepted : blockDraft.Accepted := by
  have hsome : blockDraftRead?.isSome = true := by decide +kernel
  obtain ⟨⟨bytes, m⟩, h⟩ := Option.isSome_iff_exists.1 hsome
  unfold blockDraftRead? at h
  split at h
  · cases h
  · rename_i he
    split at h
    · cases h
    · rename_i hm
      exact ⟨_, _, _, he, hm⟩

theorem encodeSigned_blockDraft : blockDraft.encodeSigned 256 = .ok blockCovered := by
  decide +kernel

theorem blockStored_installed :
    blockStored.Installed (blockCovered ++ Bytes.zeros 256) blockDraft.platformId (Bytes.zeros 256)
      (blockDraft.format.trailer blockKey) where
  held := Flash.Ram.holds (List.replicate 4 0xff) (List.replicate 4 0xff) rfl rfl (by decide +kernel)
  manifest := by decide +kernel
  platformId := by decide +kernel
  signature := by decide +kernel
  key := by decide +kernel

theorem blockDraft_signed :
    ∃ bytes maker', blockDraft.sign blockMaker = (.ok bytes, maker') ∧
      ∃ covered signature, bytes = covered ++ signature ∧
        (∃ t u e' m, blockStored.load = (.ok (), t) ∧ t.stage = .loaded ∧
          t.verify blockAnchor none blockEngines = (.ok (), u, e') ∧ u.stage = .valid ∧
          u.manifest = .ok m ∧ ofManifest m = blockDraft.normalise) ∧
        ∃ header, (blockStored.load.2.verify blockAnchor none blockEngines).2.1.Bears blockAnchor
          ⟨blockKey, signature, Hash.Algorithm.sha256.digest covered⟩ header := by
  have hworking : Hash.Working blockMaker.hash := Hash.working_idle
  obtain ⟨hsigns, hall⟩ := sign_verify (θ := Hash.SoftEngine) (φ := Flash.Ram) (ν := OneAnswer)
    blockDraft_accepted hworking (sized_oneMessage blockMaker.signature)
  obtain ⟨h, hsign⟩ := hsigns blockCovered (Bytes.zeros 256) blockMaker.signature
    encodeSigned_blockDraft (if_pos rfl)
  obtain ⟨covered, signature, hbytes, hsigned, hforward, hconverse⟩ := hall _ _ hsign
  obtain ⟨-, rfl⟩ := sign_oneMessage hsigned
  obtain rfl : blockCovered = covered := List.append_cancel_right hbytes
  obtain ⟨t, u, e', m, hload, hloaded, hverify, hvalid, hmanifest, hnormal⟩ :=
    hforward blockStored blockEngines blockKey blockAnchor none blockStored_installed
      Hash.working_idle (trusts_oneAnswer blockKey _) (.inr ⟨rfl, rfl⟩) nofun
  refine ⟨_, _, hsign, blockCovered, Bytes.zeros 256, rfl,
    ⟨t, u, e', m, hload, hloaded, hverify, hvalid, hmanifest, hnormal⟩, ?_⟩
  refine hconverse blockStored blockEngines blockKey blockAnchor none (trustsOnly_oneAnswer _) ?_
  rw [hload, hverify]
  exact hvalid

end Manifest.Draft

end PlatformGuard
