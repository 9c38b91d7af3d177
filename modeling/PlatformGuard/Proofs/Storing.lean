import PlatformGuard.Flash.Faulty
import PlatformGuard.Flash.Ram
import PlatformGuard.Flash.Window
import PlatformGuard.Manifest.Stored
import PlatformGuard.Proofs.Hashing
import PlatformGuard.Proofs.SignedExtent

/-!
# Loading and verifying

What a stored manifest holds after it was loaded, and what has happened when it was verified.  Both are
read off from the outcome: a load that succeeds has cached the bytes of one read of the flash, and a
judgement that succeeds has asked one question about them.
-/

namespace PlatformGuard

/-! ### Coherent devices -/

/-- A device that reads like a memory: of two reads from one address the shorter gives the front of the
longer. -/
class Flash.Coherent (φ : Type) [Flash φ] : Prop where
  read_front : ∀ {f : φ} {a : UInt32} {m n : Nat} {bs cs : Bytes}, m ≤ n →
    Flash.read f a m = .ok bs → Flash.read f a n = .ok cs → bs = cs.take m

namespace Flash

theorem readFrom_front {contents : Array UInt8} {a : UInt32} {m n : Nat} {bs cs : Bytes} (hmn : m ≤ n)
    (hm : readFrom contents a m = .ok bs) (hn : readFrom contents a n = .ok cs) : bs = cs.take m := by
  unfold readFrom at hm hn
  split at hm <;> cases hm
  split at hn <;> cases hn
  simp only [Array.toList_extract, List.extract_eq_take_drop, List.take_take]
  congr 1
  omega

instance : Coherent Ram := ⟨readFrom_front⟩

instance : Coherent Rom := ⟨readFrom_front⟩

variable {φ : Type} [Flash φ] [Coherent φ]

instance : Coherent (ReadOnly φ) := ⟨fun hmn hm hn => Coherent.read_front (φ := φ) hmn hm hn⟩

instance : Coherent (Faulty φ) where
  read_front {f a m n bs cs} hmn hm hn := by
    simp only [Flash.read, Faulty.readFrom] at hm hn
    split at hm
    · cases hm
    · rename_i hf
      rw [hf] at hn
      exact Coherent.read_front hmn hm hn

instance : Coherent (Window φ) where
  read_front {w a m n bs cs} hmn hm hn := by
    simp only [Flash.read, Window.readFrom, Window.address_translate] at hm hn
    split at hn <;> [skip; cases hn]
    rename_i hc
    split at hm <;> [skip; cases hm]
    rename_i hb
    split at hb <;> cases hb
    split at hc <;> cases hc
    exact Coherent.read_front hmn hm hn

end Flash

/-! ### Pairs of engines -/

namespace Engines

variable {η κ δ ε α : Type}

theorem onHash_ok {cause : δ → ε} {step : ExceptT δ (StateM η) α} {e e' : Engines η κ} {a : α} :
    onHash cause step e = (.ok a, e') ↔
      step e.hash = (.ok a, e'.hash) ∧ e'.signature = e.signature := by
  constructor
  · intro h
    obtain ⟨hr, rfl⟩ := Prod.mk.inj h
    exact ⟨Prod.ext (Steps.mapError_eq_ok.1 hr) rfl, rfl⟩
  · rintro ⟨h, hs⟩
    cases e'
    cases hs
    simp only [onHash, h]
    rfl

theorem onSignature_ok {cause : δ → ε} {step : ExceptT δ (StateM κ) α} {e e' : Engines η κ} {a : α} :
    onSignature cause step e = (.ok a, e') ↔
      step e.signature = (.ok a, e'.signature) ∧ e'.hash = e.hash := by
  constructor
  · intro h
    obtain ⟨hr, rfl⟩ := Prod.mk.inj h
    exact ⟨Prod.ext (Steps.mapError_eq_ok.1 hr) rfl, rfl⟩
  · rintro ⟨h, hs⟩
    cases e'
    cases hs
    simp only [onSignature, h]
    rfl

variable {ν : Type} [Hash.Engine η] [Hash.Lawful η] [Signature.Verifier ν]

/-- A signature that is accepted was asked about, as a signature of the digest of what it covers. -/
theorem verifySigned_ok {refusal : ε} {key : PublicKey} {covered signature : Bytes}
    {expected : Option Bytes} {e e' : Engines η ν}
    (h : verifySigned refusal key covered signature expected e = (.ok (), e')) :
    (∀ d ∈ expected, d = Hash.Algorithm.sha256.digest covered) ∧
      Signature.Verifier.verify ⟨key, signature, Hash.Algorithm.sha256.digest covered⟩ e.signature =
        (.ok (), e'.signature) := by
  obtain ⟨d, e₁, h₁, h⟩ := Steps.bind_eq_ok.1 h
  obtain ⟨h₁, hs⟩ := onHash_ok.1 h₁
  have hd := Hash.contiguous_ok h₁
  subst hd
  by_cases hx : expected.all (Bytes.ctEq (Hash.Algorithm.sha256.digest covered)) = true
  · rw [hx] at h
    refine ⟨fun d hd => ?_, ?_⟩
    · rw [Option.mem_def.1 hd] at hx
      exact (Bytes.ctEq_iff.1 hx).symm
    · rw [← hs]
      exact (onSignature_ok.1 h).1
  · rw [Bool.not_eq_true] at hx
    rw [hx] at h
    cases h

end Engines

namespace StoredManifest

open Manifest

variable {φ : Type} [Flash φ]

/-! ### Loading -/

theorem length_readAt {s : StoredManifest φ} {offset n : Nat} {bs : Bytes}
    (h : s.readAt offset n = .ok bs) : bs.length = n := by
  unfold readAt at h
  split at h
  · exact Flash.length_read (Steps.mapError_eq_ok.1 h)
  · cases h

theorem readAt_front [Flash.Coherent φ] {s : StoredManifest φ} {offset m n : Nat} {bs cs : Bytes}
    (hmn : m ≤ n) (hm : s.readAt offset m = .ok bs) (hn : s.readAt offset n = .ok cs) :
    bs = cs.take m := by
  unfold readAt at hm hn
  by_cases ho : s.base.toNat + offset < addressLimit
  · rw [if_pos ho] at hm hn
    exact Flash.Coherent.read_front hmn (Steps.mapError_eq_ok.1 hm) (Steps.mapError_eq_ok.1 hn)
  · rw [if_neg ho] at hm
    cases hm

theorem readHeader_eq_ok {s t : StoredManifest φ} {h : Header} :
    readHeader s = (.ok h, t) ↔
      t = s ∧ ∃ raw, s.readAt 0 headerLength = .ok raw ∧ Header.decoder.read raw = .ok h := by
  unfold readHeader
  constructor
  · intro hr
    split at hr
    · cases hr
    · rename_i raw hraw
      split at hr
      · rename_i hd
        cases hr
        exact ⟨rfl, raw, hraw, hd⟩
      · cases hr
      · cases hr
  · rintro ⟨rfl, raw, hraw, hd⟩
    simp only [hraw, hd]

theorem readHeader_error {s t : StoredManifest φ} {e : Error} (hr : readHeader s = (.error e, t)) :
    t.header = s.header ∧ (t.stage = s.stage ∨ t.stage = .invalid) := by
  unfold readHeader at hr
  split at hr
  · cases hr
    exact ⟨rfl, .inl rfl⟩
  · split at hr <;> cases hr
    · exact ⟨rfl, .inr rfl⟩
    · exact ⟨rfl, .inl rfl⟩

theorem cacheManifest_eq_ok {s t : StoredManifest φ} {n : Nat} {bs : Bytes} :
    cacheManifest n s = (.ok bs, t) ↔ n ≤ s.caches.manifest.length ∧ s.readAt 0 n = .ok bs ∧
      t = { s with caches := { s.caches with manifest := bs ++ s.caches.manifest.drop n } } := by
  unfold cacheManifest
  constructor
  · intro h
    split at h
    · cases h
    · split at h
      · cases h
      · rename_i hroom _ _ hbs
        cases h
        exact ⟨by omega, hbs, rfl⟩
  · rintro ⟨hroom, hbs, rfl⟩
    rw [if_neg (by omega), hbs]

theorem cacheManifest_error {s t : StoredManifest φ} {n : Nat} {e : Error}
    (h : cacheManifest n s = (.error e, t)) : t = s := by
  unfold cacheManifest at h
  split at h
  · cases h
    rfl
  · split at h <;> cases h
    rfl

omit [Flash φ] in
theorem cachePlatformId_spec {s t : StoredManifest φ} {id : Bytes} {r : Except Error Unit}
    (h : cachePlatformId id s = (r, t)) :
    ∃ c, t = { s with caches := { s.caches with platformId := c } } := by
  unfold cachePlatformId at h
  split at h <;> cases h
  · exact ⟨_, rfl⟩
  · exact ⟨s.caches.platformId, rfl⟩

omit [Flash φ] in
theorem cacheSignature_spec {s t : StoredManifest φ} {signature : Bytes} {r : Except Error Unit}
    (h : cacheSignature signature s = (r, t)) :
    ∃ c, t = { s with caches := { s.caches with signature := c } } := by
  unfold cacheSignature at h
  split at h <;> cases h
  · exact ⟨_, rfl⟩
  · exact ⟨s.caches.signature, rfl⟩

theorem fillFront?_eq_some {cache bs c : Bytes} :
    fillFront? cache bs = some c ↔ bs.length ≤ cache.length ∧ c = bs ++ cache.drop bs.length := by
  unfold fillFront?
  by_cases h : bs.length ≤ cache.length
  · simp [h, eq_comm]
  · simp [h]

omit [Flash φ] in
theorem cachePlatformId_eq_ok {s t : StoredManifest φ} {id : Bytes} :
    cachePlatformId id s = (.ok (), t) ↔ id.length < s.caches.platformId.length ∧
      t = { s with caches := { s.caches with
        platformId := id ++ [0] ++ s.caches.platformId.drop (id ++ [0]).length } } := by
  have hlength : id.length < s.caches.platformId.length ↔
      (id ++ [0]).length ≤ s.caches.platformId.length := by
    rw [List.length_append]
    rfl
  rw [hlength]
  unfold cachePlatformId
  constructor
  · intro h
    split at h
    · rename_i c hc
      obtain ⟨hroom, rfl⟩ := fillFront?_eq_some.1 hc
      cases h
      exact ⟨hroom, rfl⟩
    · cases h
  · rintro ⟨hroom, rfl⟩
    rw [fillFront?_eq_some.2 ⟨hroom, rfl⟩]

omit [Flash φ] in
theorem cacheSignature_eq_ok {s t : StoredManifest φ} {signature : Bytes} :
    cacheSignature signature s = (.ok (), t) ↔ signature.length ≤ s.caches.signature.length ∧
      t = { s with caches := { s.caches with
        signature := signature ++ s.caches.signature.drop signature.length } } := by
  unfold cacheSignature
  constructor
  · intro h
    split at h
    · rename_i c hc
      obtain ⟨hroom, rfl⟩ := fillFront?_eq_some.1 hc
      cases h
      exact ⟨hroom, rfl⟩
    · cases h
  · rintro ⟨hroom, rfl⟩
    rw [fillFront?_eq_some.2 ⟨hroom, rfl⟩]

omit [Flash φ] in
theorem length_clear (c : Caches) :
    c.clear.manifest.length = c.manifest.length ∧
      c.clear.platformId.length = c.platformId.length ∧
      c.clear.signature.length = c.signature.length ∧ c.clear.key.length = c.key.length := by
  simp [Caches.clear, Bytes.zeros]

/-- The stored manifest once these parts are loaded. -/
def loaded (s : StoredManifest φ) (envelope : Envelope) (id : Bytes) : StoredManifest φ :=
  let room := s.caches.clear
  { s with
    caches :=
      { manifest := envelope.bytes ++ room.manifest.drop envelope.header.length.toNat
        platformId := id ++ [0] ++ room.platformId.drop (id ++ [0]).length
        signature := envelope.signature ++ room.signature.drop envelope.signature.length
        key := room.key }
    header := some envelope.header
    idLength := id.length
    stage := .loaded }

/-- A load succeeds if the header and the manifest can be read and the caches have room for the parts, and
then it caches these parts. -/
theorem load_eq_ok {s t : StoredManifest φ} :
    s.load = (.ok (), t) ↔ ∃ raw envelope id, s.readAt 0 headerLength = .ok raw ∧
      Header.decoder.read raw = .ok envelope.header ∧
      envelope.header.length.toNat ≤ s.caches.clear.manifest.length ∧
      s.readAt 0 envelope.header.length.toNat = .ok envelope.bytes ∧
      platformIdOf envelope.body = .ok id ∧ id.length < s.caches.clear.platformId.length ∧
      envelope.signature.length ≤ s.caches.clear.signature.length ∧ t = s.loaded envelope id := by
  constructor
  · intro h
    obtain ⟨_, s₁, h₁, h⟩ := Steps.bind_eq_ok.1 h
    cases h₁
    obtain ⟨header, s₂, h₂, h⟩ := Steps.bind_eq_ok.1 h
    obtain ⟨rfl, raw, hraw, hheader⟩ := readHeader_eq_ok.1 h₂
    obtain ⟨bytes, s₃, h₃, h⟩ := Steps.bind_eq_ok.1 h
    obtain ⟨hroom, hbytes, rfl⟩ := cacheManifest_eq_ok.1 h₃
    obtain ⟨id, s₄, h₄, h⟩ := Steps.bind_eq_ok.1 h
    rw [Steps.ofExcept_apply] at h₄
    obtain ⟨hid, rfl⟩ := Prod.mk.inj h₄
    obtain ⟨_, s₅, h₅, h⟩ := Steps.bind_eq_ok.1 h
    obtain ⟨hidRoom, rfl⟩ := cachePlatformId_eq_ok.1 h₅
    obtain ⟨_, s₆, h₆, h⟩ := Steps.bind_eq_ok.1 h
    obtain ⟨hsignatureRoom, rfl⟩ := cacheSignature_eq_ok.1 h₆
    cases h
    exact ⟨raw, ⟨header, bytes⟩, id, hraw, hheader, hroom, hbytes, hid, hidRoom, hsignatureRoom, rfl⟩
  · rintro ⟨raw, envelope, id, hraw, hheader, hroom, hbytes, hid, hidRoom, hsignatureRoom, rfl⟩
    refine Steps.bind_eq_ok.2 ⟨(), s.reset, rfl, ?_⟩
    refine Steps.bind_eq_ok.2 ⟨_, _, readHeader_eq_ok.2 ⟨rfl, raw, hraw, hheader⟩, ?_⟩
    refine Steps.bind_eq_ok.2 ⟨_, _, cacheManifest_eq_ok.2 ⟨hroom, hbytes, rfl⟩, ?_⟩
    refine Steps.bind_eq_ok.2 ⟨id, _, (Steps.ofExcept_apply _ _).trans (Prod.ext hid rfl), ?_⟩
    refine Steps.bind_eq_ok.2 ⟨(), _, cachePlatformId_eq_ok.2 ⟨hidRoom, rfl⟩, ?_⟩
    exact Steps.bind_eq_ok.2 ⟨(), _, cacheSignature_eq_ok.2 ⟨hsignatureRoom, rfl⟩, rfl⟩

omit [Flash φ] in
theorem cached_loaded {s : StoredManifest φ} {envelope : Envelope} {id : Bytes}
    (h : envelope.bytes.length = envelope.header.length.toNat) :
    (s.loaded envelope id).cached envelope.header = envelope := by
  unfold cached loaded
  rw [← h, List.take_left]

/-- A load that succeeds caches what one read of the flash gave, under the header that another gave. -/
theorem load_ok {s t : StoredManifest φ} (h : s.load = (.ok (), t)) :
    t.stage = .loaded ∧ ∃ header raw, t.header = some header ∧
      s.readAt 0 headerLength = .ok raw ∧ Header.decoder.read raw = .ok header ∧
      s.readAt 0 header.length.toNat = .ok (t.caches.manifest.take header.length.toNat) := by
  obtain ⟨raw, envelope, id, hraw, hheader, -, hbytes, -, -, -, rfl⟩ := load_eq_ok.1 h
  refine ⟨rfl, envelope.header, raw, rfl, hraw, hheader, ?_⟩
  have hcached : (s.loaded envelope id).cached envelope.header = envelope :=
    cached_loaded (length_readAt hbytes)
  exact hbytes.trans (congrArg Except.ok (congrArg Envelope.bytes hcached).symm)

/-- A load that fails leaves no manifest. -/
theorem load_error {s t : StoredManifest φ} {e : Error} (h : s.load = (.error e, t)) :
    t.header = none ∧ (t.stage = .empty ∨ t.stage = .invalid) := by
  rcases Steps.bind_eq_error.1 h with h₁ | ⟨_, s₁, h₁, h⟩
  · cases h₁
  cases h₁
  rcases Steps.bind_eq_error.1 h with h₂ | ⟨header, s₂, h₂, h⟩
  · exact readHeader_error h₂
  obtain ⟨rfl, -⟩ := readHeader_eq_ok.1 h₂
  rcases Steps.bind_eq_error.1 h with h₃ | ⟨bytes, s₃, h₃, h⟩
  · rw [cacheManifest_error h₃]
    exact ⟨rfl, .inl rfl⟩
  obtain ⟨-, -, rfl⟩ := cacheManifest_eq_ok.1 h₃
  rcases Steps.bind_eq_error.1 h with h₄ | ⟨id, s₄, h₄, h⟩
  · rw [Steps.ofExcept_apply] at h₄
    obtain ⟨-, rfl⟩ := Prod.mk.inj h₄
    exact ⟨rfl, .inl rfl⟩
  rw [Steps.ofExcept_apply] at h₄
  obtain ⟨-, rfl⟩ := Prod.mk.inj h₄
  rcases Steps.bind_eq_error.1 h with h₅ | ⟨_, s₅, h₅, h⟩
  · obtain ⟨c, rfl⟩ := cachePlatformId_spec h₅
    exact ⟨rfl, .inl rfl⟩
  obtain ⟨c, rfl⟩ := cachePlatformId_spec h₅
  rcases Steps.bind_eq_error.1 h with h₆ | ⟨_, s₆, h₆, h⟩
  · obtain ⟨d, rfl⟩ := cacheSignature_spec h₆
    exact ⟨rfl, .inl rfl⟩
  cases h

/-! ### The signing key -/

/-- The stored manifest with another cache of the key. -/
def withKey (s : StoredManifest φ) (c : Bytes) : StoredManifest φ :=
  { s with caches := { s.caches with key := c } }

omit [Flash φ] in
@[simp]
theorem withKey_cached (s : StoredManifest φ) (c : Bytes) (header : Header) :
    (s.withKey c).cached header = s.cached header := rfl

/-- The stored manifest in another stage. -/
def withStage (s : StoredManifest φ) (stage : Stage) : StoredManifest φ := { s with stage }

omit [Flash φ] in
@[simp]
theorem withStage_cached (s : StoredManifest φ) (stage : Stage) (header : Header) :
    (s.withStage stage).cached header = s.cached header := rfl

theorem cacheKey_eq_ok {s t : StoredManifest φ} {length : Nat} {blob : Bytes} :
    cacheKey length s = (.ok blob, t) ↔ ∃ n, s.keyBlobLength length = .ok n ∧
      n ≤ s.caches.key.length ∧ s.readAt length n = .ok blob ∧
      t = s.withKey (blob ++ s.caches.key.drop n) := by
  unfold cacheKey
  constructor
  · intro h
    split at h
    · cases h
    · rename_i n hn
      split at h
      · cases h
      · rename_i hroom
        split at h
        · cases h
        · rename_i hblob
          cases h
          exact ⟨n, hn, by omega, hblob, rfl⟩
  · rintro ⟨n, hn, hroom, hblob, rfl⟩
    simp only [hn, if_neg (show ¬s.caches.key.length < n by omega), hblob]
    rfl

theorem cacheKey_frame (s : StoredManifest φ) (length : Nat) :
    ∃ c, (cacheKey length s).2 = s.withKey c := by
  unfold cacheKey
  repeat' split
  all_goals exact ⟨_, rfl⟩

/-- Reading the key changes the cache of the key at most. -/
theorem storedKey_frame (s : StoredManifest φ) (header : Header) :
    ∃ c, (storedKey header s).2 = s.withKey c := by
  unfold storedKey
  cases header.format with
  | legacy => exact ⟨s.caches.key, rfl⟩
  | v2 =>
    simp only [Steps.bind_apply]
    obtain ⟨c, hc⟩ := cacheKey_frame s header.length.toNat
    rcases hr : cacheKey header.length.toNat s with ⟨e | blob, t⟩ <;> rw [hr] at hc
    · exact ⟨c, hc⟩
    · refine ⟨c, ?_⟩
      dsimp only
      cases PublicKey.ofBlob blob <;> exact hc

theorem storedKey_eq_ok {s t : StoredManifest φ} {header : Header} {stored : Option PublicKey}
    (hf : header.format = .v2) : storedKey header s = (.ok stored, t) ↔
      ∃ blob key, cacheKey header.length.toNat s = (.ok blob, t) ∧ PublicKey.ofBlob blob = .ok key ∧
        stored = some key := by
  unfold storedKey
  simp only [hf]
  rw [Steps.bind_eq_ok]
  constructor
  · rintro ⟨blob, s₁, hblob, h⟩
    rcases hk : PublicKey.ofBlob blob with e | key <;> rw [hk] at h <;> cases h
    exact ⟨blob, key, hblob, hk, rfl⟩
  · rintro ⟨blob, key, hblob, hk, rfl⟩
    refine ⟨blob, t, hblob, ?_⟩
    simp only [hk]
    rfl

/-- The key that comes with a manifest: none with a legacy one, and else the key that the flash holds
right behind the manifest. -/
def KeyBehind (s : StoredManifest φ) (header : Header) (stored : Option PublicKey) : Prop :=
  match header.format with
  | .legacy => stored = none
  | .v2 => ∃ key n blob, stored = some key ∧ s.readAt header.length.toNat n = .ok blob ∧
      PublicKey.ofBlob blob = .ok key

theorem storedKey_ok {s t : StoredManifest φ} {header : Header} {stored : Option PublicKey}
    (h : storedKey header s = (.ok stored, t)) : s.KeyBehind header stored := by
  unfold KeyBehind
  cases hf : header.format with
  | legacy =>
    unfold storedKey at h
    rw [hf] at h
    cases h
    rfl
  | v2 =>
    obtain ⟨blob, key, hblob, hk, rfl⟩ := (storedKey_eq_ok hf).1 h
    obtain ⟨n, -, -, hn, -⟩ := cacheKey_eq_ok.1 hblob
    exact ⟨key, n, blob, rfl, hn, hk⟩

/-! ### Verifying -/

section verifying
variable {η ν : Type} [Hash.Engine η] [Signature.Verifier ν]

/-- A judgement that succeeds asked one question, about the signature and the digest of the signed
extent, and the answer was yes; and the bytes are a manifest. -/
theorem judge_ok [Hash.Lawful η] {envelope : Envelope} {stored : Except Error (Option PublicKey)}
    {anchor : Anchor} {expected : Option Bytes} {e e' : Engines η ν}
    (h : judge envelope stored anchor expected e = (.ok (), e')) :
    ∃ o key, stored = .ok o ∧ anchor.Demands o key ∧
      (∀ d ∈ expected, d = Hash.Algorithm.sha256.digest envelope.signed) ∧
      Signature.Verifier.verify
          ⟨key, envelope.signature, Hash.Algorithm.sha256.digest envelope.signed⟩ e.signature =
        (.ok (), e'.signature) ∧
      ∃ m, Manifest.parse envelope.bytes = .ok m := by
  obtain ⟨o, e₁, h₁, h⟩ := Steps.bind_eq_ok.1 h
  rw [Steps.ofExcept_apply] at h₁
  obtain ⟨hstored, rfl⟩ := Prod.mk.inj h₁
  obtain ⟨key, e₂, h₂, h⟩ := Steps.bind_eq_ok.1 h
  obtain ⟨h₂, hs⟩ := Engines.onHash_ok.1 h₂
  obtain ⟨_, e₃, h₃, h⟩ := Steps.bind_eq_ok.1 h
  obtain ⟨hexpected, hasked⟩ := Engines.verifySigned_ok h₃
  obtain ⟨m, e₄, h₄, h⟩ := Steps.bind_eq_ok.1 h
  rw [Steps.ofExcept_apply] at h₄
  obtain ⟨hm, rfl⟩ := Prod.mk.inj h₄
  cases h
  exact ⟨o, key, hstored, Anchor.signer_ok h₂, hexpected, hs ▸ hasked, m, hm⟩

/-- Only a loaded manifest is verified. -/
theorem verify_of_ne_loaded {s : StoredManifest φ} (hs : s.stage ≠ .loaded) (anchor : Anchor)
    (expected : Option Bytes) (e : Engines η ν) :
    s.verify anchor expected e = (.error .noManifest, s, e) := by
  unfold verify
  split
  · exact absurd (by assumption) hs
  · rfl

/-- A verification judges what is cached, and the stage after it says how it ended. -/
theorem verify_eq {s : StoredManifest φ} {header : Header} (hs : s.stage = .loaded)
    (hh : s.header = some header) (anchor : Anchor) (expected : Option Bytes) (e : Engines η ν) :
    s.verify anchor expected e =
      let j := judge (s.cached header) (storedKey header s).1 anchor expected e
      (j.1, (storedKey header s).2.withStage (if j.1.isOk then .valid else .invalid), j.2) := by
  obtain ⟨c, hc⟩ := storedKey_frame s header
  have hcached : (storedKey header s).2.cached header = s.cached header := by
    rw [hc, withKey_cached]
  unfold verify
  rw [hs, hh, ← hcached]
  rfl

theorem verify_loaded {s : StoredManifest φ} {header : Header} (hs : s.stage = .loaded)
    (hh : s.header = some header) (anchor : Anchor) (expected : Option Bytes) (e : Engines η ν) :
    ∃ r c e', judge (s.cached header) (storedKey header s).1 anchor expected e = (r, e') ∧
      s.verify anchor expected e =
        (r, { s.withKey c with stage := if r.isOk then .valid else .invalid }, e') := by
  obtain ⟨c, hc⟩ := storedKey_frame s header
  rcases hj : judge (s.cached header) (storedKey header s).1 anchor expected e with ⟨r, e'⟩
  refine ⟨r, c, e', rfl, ?_⟩
  rw [verify_eq hs hh, hc, hj]
  rfl

end verifying

end StoredManifest

end PlatformGuard
