import PlatformGuard.Proofs.Reserved
import PlatformGuard.Proofs.Storing

/-!
# Manifests that are accepted

Loading and verifying fail only for a reason.  A manifest that lies in flash is loaded if the caches have
room for its parts.  A loaded manifest becomes valid if the hash engine works, the anchor vouches for the
key that lies behind the manifest, and the verifier says yes to the one question that it is asked.
-/

namespace PlatformGuard

/-! ### Engines that work -/

namespace Hash

open Lawful

section working
variable {η : Type} [Engine η] [Lawful η]

/-- A set of states in which an engine fails no call that its session allows, and which no such call
leaves. -/
structure Reliable (P : η → Prop) : Prop where
  start : ∀ {e : η} (a : Algorithm), P e → session e = none →
    ∃ e', Engine.start a e = (.ok (), e') ∧ P e'
  write : ∀ {a : Algorithm} {w : Bytes} {e : η} (bs : Bytes), P e → session e = some (a, w) →
    ∃ e', Engine.write bs e = (.ok (), e') ∧ P e'
  finish : ∀ {a : Algorithm} {w : Bytes} {e : η}, P e → session e = some (a, w) →
    ∃ d e', Engine.finish a.size e = (.ok d, e') ∧ P e' ∧ session e' = none

/-- An engine that has no session and fails no call. -/
def Working (e : η) : Prop := session e = none ∧ ∃ P : η → Prop, Reliable P ∧ P e

omit [Lawful η] in
theorem feeding_of_ok {ε : Type} {feed : ExceptT ε (StateM η) Unit} {e e' : η}
    (h : feed e = (.ok (), e')) : feeding feed e = (.ok (), e') := by
  unfold feeding
  rw [h]

variable {P : η → Prop} {a : Algorithm} {w : Bytes} {e : η}

theorem Reliable.close (hP : Reliable P) (he : P e) (hs : session e = some (a, w)) :
    ∃ e', Hash.close a a.size e = (.ok (a.digest w), e') ∧ Working e' := by
  obtain ⟨d, e', hd, he', hs'⟩ := hP.finish he hs
  have hclose : Hash.close a a.size e = (.ok d, e') := by
    unfold Hash.close
    rw [if_pos rfl, hd]
  rw [close_ok hs hclose] at hclose
  exact ⟨e', hclose, hs', P, hP, he'⟩

theorem Reliable.expect (hP : Reliable P) (he : P e) (hs : session e = some (a, w)) :
    ∃ e', Hash.expect a (a.digest w) e = (.ok (), e') ∧ Working e' := by
  obtain ⟨e', hclose, hw⟩ := hP.close he hs
  refine ⟨e', Steps.bind_eq_ok.2 ⟨_, e', hclose, ?_⟩, hw⟩
  rw [if_pos (Bytes.ctEq_iff.2 rfl)]
  rfl

/-- A working engine gives the digest of every byte string, and goes on working. -/
theorem Working.contiguous (hw : Working e) (a : Algorithm) (message : Bytes) :
    ∃ e', Hash.contiguous a message a.size e = (.ok (a.digest message), e') ∧ Working e' := by
  obtain ⟨hs, P, hP, he⟩ := hw
  obtain ⟨e₁, hstart, he₁⟩ := hP.start a he hs
  have hs₁ := session_start hstart
  obtain ⟨e₂, hwrite, he₂⟩ := hP.write message he₁ hs₁
  have hs₂ : session e₂ = some (a, [] ++ message) := session_write hs₁ hwrite
  obtain ⟨e₃, hclose, hw₃⟩ := hP.close he₂ hs₂
  exact ⟨e₃, Steps.bind_eq_ok.2 ⟨(), e₁, hstart,
    Steps.bind_eq_ok.2 ⟨(), e₂, feeding_of_ok hwrite, hclose⟩⟩, hw₃⟩

theorem working_idle : Working SoftEngine.idle := by
  refine ⟨rfl, fun _ => True, ⟨?_, ?_, ?_⟩, trivial⟩
  · intro e a _ hs
    cases e with
    | idle => exact ⟨_, rfl, trivial⟩
    | hashing b v => cases hs
  · intro a w e bs _ hs
    cases e with
    | idle => cases hs
    | hashing b v => exact ⟨_, rfl, trivial⟩
  · intro a w e _ hs
    cases e with
    | idle => cases hs
    | hashing b v =>
      cases hs
      exact ⟨_, _, if_pos rfl, trivial, rfl⟩

end working

end Hash

namespace Manifest.Anchor

open Hash Hash.Lawful

variable {η : Type} [Engine η] [Lawful η]

theorem writeEach_of_open {P : η → Prop} {a : Algorithm} {w : Bytes} {e : η} (hP : Reliable P)
    (parts : List Bytes) (he : P e) (hs : session e = some (a, w)) :
    ∃ e', writeEach parts e = (.ok (), e') ∧ P e' := by
  induction parts generalizing w e with
  | nil => exact ⟨e, rfl, he⟩
  | cons bs rest ih =>
    obtain ⟨e₁, hwrite, he₁⟩ := hP.write bs he hs
    obtain ⟨e₂, hrest, he₂⟩ := ih he₁ (session_write hs hwrite)
    exact ⟨e₂, Steps.bind_eq_ok.2 ⟨(), e₁, hwrite, hrest⟩, he₂⟩

theorem expectBlob_of_working {e : η} (hw : Working e) (key : PublicKey) :
    ∃ e', expectBlob key (Algorithm.sha256.digest key.toBlob) e = (.ok (), e') ∧ Working e' := by
  obtain ⟨hs, P, hP, he⟩ := hw
  obtain ⟨e₁, hstart, he₁⟩ := hP.start .sha256 he hs
  have hs₁ := session_start hstart
  obtain ⟨e₂, hwrite, he₂⟩ := writeEach_of_open hP key.fields he₁ hs₁
  have hs₂ : session e₂ = some (.sha256, [] ++ key.fields.flatten) := writeEach_ok hs₁ hwrite
  obtain ⟨e₃, hexpect, hw₃⟩ := hP.expect he₂ hs₂
  exact ⟨e₃, Steps.bind_eq_ok.2 ⟨(), e₁, hstart,
    Steps.bind_eq_ok.2 ⟨(), e₂, feeding_of_ok hwrite, hexpect⟩⟩, hw₃⟩

/-- An anchor admits every key that it vouches for. -/
theorem admits_of_vouches {a : Anchor} {key : PublicKey} {e : η} (hw : Working e)
    (hv : a.Vouches key) : ∃ e', a.admits key e = (.ok (), e') ∧ Working e' := by
  cases a with
  | rootKey root =>
    obtain rfl : root = key := hv
    have hk : root.ctEq root = true :=
      Bool.and_eq_true_iff.2 ⟨Bytes.ctEq_iff.2 rfl, Bytes.ctEq_iff.2 rfl⟩
    refine ⟨e, ?_, hw⟩
    rw [admits, if_pos hk]
    rfl
  | keyDigest digest =>
    obtain rfl : digest = _ := hv
    obtain ⟨e', hb, hw'⟩ := expectBlob_of_working hw key
    exact ⟨e', Steps.adapt_eq_ok.2 hb, hw'⟩

theorem signer_of_demands {a : Anchor} {stored : Option PublicKey} {key : PublicKey} {e : η}
    (hw : Working e) (hd : a.Demands stored key) :
    ∃ e', a.signer stored e = (.ok key, e') ∧ Working e' := by
  cases stored with
  | none =>
    obtain rfl : a = rootKey key := hd
    exact ⟨e, rfl, hw⟩
  | some k =>
    obtain ⟨rfl, hv⟩ := hd
    obtain ⟨e', ha, hw'⟩ := admits_of_vouches hw hv
    exact ⟨e', Steps.bind_eq_ok.2 ⟨(), e', ha, rfl⟩, hw'⟩

end Manifest.Anchor

namespace Engines

variable {η ν ε : Type} [Hash.Engine η] [Hash.Lawful η] [Signature.Verifier ν]

theorem verifySigned_of_answer {e : Engines η ν} {refusal : ε} {key : PublicKey}
    {covered signature : Bytes} {expected : Option Bytes} {v : ν} (hw : Hash.Working e.hash)
    (hx : ∀ d ∈ expected, d = Hash.Algorithm.sha256.digest covered)
    (hv : Signature.Verifier.verify ⟨key, signature, Hash.Algorithm.sha256.digest covered⟩
      e.signature = (.ok (), v)) :
    ∃ e', verifySigned refusal key covered signature expected e = (.ok (), e') := by
  obtain ⟨h, hdigest, -⟩ := hw.contiguous .sha256 covered
  have hall : expected.all (Bytes.ctEq (Hash.Algorithm.sha256.digest covered)) = true := by
    cases expected with
    | none => rfl
    | some d => exact Bytes.ctEq_iff.2 (hx d rfl).symm
  refine ⟨⟨h, v⟩, Steps.bind_eq_ok.2 ⟨_, ⟨h, e.signature⟩, onHash_ok.2 ⟨hdigest, rfl⟩, ?_⟩⟩
  rw [hall]
  exact onSignature_ok.2 ⟨hv, rfl⟩

end Engines

/-! ### What lies in flash -/

namespace Flash

theorem take_drop_append {bs : Bytes} {i n : Nat} (h : i + n ≤ bs.length) (cs : Bytes) :
    ((bs ++ cs).drop i).take n = (bs.drop i).take n := by
  rw [List.drop_append_of_le_length (by omega), List.take_append_of_le_length]
  rw [List.length_drop]
  omega

variable {φ : Type} [Flash φ]

/-- The device holds these bytes from an address on: whatever part of them is asked for can be read. -/
def Holds (f : φ) (address : UInt32) (bs : Bytes) : Prop :=
  ∀ i n, 0 < n → i + n ≤ bs.length → address.toNat + i < addressLimit ∧
    Flash.read f (address + UInt32.ofNat i) n = .ok ((bs.drop i).take n)

theorem Holds.front {f : φ} {address : UInt32} {bs cs : Bytes} (h : Holds f address (bs ++ cs)) :
    Holds f address bs := by
  intro i n hn hi
  obtain ⟨ha, hr⟩ := h i n hn (by rw [List.length_append]; omega)
  rw [hr, take_drop_append hi]
  exact ⟨ha, rfl⟩

/-- Memory holds what its contents are. -/
theorem Ram.holds {f : Ram} {address : UInt32} {bs : Bytes} (front back : Bytes)
    (hc : f.contents.toList = front ++ (bs ++ back)) (ha : front.length = address.toNat)
    (hsize : f.contents.size ≤ addressLimit) : Holds f address bs := by
  intro i n hn hi
  have hlength : f.contents.size = front.length + (bs.length + back.length) := by
    rw [← Array.length_toList, hc, List.length_append, List.length_append]
  have hat : (address + UInt32.ofNat i).toNat = address.toNat + i := toNat_add_ofNat (by omega)
  refine ⟨by omega, ?_⟩
  change readFrom f.contents _ n = _
  rw [readFrom, hat, if_pos (by omega)]
  congr 1
  rw [Array.toList_extract, List.extract_eq_take_drop, Nat.add_sub_cancel_left, hc, ← ha,
    ← List.drop_drop, List.drop_left, take_drop_append hi]

end Flash

namespace Manifest

/-- What has to lie behind a manifest that is signed with a key. -/
def Format.trailer (f : Format) (key : PublicKey) : Bytes :=
  match f with
  | .legacy => []
  | .v2 => key.toBlob

/-- The key that comes with a manifest. -/
def Format.stored (f : Format) (key : PublicKey) : Option PublicKey :=
  match f with
  | .legacy => none
  | .v2 => some key

/-- A root key demands itself of every manifest, and a digest the key that it is of. -/
theorem Anchor.demands_stored {a : Anchor} {f : Format} {key : PublicKey}
    (h : a = rootKey key ∨ f = .v2 ∧ a = keyDigest (Hash.Algorithm.sha256.digest key.toBlob)) :
    a.Demands (f.stored key) key := by
  rcases h with rfl | ⟨rfl, rfl⟩
  · cases f with
    | legacy => rfl
    | v2 => exact ⟨rfl, rfl⟩
  · exact ⟨rfl, rfl⟩

end Manifest

namespace StoredManifest

open Manifest Decoder

variable {φ : Type} [Flash φ]

theorem readAt_of_holds {s : StoredManifest φ} {bs : Bytes} {i n : Nat}
    (h : Flash.Holds s.flash s.base bs) (hn : 0 < n) (hi : i + n ≤ bs.length) :
    s.readAt i n = .ok ((bs.drop i).take n) := by
  obtain ⟨ha, hr⟩ := h i n hn hi
  unfold readAt
  rw [if_pos ha, hr]
  rfl

/-! ### Loading what can be read -/

/-- The id of the platform stands where the loader looks for it. -/
theorem platformIdOf_ok {format : Format} {body rest : Bytes} {c : Bytes × Body}
    (h : (contents format).on body = (.ok c, rest)) : platformIdOf body = .ok c.1 := by
  obtain ⟨length, s₁, hlength, h⟩ := on_bind_ok.1 h
  obtain ⟨gap, s₂, hgap, h⟩ := on_bind_ok.1 h
  obtain ⟨platformId, s₃, hid, h⟩ := on_bind_ok.1 h
  obtain ⟨_, s₄, -, h⟩ := on_bind_ok.1 h
  obtain ⟨body, s₅, -, h⟩ := on_bind_ok.1 h
  cases h
  obtain rfl := on_u8_ok hlength
  obtain rfl := on_u8_ok hgap
  obtain ⟨hn, -, rfl⟩ := readId_ok hid
  have hroom : 2 + length.toNat ≤ (length :: gap :: (platformId ++ s₃)).length := by
    simp [hn]
    omega
  refine (if_pos hroom).trans ?_
  change Except.ok ((platformId ++ s₃).take length.toNat) = _
  rw [← hn, List.take_left]

/-- The bytes of a manifest and what has to lie behind it are in flash, and the caches have room for the
parts of the manifest, for a zero behind the platform id, and for what lies behind. -/
structure Installed (s : StoredManifest φ) (bytes platformId signature behind : Bytes) : Prop where
  held : Flash.Holds s.flash s.base (bytes ++ behind)
  manifest : bytes.length ≤ s.caches.manifest.length
  platformId : platformId.length < s.caches.platformId.length
  signature : signature.length ≤ s.caches.signature.length
  key : behind.length ≤ s.caches.key.length

/-- A manifest in flash is loaded as it is. -/
theorem load_of_parse {s : StoredManifest φ} {m : Manifest} {behind : Bytes}
    (hm : Manifest.parse m.envelope.bytes = .ok m)
    (hi : s.Installed m.envelope.bytes m.platformId m.signature behind) :
    s.load = (.ok (), s.loaded m.envelope m.platformId) := by
  obtain ⟨hr, hl, -, hc⟩ := parse_eq_ok.1 hm
  obtain ⟨hlong, -⟩ := Header.read_ok hr
  have hpos : 0 < m.envelope.bytes.length := Nat.lt_of_lt_of_le (by decide) hlong
  have hraw : s.readAt 0 headerLength = .ok (m.envelope.bytes.take headerLength) :=
    readAt_of_holds hi.held.front (by decide) (by omega)
  have hheader : Header.decoder.read (m.envelope.bytes.take headerLength) = .ok m.envelope.header :=
    Header.read_of_take hr (by rw [List.take_take, Nat.min_self])
  have hread : s.readAt 0 m.envelope.header.length.toNat = .ok m.envelope.bytes := by
    rw [← hl, readAt_of_holds hi.held.front hpos (by omega), List.drop_zero, List.take_length]
  obtain ⟨hmanifest, hid, hsignature, -⟩ := length_clear s.caches
  refine load_eq_ok.2 ⟨_, m.envelope, m.platformId, hraw, hheader, ?_, hread, platformIdOf_ok hc, ?_,
    ?_, rfl⟩
  · rw [hmanifest, ← hl]
    exact hi.manifest
  · rw [hid]
    exact hi.platformId
  · rw [hsignature]
    exact hi.signature

/-! ### The key behind a manifest -/

theorem readAt_behind {s : StoredManifest φ} {bs cs : Bytes} {i n : Nat}
    (h : Flash.Holds s.flash s.base (bs ++ cs)) (hn : 0 < n) (hi : i + n ≤ cs.length) :
    s.readAt (bs.length + i) n = .ok ((cs.drop i).take n) := by
  rw [readAt_of_holds h hn (by rw [List.length_append]; omega), ← List.drop_drop, List.drop_left]

/-- The length of a blob is found from its two length fields. -/
theorem keyBlobLength_of_holds {s : StoredManifest φ} {bytes : Bytes} {key : PublicKey}
    (h : Flash.Holds s.flash s.base (bytes ++ key.toBlob)) :
    s.keyBlobLength bytes.length = .ok key.blobLength := by
  have hlength : key.toBlob.length = 2 + key.modulus.length + 1 + key.exponent.length :=
    key.length_toBlob
  have hmodulus : s.readAt bytes.length 2 = .ok (Bytes.ofNatLE 2 key.modulus.length) := by
    rw [← Nat.add_zero bytes.length, readAt_behind h (by decide) (by omega), List.drop_zero,
      key.toBlob_eq]
    rfl
  have hexponent : s.readAt (bytes.length + 2 + key.modulus.length) 1 =
      .ok (Bytes.ofNatLE 1 key.exponent.length) := by
    rw [Nat.add_assoc, readAt_behind h (by decide) (by omega), key.toBlob_eq, ← List.drop_drop]
    change Except.ok (((key.modulus ++ _).drop key.modulus.length).take 1) = _
    rw [List.drop_left]
    rfl
  have hm : Bytes.toNatLE (Bytes.ofNatLE 2 key.modulus.length) = key.modulus.length := by
    rw [Bytes.toNatLE_ofNatLE, Nat.mod_eq_of_lt key.modulus_length_lt]
  have he : Bytes.toNatLE (Bytes.ofNatLE 1 key.exponent.length) = key.exponent.length := by
    rw [Bytes.toNatLE_ofNatLE, Nat.mod_eq_of_lt]
    exact Nat.lt_of_le_of_lt key.exponent_sized.2 (by decide)
  have hsmall : ¬ PublicKey.maxSignatureSize < key.modulus.length := by
    rcases Manifest.Draft.isSome_ofBytes?.1 key.modulus_sized with h | h | h <;> rw [h] <;> decide
  unfold keyBlobLength
  rw [hmodulus]
  simp only [bind, Except.bind, hm, if_neg hsmall, hexponent, he]
  rfl

/-- The key whose blob lies behind a manifest is found. -/
theorem storedKey_of_holds {s : StoredManifest φ} {header : Header} {bytes : Bytes} {key : PublicKey}
    (hformat : header.format = .v2) (hlength : bytes.length = header.length.toNat)
    (h : Flash.Holds s.flash s.base (bytes ++ key.toBlob))
    (hroom : key.toBlob.length ≤ s.caches.key.length) : (storedKey header s).1 = .ok (some key) := by
  have hblob : s.readAt bytes.length key.blobLength = .ok key.toBlob := by
    have hpos : 0 < key.blobLength := by
      unfold PublicKey.blobLength
      omega
    have hread := readAt_behind h (i := 0) hpos (by rw [key.length_toBlob]; omega)
    rw [List.drop_zero, ← key.length_toBlob, List.take_length] at hread
    rwa [← key.length_toBlob]
  have hcached : cacheKey header.length.toNat s = (.ok key.toBlob, _) :=
    cacheKey_eq_ok.2 ⟨key.blobLength, hlength ▸ keyBlobLength_of_holds h, key.length_toBlob ▸ hroom,
      hlength ▸ hblob, rfl⟩
  have hkey : PublicKey.ofBlob key.toBlob = .ok key :=
    PublicKey.ofBlob_eq_ok.2 ⟨[], (List.append_nil _).symm⟩
  exact congrArg Prod.fst ((storedKey_eq_ok hformat).2 ⟨_, key, hcached, hkey, rfl⟩)

/-- What is stored behind a manifest is its key, if its format has one. -/
theorem storedKey_of_trailer {s : StoredManifest φ} {header : Header} {bytes : Bytes}
    {key : PublicKey} (hlength : bytes.length = header.length.toNat)
    (h : Flash.Holds s.flash s.base (bytes ++ header.format.trailer key))
    (hroom : (header.format.trailer key).length ≤ s.caches.key.length) :
    (storedKey header s).1 = .ok (header.format.stored key) := by
  cases hf : header.format with
  | legacy =>
    unfold storedKey
    simp only [hf]
    rfl
  | v2 =>
    rw [hf] at h hroom
    exact storedKey_of_holds hf hlength h hroom

/-! ### Verifying what is signed -/

omit [Flash φ] in
theorem manifest_of_valid {s : StoredManifest φ} {header : Header} (hs : s.stage = .valid)
    (hh : s.header = some header) : s.manifest = Manifest.parse (s.cached header).bytes := by
  unfold manifest
  rw [hs, hh]
  rfl

section verifying
variable {η ν : Type} [Hash.Engine η] [Hash.Lawful η] [Signature.Verifier ν]

/-- A judgement succeeds if there is nothing to refuse. -/
theorem judge_of_parse {m : Manifest} {stored : Option PublicKey} {key : PublicKey} {anchor : Anchor}
    {expected : Option Bytes} {e : Engines η ν} {v : ν} (hw : Hash.Working e.hash)
    (hd : anchor.Demands stored key)
    (hx : ∀ d ∈ expected, d = Hash.Algorithm.sha256.digest m.envelope.signed)
    (hv : Signature.Verifier.verify ⟨key, m.signature,
      Hash.Algorithm.sha256.digest m.envelope.signed⟩ e.signature = (.ok (), v))
    (hm : Manifest.parse m.envelope.bytes = .ok m) :
    ∃ e', judge m.envelope (.ok stored) anchor expected e = (.ok (), e') := by
  obtain ⟨h, hsigner, hw'⟩ := Anchor.signer_of_demands hw hd
  obtain ⟨e', hsigned⟩ : ∃ e', Engines.verifySigned Manifest.Error.verifyFailed key m.envelope.signed
      m.signature expected ⟨h, e.signature⟩ = (.ok (), e') :=
    Engines.verifySigned_of_answer hw' hx hv
  refine ⟨e', Steps.bind_eq_ok.2 ⟨stored, e, Steps.ofExcept_apply _ _, Steps.bind_eq_ok.2 ⟨key,
    ⟨h, e.signature⟩, Engines.onHash_ok.2 ⟨hsigner, rfl⟩, Steps.bind_eq_ok.2 ⟨(), e', hsigned,
    Steps.bind_eq_ok.2 ⟨m, e', ?_, rfl⟩⟩⟩⟩⟩
  rw [Steps.ofExcept_apply, hm]

/-- A manifest that lies in flash, signed and with its key behind it, is loaded and becomes valid. -/
theorem verify_of_parse {s : StoredManifest φ} {m : Manifest} {key : PublicKey} {anchor : Anchor}
    {expected : Option Bytes} {e : Engines η ν} {v : ν}
    (hm : Manifest.parse m.envelope.bytes = .ok m)
    (hi : s.Installed m.envelope.bytes m.platformId m.signature
      (m.envelope.header.format.trailer key))
    (hw : Hash.Working e.hash) (hd : anchor.Demands (m.envelope.header.format.stored key) key)
    (hx : ∀ d ∈ expected, d = Hash.Algorithm.sha256.digest m.envelope.signed)
    (hv : Signature.Verifier.verify ⟨key, m.signature,
      Hash.Algorithm.sha256.digest m.envelope.signed⟩ e.signature = (.ok (), v)) :
    ∃ t u e', s.load = (.ok (), t) ∧ t.stage = .loaded ∧
      t.verify anchor expected e = (.ok (), u, e') ∧ u.stage = .valid ∧ u.manifest = .ok m := by
  obtain ⟨-, hlength, -, -⟩ := parse_eq_ok.1 hm
  obtain ⟨t, ht⟩ : ∃ t, t = s.loaded m.envelope m.platformId := ⟨_, rfl⟩
  have hload : s.load = (.ok (), t) := ht ▸ load_of_parse hm hi
  have hcached : t.cached m.envelope.header = m.envelope := ht ▸ cached_loaded hlength
  have hstored : (storedKey m.envelope.header t).1 = .ok (m.envelope.header.format.stored key) := by
    rw [ht]
    refine storedKey_of_trailer hlength hi.held ?_
    exact (length_clear s.caches).2.2.2 ▸ hi.key
  obtain ⟨e', hjudge⟩ := judge_of_parse hw hd hx hv hm
  have hstage : t.stage = .loaded := by rw [ht]; rfl
  have hheader : t.header = some m.envelope.header := by rw [ht]; rfl
  have hverify := verify_eq hstage hheader anchor expected e
  obtain ⟨c, hc⟩ := storedKey_frame t m.envelope.header
  rw [hcached, hstored, hjudge, hc] at hverify
  have hmanifest : ((t.withKey c).withStage .valid).manifest = .ok m := by
    have hkept : ((t.withKey c).withStage .valid).header = some m.envelope.header := hheader
    rw [manifest_of_valid rfl hkept, withStage_cached, withKey_cached, hcached]
    exact hm
  exact ⟨t, _, e', hload, hstage, hverify, rfl, hmanifest⟩

end verifying

end StoredManifest

end PlatformGuard
