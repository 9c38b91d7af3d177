import PlatformGuard.Proofs.Verdicts

/-!
# What the getters of a header answer

Loading cuts the platform id and the signature out of a manifest before anything is checked, and keeps them in
caches of their own.  Whatever happens afterwards, these caches go on holding the parts of the cached
manifest (`Kept`), each with room to spare for what is read from it.  Parsing cuts the same bytes out again,
so that the parts of a valid manifest are those that were kept.
-/

namespace PlatformGuard.StoredManifest

open Manifest

/-! ### The platform id of a body -/

/-- The body begins with the length of the platform id, a byte without a meaning, and the id itself. -/
def NamesPlatform (body id : Bytes) : Prop :=
  ∃ length gap rest, body = length :: gap :: (id ++ rest) ∧ id.length = length.toNat

theorem platformIdOf_eq_ok {body id : Bytes} : platformIdOf body = .ok id ↔ NamesPlatform body id := by
  constructor
  · intro h
    unfold platformIdOf at h
    split at h
    · cases h
    · rename_i length tail
      by_cases hroom : 2 + length.toNat ≤ (length :: tail).length
      · rw [if_pos hroom] at h
        cases h
        obtain ⟨gap, rest, rfl⟩ : ∃ gap rest, tail = gap :: rest := by
          cases tail with
          | nil =>
            simp only [List.length_cons, List.length_nil] at hroom
            omega
          | cons gap rest => exact ⟨gap, rest, rfl⟩
        simp only [List.length_cons] at hroom
        refine ⟨length, gap, rest.drop length.toNat, ?_, ?_⟩
        · simp
        · exact List.length_take_of_le (by simp only [List.drop_succ_cons, List.drop_zero]; omega)
      · rw [if_neg hroom] at h
        cases h
  · rintro ⟨length, gap, rest, rfl, hlength⟩
    have hroom : 2 + length.toNat ≤ (length :: gap :: (id ++ rest)).length := by
      simp only [List.length_cons, List.length_append]
      omega
    refine (if_pos hroom).trans ?_
    rw [← hlength]
    exact congrArg Except.ok List.take_left

/-! ### What is kept -/

section kept
variable {φ : Type}

/-- A manifest is cached under its own header, with room to spare, and its platform id and its signature are
at the front of caches of their own, the id with a zero behind it. -/
structure Kept (s : StoredManifest φ) (header : Header) (id : Bytes) : Prop where
  header_eq : s.header = some header
  read : Header.decoder.read (s.cached header).bytes = .ok header
  room : header.length.toNat ≤ s.caches.manifest.length
  names : NamesPlatform (s.cached header).body id
  idLength : s.idLength = id.length
  platformId : ∃ rest, s.caches.platformId = id ++ 0 :: rest
  signature : ∃ rest, s.caches.signature = (s.cached header).signature ++ rest

/-- The getters read no more than their caches have. -/
structure Inside (s : StoredManifest φ) (header : Header) : Prop where
  platformId : s.idLength < s.caches.platformId.length
  signature : header.signatureLength.toNat ≤ s.caches.signature.length
  signed : header.signedLength ≤ s.caches.manifest.length

/-- What the getters answer; the digest comes from every engine that works, and no other digest from any. -/
structure Answers (s : StoredManifest φ) (id : UInt32) (platformId signature signed : Bytes) : Prop where
  id : s.id = .ok id
  platformId : s.platformId = .ok platformId
  signature : s.signature = .ok signature
  digest : ∀ {κ : Type} [Hash.Engine κ] [Hash.Lawful κ] {e : κ}, Hash.Working e →
    ∃ e', s.digest 32 e = (.ok (Hash.Algorithm.sha256.digest signed), e')
  digest_unique : ∀ {κ : Type} [Hash.Engine κ] [Hash.Lawful κ] {e e' : κ} {d : Bytes},
    s.digest 32 e = (.ok d, e') → d = Hash.Algorithm.sha256.digest signed

variable {s : StoredManifest φ} {header : Header} {id : Bytes}

theorem Kept.length_signature (h : s.Kept header id) :
    (s.cached header).signature.length = header.signatureLength.toNat := by
  have hle := Header.length_le h.read
  have hbytes : (s.cached header).bytes.length = header.length.toNat := List.length_take_of_le h.room
  change ((s.cached header).bytes.drop header.signedLength).length = _
  rw [List.length_drop, hbytes, Header.signedLength]
  omega

theorem take_signedLength (s : StoredManifest φ) (header : Header) :
    s.caches.manifest.take header.signedLength = (s.cached header).signed := by
  have hle : header.signedLength ≤ header.length.toNat := Nat.sub_le _ _
  change _ = (s.caches.manifest.take header.length.toNat).take header.signedLength
  rw [List.take_take, Nat.min_eq_left hle]

theorem Kept.inside (h : s.Kept header id) : s.Inside header := by
  obtain ⟨rest, hid⟩ := h.platformId
  obtain ⟨back, hsignature⟩ := h.signature
  refine ⟨?_, ?_, Nat.le_trans (Nat.sub_le _ _) h.room⟩
  · rw [h.idLength, hid, List.length_append, List.length_cons]
    omega
  · rw [← h.length_signature, hsignature, List.length_append]
    exact Nat.le_add_right _ _

theorem loadedHeader_eq (hs : s.stage = .loaded ∨ s.stage = .valid) (hh : s.header = some header) :
    s.loadedHeader = .ok header := by
  unfold loadedHeader
  rcases hs with hs | hs
  · rw [hs, hh]
  · rw [hs, hh]

theorem loadedHeader_error (hs : s.stage = .empty ∨ s.stage = .invalid) :
    s.loadedHeader = .error .noManifest := by
  unfold loadedHeader
  rcases hs with hs | hs
  · rw [hs]
  · rw [hs]

/-- The getters answer with what is kept. -/
theorem Kept.answers (h : s.Kept header id) (hs : s.stage = .loaded ∨ s.stage = .valid) :
    s.Answers header.id id (s.cached header).signature (s.cached header).signed := by
  have hheader := loadedHeader_eq hs h.header_eq
  obtain ⟨rest, hid⟩ := h.platformId
  obtain ⟨back, hsignature⟩ := h.signature
  have hdigest : ∀ {κ : Type} [Hash.Engine κ], (s.digest 32 : ExceptT Error (StateM κ) Bytes) =
      ExceptT.adapt (fun _ => .invalidArgument)
        (Hash.contiguous .sha256 (s.cached header).signed 32) := by
    intro κ _
    unfold digest
    rw [h.header_eq, ← s.take_signedLength]
  refine ⟨?_, ?_, ?_, fun {κ _ _ e} hw => ?_, fun {κ _ _ e e' d} hd => ?_⟩
  · unfold StoredManifest.id
    rw [hheader]
    rfl
  · unfold StoredManifest.platformId
    rw [hheader, h.idLength, hid]
    exact congrArg Except.ok List.take_left
  · unfold StoredManifest.signature
    rw [hheader]
    change Except.ok (s.caches.signature.take header.signatureLength.toNat) = _
    rw [← h.length_signature, hsignature, List.take_left]
  · obtain ⟨e', hcontiguous, -⟩ := hw.contiguous .sha256 (s.cached header).signed
    rw [hdigest]
    exact ⟨e', Steps.adapt_eq_ok.2 hcontiguous⟩
  · rw [hdigest] at hd
    exact Hash.contiguous_ok (Steps.adapt_eq_ok.1 hd)

/-- No cache but that of the key is changed, and the header stays. -/
theorem Kept.congr {t : StoredManifest φ} (h : s.Kept header id) (hh : t.header = s.header)
    (hi : t.idLength = s.idLength) (hm : t.caches.manifest = s.caches.manifest)
    (hp : t.caches.platformId = s.caches.platformId) (hg : t.caches.signature = s.caches.signature) :
    t.Kept header id := by
  have hcached : t.cached header = s.cached header := by
    unfold cached
    rw [hm]
  exact ⟨hh.trans h.header_eq, hcached ▸ h.read, hm ▸ h.room, hcached ▸ h.names, hi.trans h.idLength,
    hp ▸ h.platformId, hg ▸ hcached ▸ h.signature⟩

theorem kept_loaded {envelope : Envelope} (hlength : envelope.bytes.length = envelope.header.length.toNat)
    (hsound : (s.loaded envelope id).Sound) (hid : platformIdOf envelope.body = .ok id) :
    (s.loaded envelope id).Kept envelope.header id := by
  have hcached : (s.loaded envelope id).cached envelope.header = envelope := cached_loaded hlength
  obtain ⟨header, hh, hread⟩ := hsound
  obtain rfl : envelope.header = header := Option.some.inj hh
  refine ⟨hh, hread, ?_, hcached.symm ▸ platformIdOf_eq_ok.1 hid, rfl, ?_, ?_⟩
  · change _ ≤ (envelope.bytes ++ _).length
    rw [List.length_append, hlength]
    exact Nat.le_add_right _ _
  · exact ⟨_, List.append_assoc id [0] _⟩
  · rw [hcached]
    exact ⟨_, rfl⟩

end kept

/-! ### What every run keeps -/

section runs
variable {φ η ν : Type} [Flash φ] [Hash.Engine η] [Signature.Verifier ν]

/-- There is a header where there is a manifest, what is cached under a header is kept, and what is valid was
parsed. -/
structure Consistent (s : StoredManifest φ) : Prop where
  header : s.stage = .loaded ∨ s.stage = .valid → ∃ header, s.header = some header
  kept : ∀ header, s.header = some header → ∃ id, s.Kept header id
  parsed : s.stage = .valid → ∀ header, s.header = some header →
    ∃ m, Manifest.parse (s.cached header).bytes = .ok m

omit [Flash φ] in
/-- Without a header there is nothing to keep. -/
theorem consistent_of_none {s : StoredManifest φ} (hh : s.header = none)
    (hs : s.stage = .empty ∨ s.stage = .invalid) : s.Consistent := by
  have hnot : ¬(s.stage = .loaded ∨ s.stage = .valid) := by
    rcases hs with hs | hs <;> rw [hs] <;> decide
  refine ⟨fun h => absurd h hnot, fun header h => ?_, fun h => absurd (.inr h) hnot⟩
  rw [hh] at h
  cases h

theorem consistent_load [Flash.Coherent φ] (s : StoredManifest φ) : s.load.2.Consistent := by
  rcases hl : s.load with ⟨x | _, t⟩
  · obtain ⟨hh, hs⟩ := load_error hl
    exact consistent_of_none hh hs
  · have hsound := sound_of_load hl
    obtain ⟨raw, envelope, id, -, -, -, hbytes, hid, -, -, rfl⟩ := load_eq_ok.1 hl
    have hkept := kept_loaded (length_readAt hbytes) hsound hid
    refine ⟨fun _ => ⟨_, hkept.header_eq⟩, fun header h => ?_, fun h => by cases h⟩
    cases hkept.header_eq.symm.trans h
    exact ⟨id, hkept⟩

theorem Consistent.verify {s : StoredManifest φ} (h : s.Consistent) (anchor : Anchor)
    (expected : Option Bytes) (e : Engines η ν) : (s.verify anchor expected e).2.1.Consistent := by
  by_cases hs : s.stage = .loaded
  · obtain ⟨header, hh⟩ := h.header (.inl hs)
    obtain ⟨id, hkept⟩ := h.kept header hh
    obtain ⟨r, c, e', hj, hv⟩ := verify_loaded hs hh anchor expected e
    rw [hv]
    -- only the key and the stage have changed
    have hkept' : ((s.withKey c).withStage (if r.isOk then .valid else .invalid)).Kept header id :=
      hkept.congr rfl rfl rfl rfl rfl
    refine ⟨fun _ => ⟨header, hh⟩, fun header' h' => ?_, fun hvalid header' h' => ?_⟩
    · cases hkept'.header_eq.symm.trans h'
      exact ⟨id, hkept'⟩
    · cases hkept'.header_eq.symm.trans h'
      cases r with
      | error x => cases hvalid
      | ok _ =>
        obtain ⟨-, -, -, -, -, -, hparsed⟩ := judge_eq_ok.1 hj
        exact hparsed
  · rw [verify_of_ne_loaded hs]
    exact h

theorem Consistent.after [Flash.Coherent φ] {s : StoredManifest φ} (h : s.Consistent) (e : Event φ η ν) :
    (s.after e).Consistent := by
  cases e with
  | load => exact consistent_load s
  | verify anchor expected e => exact h.verify anchor expected e
  | reset => exact consistent_of_none rfl (.inl rfl)
  | flash device =>
    refine ⟨h.header, fun header hh => ?_, h.parsed⟩
    obtain ⟨id, hkept⟩ := h.kept header hh
    exact ⟨id, hkept.congr rfl rfl rfl rfl rfl⟩

theorem consistent_run [Flash.Coherent φ] (flash : φ) (base : UInt32) (caches : Caches)
    (es : List (Event φ η ν)) : ((init flash base caches).run es).Consistent := by
  induction es using List.reverseRecOn with
  | nil => exact consistent_of_none rfl (.inl rfl)
  | append_singleton es e ih =>
    rw [run_snoc]
    exact ih.after e

/-! ### Getters -/

omit [Flash φ] in
/-- The parts of a valid manifest are those that are kept. -/
theorem Consistent.manifest {s : StoredManifest φ} (h : s.Consistent) (hs : s.stage = .valid) :
    ∃ m, s.manifest = .ok m ∧ s.Kept m.envelope.header m.platformId ∧
      m.envelope = s.cached m.envelope.header := by
  obtain ⟨header, hh⟩ := h.header (.inr hs)
  obtain ⟨id, hkept⟩ := h.kept header hh
  obtain ⟨m, hm⟩ := h.parsed hs header hh
  obtain ⟨hread, -, hbytes, hcontents⟩ := parse_eq_ok.1 hm
  have hheader : m.envelope.header = header := Except.ok.inj (hread.symm.trans hkept.read)
  subst hheader
  have henvelope : m.envelope = s.cached m.envelope.header :=
    (show m.envelope = ⟨m.envelope.header, m.envelope.bytes⟩ from rfl).trans (by rw [hbytes]; rfl)
  have hid : platformIdOf (s.cached m.envelope.header).body = .ok m.platformId :=
    henvelope ▸ platformIdOf_ok hcontents
  obtain rfl : id = m.platformId :=
    Except.ok.inj ((platformIdOf_eq_ok.2 hkept.names).symm.trans hid)
  exact ⟨m, (manifest_of_valid hs hh).trans hm, hkept, henvelope⟩

/-- **The getters of a header agree with the manifest.**  In a stage with a manifest they answer with the
parts of what is cached, and in the valid stage these are the parts of the manifest; they stay within their
caches wherever there is a header; and without a manifest there is no answer. -/
theorem getters_agree [Flash.Coherent φ] (flash : φ) (base : UInt32) (caches : Caches)
    (es : List (Event φ η ν)) :
    let s := (init flash base caches).run es
    (s.stage = .loaded ∨ s.stage = .valid → ∃ header id, s.Kept header id ∧
      s.Answers header.id id (s.cached header).signature (s.cached header).signed) ∧
    (s.stage = .valid → ∃ m, s.manifest = .ok m ∧
      s.Answers m.id m.platformId m.signature m.envelope.signed ∧
      s.caches.platformId[m.platformId.length]? = some 0) ∧
    (∀ header, s.header = some header → s.Inside header) ∧
    (s.stage = .empty ∨ s.stage = .invalid → s.id = .error .noManifest ∧
      s.platformId = .error .noManifest ∧ s.signature = .error .noManifest) := by
  intro s
  have h : s.Consistent := consistent_run flash base caches es
  refine ⟨fun hs => ?_, fun hs => ?_, fun header hh => ?_, fun hs => ?_⟩
  · obtain ⟨header, hh⟩ := h.header hs
    obtain ⟨id, hkept⟩ := h.kept header hh
    exact ⟨header, id, hkept, hkept.answers hs⟩
  · obtain ⟨m, hm, hkept, henvelope⟩ := h.manifest hs
    obtain ⟨rest, hid⟩ := hkept.platformId
    refine ⟨m, hm, ?_, by simp [hid]⟩
    have hanswers := hkept.answers (.inr hs)
    rw [← henvelope] at hanswers
    exact hanswers
  · obtain ⟨id, hkept⟩ := h.kept header hh
    exact hkept.inside
  · have herror := loadedHeader_error hs
    unfold StoredManifest.id StoredManifest.platformId StoredManifest.signature
    rw [herror]
    exact ⟨rfl, rfl, rfl⟩

end runs

/-- The idle manifest has its platform id and its signature cut out once it is loaded, and keeps them when it
is valid. -/
theorem idleRun_getters :
    (∃ header id, (idleStored.run loadingRun).Kept header id ∧
      (idleStored.run loadingRun).Answers header.id id
        ((idleStored.run loadingRun).cached header).signature
        ((idleStored.run loadingRun).cached header).signed) ∧
    ∃ m, (idleStored.run idleRun).manifest = .ok m ∧
      (idleStored.run idleRun).Answers m.id m.platformId m.signature m.envelope.signed ∧
      (idleStored.run idleRun).caches.platformId[m.platformId.length]? = some 0 := by
  have hinit : init idleStored.flash idleStored.base idleStored.caches = idleStored := rfl
  have hloaded : (idleStored.run loadingRun).stage = .loaded := by decide +kernel
  have hvalid : (idleStored.run idleRun).stage = .valid := by decide +kernel
  have hloading := (getters_agree idleStored.flash idleStored.base idleStored.caches loadingRun).1
  have hrun := (getters_agree idleStored.flash idleStored.base idleStored.caches idleRun).2.1
  rw [hinit] at hloading hrun
  exact ⟨hloading (.inl hloaded), hrun hvalid⟩

end PlatformGuard.StoredManifest
