import PlatformGuard.Hash.Software
import PlatformGuard.Proofs.Storing
import PlatformGuard.Signature.Forced
import PlatformGuard.Signature.Rsa
import Mathlib.Data.List.Induction

/-!
# Authentication

Loads, verifications, resets and changes of the flash may follow each other in any order, with engines
that fail at any point and a verifier that answers as it likes.  A stored manifest is valid only if the
verifier was asked, once and since the last load, about the very bytes that are cached, and said yes;
and from then on every answer is read off from these bytes.

The invariant has two parts.  A manifest that is loaded or valid is cached under the header that its
own bytes begin with (`Sound`); and a valid one was authenticated by some verification of the run
(`Authenticated`).
-/

namespace PlatformGuard.StoredManifest

open Manifest Signature

/-! ### Runs -/

/-- A stored manifest of which nothing was read yet. -/
def init {φ : Type} (flash : φ) (base : UInt32) (caches : Caches) : StoredManifest φ :=
  { flash, base, caches }

/-- What can happen to a stored manifest.  Queries are left out, since they are functions of it. -/
inductive Event (φ η ν : Type) where
  | load
  | verify (anchor : Anchor) (expected : Option Bytes) (engines : Engines η (Transcript ν))
  | reset
  /-- The flash becomes another device. -/
  | flash (device : φ)

/-- Whether an event leaves the cached manifest where it is. -/
def Event.Keeps {φ η ν : Type} : Event φ η ν → Prop
  | load | reset => False
  | verify _ _ _ | flash _ => True

variable {φ η ν : Type} [Flash φ] [Hash.Engine η] [Verifier ν]

/-- The stored manifest after an event. -/
def after (s : StoredManifest φ) : Event φ η ν → StoredManifest φ
  | .load => s.load.2
  | .verify anchor expected engines => (s.verify anchor expected engines).2.1
  | .reset => s.reset
  | .flash device => { s with flash := device }

/-- The stored manifest after a run. -/
def run (s : StoredManifest φ) (events : List (Event φ η ν)) : StoredManifest φ := events.foldl after s

theorem run_append (s : StoredManifest φ) (es fs : List (Event φ η ν)) :
    s.run (es ++ fs) = (s.run es).run fs := List.foldl_append

theorem run_snoc (s : StoredManifest φ) (es : List (Event φ η ν)) (e : Event φ η ν) :
    s.run (es ++ [e]) = (s.run es).after e := run_append s es [e]

/-- Whether a run has loaded the manifest and kept it since. -/
def LoadedSince (events : List (Event φ η ν)) : Prop :=
  ∃ earlier since, events = earlier ++ .load :: since ∧ ∀ e ∈ since, e.Keeps

omit [Flash φ] [Hash.Engine η] [Verifier ν] in
theorem LoadedSince.snoc {es : List (Event φ η ν)} {e : Event φ η ν} (h : LoadedSince es)
    (he : e.Keeps) : LoadedSince (es ++ [e]) := by
  obtain ⟨earlier, since, rfl, hs⟩ := h
  refine ⟨earlier, since ++ [e], by simp, fun f hf => ?_⟩
  rcases List.mem_append.1 hf with hf | hf
  · exact hs f hf
  · rw [List.mem_singleton.1 hf]
    exact he

/-! ### What is cached -/

/-- The cached bytes begin with the header that they are kept under. -/
def Sound (s : StoredManifest φ) : Prop :=
  ∃ header, s.header = some header ∧ Header.decoder.read (s.cached header).bytes = .ok header

/-- What is loaded is sound: the header was read from the front of what was cached. -/
theorem sound_of_load [Flash.Coherent φ] {s t : StoredManifest φ} (h : s.load = (.ok (), t)) :
    t.Sound := by
  obtain ⟨-, header, raw, hh, hraw, hr, hbytes⟩ := load_ok h
  have hle : headerLength ≤ header.length.toNat := by
    have := Header.length_le hr
    omega
  refine ⟨header, hh, Header.read_of_take hr ?_⟩
  rw [readAt_front hle hraw hbytes, List.take_take, Nat.min_self]
  rfl

theorem stage_load (s : StoredManifest φ) : s.load.2.stage ≠ .valid := by
  rcases h : s.load with ⟨e | _, t⟩
  · obtain ⟨-, ht | ht⟩ := load_error h <;> simp [ht]
  · simp [(load_ok h).1]

/-- In a stage with a manifest, the run has loaded it and what is cached is sound. -/
theorem loaded_invariant [Flash.Coherent φ] (flash : φ) (base : UInt32) (caches : Caches)
    (es : List (Event φ η ν)) :
    let s := (init flash base caches).run es
    s.stage = .loaded ∨ s.stage = .valid → LoadedSince es ∧ s.Sound := by
  induction es using List.reverseRecOn with
  | nil => simp [run, init]
  | append_singleton es e ih =>
    intro s hs
    have hrun : s = ((init flash base caches).run es).after e := run_snoc _ es e
    generalize (init flash base caches).run es = t at ih hrun
    cases e with
    | load =>
      refine ⟨⟨es, [], rfl, by simp⟩, ?_⟩
      rcases hl : t.load with ⟨x | _, u⟩
      · have hu : s = u := by rw [hrun, after, hl]
        obtain ⟨-, hx | hx⟩ := load_error hl <;> simp [hu, hx] at hs
      · have hu : s = u := by rw [hrun, after, hl]
        exact hu ▸ sound_of_load hl
    | verify anchor expected e =>
      by_cases ht : t.stage = .loaded
      · obtain ⟨hl, header, hh, hr⟩ := ih (.inl ht)
        refine ⟨hl.snoc trivial, header, ?_⟩
        obtain ⟨r, c, e', -, hv⟩ := verify_loaded ht hh anchor expected e
        rw [hrun, after, hv]
        exact ⟨hh, hr⟩
      · have hu : s = t := by rw [hrun, after, verify_of_ne_loaded ht]
        rw [hu] at hs ⊢
        exact ⟨(ih hs).1.snoc trivial, (ih hs).2⟩
    | reset => simp [hrun, after, reset] at hs
    | flash device =>
      rw [hrun] at hs ⊢
      obtain ⟨hl, hr⟩ := ih hs
      exact ⟨hl.snoc trivial, hr⟩

/-! ### Authentication -/

/-- The key that a manifest with a given header has to be signed with: the root key for a legacy
manifest, and else the key that the flash holds right behind the manifest, for which the anchor has to
vouch. -/
def SignedBy (s : StoredManifest φ) (anchor : Anchor) (header : Header) (key : PublicKey) : Prop :=
  match header.format with
  | .legacy => anchor = .rootKey key
  | .v2 => (∃ n blob, s.readAt header.length.toNat n = .ok blob ∧ PublicKey.ofBlob blob = .ok key) ∧
      anchor.Vouches key

theorem signedBy_of_demands {s : StoredManifest φ} {anchor : Anchor} {header : Header}
    {stored : Option PublicKey} {key : PublicKey} (hk : s.KeyBehind header stored)
    (hd : anchor.Demands stored key) : s.SignedBy anchor header key := by
  unfold KeyBehind at hk
  unfold SignedBy
  cases hf : header.format with
  | legacy =>
    rw [hf] at hk
    obtain rfl : stored = none := hk
    exact hd
  | v2 =>
    rw [hf] at hk
    obtain ⟨k, n, blob, rfl, hn, hb⟩ := hk
    obtain ⟨rfl, hv⟩ := hd
    exact ⟨⟨n, blob, hn, hb⟩, hv⟩

/-- The question whether what is cached is signed with a key: the cached bytes behind the signed extent
as the signature, and the SHA-256 digest of the signed extent as the message. -/
def question (s : StoredManifest φ) (header : Header) (key : PublicKey) : Question :=
  ⟨key, (s.cached header).signature, Hash.Algorithm.sha256.digest (s.cached header).signed⟩

/-- What stands behind a valid manifest `s`: the verification of `t`, when the same bytes were cached. -/
structure Authenticated (t : StoredManifest φ) (anchor : Anchor) (expected : Option Bytes)
    (engines : Engines η (Transcript ν)) (s : StoredManifest φ) (header : Header) (key : PublicKey) :
    Prop where
  header_eq : s.header = some header
  cached_eq : s.caches.manifest = t.caches.manifest
  sound : Header.decoder.read (s.cached header).bytes = .ok header
  /-- The verification succeeded, and asked its verifier this question and no other. -/
  verified : ∃ u engines', t.verify anchor expected engines = (.ok (), u, engines') ∧
    engines'.signature.asked = engines.signature.asked ++ [s.question header key]
  answered : (Verifier.verify (s.question header key) engines.signature.verifier).1 = .ok ()
  signedBy : t.SignedBy anchor header key
  parsed : ∃ m, Manifest.parse (s.cached header).bytes = .ok m

/-- A loaded manifest that becomes valid is authenticated by the verification that made it so. -/
theorem authenticated_of_verify [Hash.Lawful η] {t : StoredManifest φ} {anchor : Anchor}
    {expected : Option Bytes} {engines : Engines η (Transcript ν)} (hl : t.stage = .loaded)
    (hs : t.Sound) (hv : (t.verify anchor expected engines).2.1.stage = .valid) :
    ∃ header key,
      Authenticated t anchor expected engines (t.verify anchor expected engines).2.1 header key := by
  obtain ⟨header, hh, hr⟩ := hs
  obtain ⟨r, c, engines', hj, hr'⟩ := verify_loaded hl hh anchor expected engines
  rw [hr'] at hv
  cases r with
  | error x => simp [Except.isOk, Except.toBool] at hv
  | ok _ =>
    obtain ⟨stored, key, hstored, hdemands, -, hasked, hparsed⟩ := judge_ok hj
    obtain ⟨hanswer, ht⟩ := Prod.mk.inj hasked
    refine ⟨header, key, ?_⟩
    rw [hr']
    refine ⟨hh, rfl, hr, ⟨_, engines', hr', ?_⟩, hanswer, ?_, hparsed⟩
    · rw [← ht]
      rfl
    · exact signedBy_of_demands (storedKey_ok (Prod.ext hstored rfl)) hdemands

/-- An event that keeps the cached manifest leaves a valid one as it is, but for the flash. -/
theorem after_keeps {s : StoredManifest φ} {e : Event φ η ν} (hs : s.stage = .valid) (he : e.Keeps) :
    (s.after e).stage = .valid ∧ (s.after e).header = s.header ∧ (s.after e).caches = s.caches := by
  cases e with
  | load => exact he.elim
  | reset => exact he.elim
  | flash device => exact ⟨hs, rfl, rfl⟩
  | verify anchor expected engines =>
    rw [after, verify_of_ne_loaded (by simp [hs])]
    exact ⟨hs, rfl, rfl⟩

theorem run_keeps {s : StoredManifest φ} {es : List (Event φ η ν)} (hs : s.stage = .valid)
    (he : ∀ e ∈ es, e.Keeps) :
    (s.run es).stage = .valid ∧ (s.run es).header = s.header ∧ (s.run es).caches = s.caches := by
  induction es generalizing s with
  | nil => exact ⟨hs, rfl, rfl⟩
  | cons e es ih =>
    obtain ⟨h₁, h₂, h₃⟩ := after_keeps hs (he e List.mem_cons_self)
    obtain ⟨h₄, h₅, h₆⟩ := ih h₁ fun f hf => he f (List.mem_cons_of_mem e hf)
    exact ⟨h₄, h₅.trans h₂, h₆.trans h₃⟩

theorem Authenticated.congr {t s u : StoredManifest φ} {anchor : Anchor} {expected : Option Bytes}
    {engines : Engines η (Transcript ν)} {header : Header} {key : PublicKey}
    (h : Authenticated t anchor expected engines s header key) (hh : u.header = s.header)
    (hc : u.caches = s.caches) : Authenticated t anchor expected engines u header key := by
  have hm : u.caches.manifest = s.caches.manifest := congrArg Caches.manifest hc
  have he : u.cached header = s.cached header := by
    unfold cached
    rw [hm]
  have hq : u.question header key = s.question header key := by
    unfold question
    rw [he]
  exact ⟨hh.trans h.header_eq, hm.trans h.cached_eq, he ▸ h.sound, hq ▸ h.verified, hq ▸ h.answered,
    h.signedBy, he ▸ h.parsed⟩

/-- Some verification of a run authenticated what is cached at its end: it came after the last load, and
what follows it kept the cached manifest. -/
def AuthenticatedBy (s : StoredManifest φ) (es : List (Event φ η ν)) (header : Header)
    (key : PublicKey) : Prop :=
  ∃ before anchor expected engines later, es = before ++ .verify anchor expected engines :: later ∧
    LoadedSince before ∧ (∀ e ∈ later, e.Keeps) ∧
    Authenticated (s.run before) anchor expected engines (s.run es) header key

theorem AuthenticatedBy.snoc {s : StoredManifest φ} {es : List (Event φ η ν)} {e : Event φ η ν}
    {header : Header} {key : PublicKey} (h : s.AuthenticatedBy es header key)
    (hv : (s.run es).stage = .valid) (he : e.Keeps) : s.AuthenticatedBy (es ++ [e]) header key := by
  obtain ⟨before, anchor, expected, engines, later, hes, hl, hk, ha⟩ := h
  obtain ⟨-, hh, hc⟩ := after_keeps hv he
  refine ⟨before, anchor, expected, engines, later ++ [e], ?_, hl, ?_, ?_⟩
  · rw [hes, List.append_assoc, List.cons_append]
  · intro f hf
    rcases List.mem_append.1 hf with hf | hf
    · exact hk f hf
    · rw [List.mem_singleton.1 hf]
      exact he
  · rw [run_snoc]
    exact ha.congr hh hc

/-- The invariant of valid manifests. -/
theorem authenticated_invariant [Flash.Coherent φ] [Hash.Lawful η] (flash : φ) (base : UInt32)
    (caches : Caches) (es : List (Event φ η ν))
    (h : ((init flash base caches).run es).stage = .valid) :
    ∃ header key, (init flash base caches).AuthenticatedBy es header key := by
  induction es using List.reverseRecOn with
  | nil => cases h
  | append_singleton es e ih =>
    have hstep := h
    rw [run_snoc] at hstep
    cases e with
    | load => exact absurd hstep (stage_load _)
    | reset => cases hstep
    | flash device =>
      obtain ⟨header, key, ha⟩ := ih hstep
      exact ⟨header, key, ha.snoc hstep trivial⟩
    | verify anchor expected engines =>
      -- only a loaded manifest is verified; one that is valid stays as it was authenticated before
      by_cases hs : ((init flash base caches).run es).stage = .loaded
      · obtain ⟨hl, hsound⟩ := loaded_invariant flash base caches es (.inl hs)
        obtain ⟨header, key, ha⟩ := authenticated_of_verify hs hsound hstep
        refine ⟨header, key, es, anchor, expected, engines, [], rfl, hl, by simp, ?_⟩
        rw [run_snoc]
        exact ha
      · rw [after, verify_of_ne_loaded hs] at hstep
        obtain ⟨header, key, ha⟩ := ih hstep
        exact ⟨header, key, ha.snoc hstep trivial⟩

/-! ### Answers -/

/-- Every query about the contents answers from an envelope: the manifest is the one that the envelope's
bytes say, and all of it but the envelope itself is a function of the signed extent. -/
structure AnswersFrom (s : StoredManifest φ) (e : Envelope) : Prop where
  valid : s.stage = .valid
  parsed : ∃ m, Manifest.parse e.bytes = .ok m ∧ s.manifest = .ok m
  manifest_eq : s.manifest = (ofSigned e.signed).map fun m => { m with envelope := e }
  isEmpty_eq : s.isEmpty = (ofSigned e.signed).map Manifest.isEmpty
  firmware_eq : s.firmware = (ofSigned e.signed).map Manifest.firmware
  supportedVersions_eq : ∀ id,
    s.supportedVersions id = (ofSigned e.signed).bind fun m => m.supportedVersions id
  rwRegions_eq : ∀ id version,
    s.rwRegions id version = (ofSigned e.signed).bind fun m => m.rwRegions id version
  images_eq : ∀ id version,
    s.images id version = (ofSigned e.signed).bind fun m => m.images id version

omit [Flash φ] in
/-- A valid manifest answers from its cached bytes, if these parse under the header that they are kept
under. -/
theorem answersFrom_cached {s : StoredManifest φ} {header : Header} (hs : s.stage = .valid)
    (hh : s.header = some header) (hr : Header.decoder.read (s.cached header).bytes = .ok header)
    (hp : ∃ m, Manifest.parse (s.cached header).bytes = .ok m) :
    s.AnswersFrom (s.cached header) := by
  obtain ⟨m, hm⟩ := hp
  obtain ⟨hheader, -, hbytes, -⟩ := parse_eq_ok.1 hm
  have henv : m.envelope = s.cached header := by
    have : m.envelope.header = header := Except.ok.inj (hheader.symm.trans hr)
    calc m.envelope = ⟨m.envelope.header, m.envelope.bytes⟩ := rfl
      _ = s.cached header := by rw [this, hbytes]; rfl
  have hmanifest : s.manifest = .ok m := by
    unfold manifest
    rw [hs, hh]
    exact hm
  have hsigned : ofSigned (s.cached header).signed =
      .ok { m with envelope := ⟨header, (s.cached header).signed⟩ } := by
    have := ofSigned_of_parse hm
    rw [henv] at this
    exact this
  refine ⟨hs, ⟨m, hm, hmanifest⟩, ?_, ?_, ?_, fun id => ?_, fun id v => ?_, fun id v => ?_⟩
  · rw [hmanifest, hsigned, ← henv]
    rfl
  · rw [isEmpty, hmanifest, hsigned]
    rfl
  · rw [firmware, hmanifest, hsigned]
    rfl
  · rw [supportedVersions, hmanifest, hsigned]
    rfl
  · rw [rwRegions, hmanifest, hsigned]
    rfl
  · rw [images, hmanifest, hsigned]
    rfl

/-- **Authentication.**  Whenever a run ends in a valid manifest, one verification of the run
authenticated the bytes that are cached, and until the next load or reset every answer comes from
these bytes, whatever happens to the flash. -/
theorem valid_authenticated [Flash.Coherent φ] [Hash.Lawful η] (flash : φ) (base : UInt32)
    (caches : Caches) (es : List (Event φ η ν))
    (h : ((init flash base caches).run es).stage = .valid) :
    ∃ header key, (init flash base caches).AuthenticatedBy es header key ∧
      ∀ future : List (Event φ η ν), (∀ e ∈ future, e.Keeps) →
        ((init flash base caches).run (es ++ future)).AnswersFrom
          (((init flash base caches).run es).cached header) := by
  obtain ⟨header, key, hby⟩ := authenticated_invariant flash base caches es h
  refine ⟨header, key, hby, fun future hf => ?_⟩
  obtain ⟨_, _, _, _, _, _, _, _, ha⟩ := hby
  rw [run_append]
  generalize (init flash base caches).run es = s at h ha ⊢
  obtain ⟨hv, hh, hc⟩ := run_keeps h hf
  have hcached : (s.run future).cached header = s.cached header := by
    unfold cached
    rw [hc]
  rw [← hcached]
  exact answersFrom_cached hv (hh.trans ha.header_eq) (hcached ▸ ha.sound) (hcached ▸ ha.parsed)

/-! ### A run -/

/-- A legacy manifest for the platform `A` that authorises nothing, with zeros for a signature. -/
def idleManifest : Bytes :=
  [0x14, 0x01, 0x4d, 0x50, 0, 0, 0, 0, 0x00, 0x01, 0, 0] ++ [1, 0, 0x41, 0, 0, 0, 0, 0] ++
    Bytes.zeros 256

def idleKey : PublicKey := ⟨Bytes.zeros 256, [3], by decide +kernel, by decide⟩

/-- Loads a manifest, verifies it with a verifier that says yes to everything, and then loses the
flash. -/
def idleRun : List (Event Flash.Ram Hash.SoftEngine (Forced Rsa.SoftVerifier)) :=
  [.load, .verify (.rootKey idleKey) none ⟨.idle, ⟨⟨⟨⟩, some (.ok ())⟩, []⟩⟩, .flash ⟨#[]⟩]

/-- The manifest in flash, with just enough room for its parts. -/
def idleStored : StoredManifest Flash.Ram :=
  init ⟨idleManifest.toArray⟩ 0 ⟨Bytes.zeros 276, Bytes.zeros 2, Bytes.zeros 256, []⟩

theorem idleRun_authenticated :
    (idleStored.run idleRun).stage = .valid ∧
    ∃ header key, idleStored.AuthenticatedBy idleRun header key ∧
      ∀ future, (∀ e ∈ future, Event.Keeps e) →
        (idleStored.run (idleRun ++ future)).AnswersFrom
          ((idleStored.run idleRun).cached header) := by
  have hv : (idleStored.run idleRun).stage = .valid := by decide +kernel
  exact ⟨hv, valid_authenticated _ _ _ idleRun hv⟩

end PlatformGuard.StoredManifest
