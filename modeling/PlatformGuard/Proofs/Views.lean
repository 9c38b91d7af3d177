import PlatformGuard.Proofs.Reencoding
import PlatformGuard.Proofs.Walks

/-!
# What views show

The readers of views simulate the readers of the records that are copied at once, from the regions of an
image up to a manifest.  A view that was accepted therefore shows the manifest: its lists can be gone
through without a failure, and what it finds is what is found in the draft of the manifest.
-/

namespace PlatformGuard.Manifest

open Decoder

/-! ### Lookups in records -/

theorem Firmware.findVersion_eq (f : Firmware) (version : Bytes) :
    f.findVersion version = lookup (fun v => v.version == version) .unknownVersion f.versions := by
  rw [Firmware.findVersion, lookup]
  cases f.versions.find? _ <;> rfl

theorem findFirmware_v2 {envelope : Envelope} {platformId : Bytes} {blank : UInt8} {firmware : List Firmware}
    {rules : List SmbusRule} (id : Bytes) :
    findFirmware ⟨envelope, platformId, .v2 blank firmware rules⟩ (some id) =
      lookup (fun f => f.id == some id) .unknownFirmware firmware := by
  rw [lookup]
  cases h : firmware.find? fun f => f.id == some id <;> simp only [findFirmware, h]

namespace View

/-! ### Records that are kept as they are -/

theorem isDelimited_rwRegion : RwRegion.decoder.IsDelimited :=
  isDelimited_u8.bind fun _ => (isDelimited_skip 3).bind fun _ => isDelimited_le32.bind fun _ =>
    isDelimited_le32.bind fun _ => (isDelimited_require _ _).bind fun _ =>
      (isDelimited_some? _ _).bind fun _ => (isDelimited_some? _ _).bind fun _ => isDelimited_pure _

theorem isDelimited_smbusRule : SmbusRule.decoder.IsDelimited :=
  isDelimited_u8.bind fun _ => (isDelimited_skip 4).bind fun _ => isDelimited_u8.bind fun _ =>
    isDelimited_u8.bind fun _ => isDelimited_u8.bind fun _ => (isDelimited_take 32).bind fun _ =>
      (isDelimited_require _ _).bind fun _ => (isDelimited_require _ _).bind fun _ => isDelimited_pure _

/-! ### Images -/

/-- The view says of an image what the record says. -/
structure Image.Shows (i : Image) (a : Manifest.Image) : Prop where
  algorithm : i.algorithm = a.algorithm
  validateOnBoot : i.validateOnBoot = a.validateOnBoot
  check : i.check = a.check
  signed : i.isSigned = a.isSigned
  regions : i.regions.Shows Eq a.regions

def Image.Complete (i : Image) : Prop := i.regions.Complete fun _ => True

theorem Image.Shows.complete {i : Image} {a : Manifest.Image} (h : i.Shows a) : i.Complete :=
  h.regions.complete fun _ _ _ => trivial

theorem Image.Shows.draft {i : Image} {a : Manifest.Image} (h : i.Shows a) :
    i.draft = .ok (Draft.Image.ofRecord a) := by
  have hregions := h.regions.collect (f := fun r => .ok (Draft.Bounds.ofRegion r)) fun r _ hr => by rw [hr]
  rw [Image.draft, hregions, h.algorithm, h.validateOnBoot, h.check, Draft.Image.ofRecord]
  cases a.check <;> rfl

/-- Regions that are read again for their check are those that are checked as they are read. -/
theorem agree_readRegions (n : Nat) (seen : List Region) (s : Bytes) :
    Agree (fun _ regions => readings n s = regions.map .ok)
      (apart Region.overlaps .overlappingRegions seen (readings n s))
      ((Manifest.Image.readRegions n seen).read s) := by
  induction n generalizing seen s with
  | zero => exact .ok rfl
  | succ n ih =>
    have hdecoder : (Record.decoder : Decoder Error Region) = Manifest.Image.readRegion := rfl
    rw [readings, hdecoder, read_eq_on, Manifest.Image.readRegions, on_bind]
    rcases Manifest.Image.readRegion.on s with ⟨e | region, rest⟩
    · exact .error e
    · simp only [on_bind, ← List.not_any_eq_all_not]
      change Agree _ (if seen.any (fun r => r.overlaps region) then throw _ else
        apart _ _ (seen ++ [region]) (readings n rest)) _
      cases seen.any fun r => r.overlaps region with
      | true => exact .error _
      | false =>
        have hrest := ih (seen ++ [region]) rest
        have hpass : (require (!false) Error.overlappingRegions).on rest = (.ok (), rest) := rfl
        rw [read_eq_on] at hrest
        simp only [hpass, Bool.false_eq_true, if_false]
        generalize apart Region.overlaps _ _ _ = x, (Manifest.Image.readRegions n _).on rest = y at hrest ⊢
        obtain ⟨y, left⟩ := y
        cases hrest with
        | ok h => exact .ok (congrArg (Except.ok region :: ·) h)
        | error e => exact .error e

theorem isDelimited_readSignature : Manifest.Image.readSignature.IsDelimited :=
  (isDelimited_take _).bind fun _ => (isDelimited_take _).bind fun _ => (isDelimited_lift _).bind fun _ =>
    (isDelimited_require _ _).bind fun _ => isDelimited_pure _

theorem Image.isDelimited_decoder : Image.decoder.IsDelimited := by
  refine isDelimited_u8.bind fun _ => isDelimited_u8.bind fun _ => isDelimited_u8.bind fun _ =>
    isDelimited_u8.bind fun _ => ?_
  refine (isDelimited_some? _ _).bind fun _ => (isDelimited_require _ _).bind fun _ =>
    (isDelimited_require _ _).bind fun _ => ?_
  rw [ite_bind]
  refine IsDelimited.bind ?_ fun _ => (isDelimited_take _).bind fun _ => (isDelimited_lift _).bind fun _ =>
    isDelimited_pure _
  split
  · exact isDelimited_readSignature
  · exact (isDelimited_take _).map _

/-- The flags of an image say how it is checked. -/
theorem ensures_check {signed : Bool} {n : Nat} :
    Ensures (if signed then Manifest.Image.readSignature else ImageCheck.hash <$> take n)
      fun check => ∀ a : Manifest.Image, a.check = check → a.isSigned = signed := by
  intro s check rest h
  cases signed with
  | true =>
    rw [if_pos rfl] at h
    obtain ⟨signature, s₁, -, h⟩ := on_bind_ok.1 h
    obtain ⟨field, s₂, -, h⟩ := on_bind_ok.1 h
    obtain ⟨key, s₃, -, h⟩ := on_bind_ok.1 h
    obtain ⟨_, s₄, -, h⟩ := on_bind_ok.1 h
    cases h
    intro a ha
    rw [Manifest.Image.isSigned, ha]
  | false =>
    rw [if_neg Bool.false_ne_true] at h
    obtain ⟨digest, -, rfl⟩ := on_map_ok.1 h
    intro a ha
    rw [Manifest.Image.isSigned, ha]

theorem Image.simulates : Simulates Image.Shows Image.decoder Manifest.Image.decoder := by
  unfold Image.decoder Manifest.Image.decoder
  refine .bind_left fun hashType => .bind_left fun count => .bind_left fun flags => .bind_left fun _ => ?_
  refine .bind_left fun algorithm => .bind_left fun _ => .bind_left fun _ => ?_
  rw [ite_bind, ite_bind]
  refine ensures_check.simulates.bind fun check _ h => ?_
  obtain ⟨rfl, hcheck⟩ := h
  refine .bind_left fun block => ?_
  rw [checkApart_eq]
  refine (simulates_lift (agree_readRegions count.toNat [] block)).bind fun _ regions hregions => ?_
  exact simulates_pure
    { algorithm := rfl
      validateOnBoot := rfl
      check := rfl
      signed := (hcheck _ rfl).symm
      regions := ⟨regions, hregions, List.forall₂_same.2 fun _ _ => rfl⟩ }

/-! ### Versions -/

/-- The view says of a version what the record says. -/
structure Version.Shows (v : Version) (a : Manifest.Version) : Prop where
  address : v.address = a.address
  version : v.version = a.version
  signed : v.hasSigned = a.hasSigned
  rwRegions : v.rwRegions.Shows Eq a.rwRegions
  images : v.images.Shows Image.Shows a.images

def Version.Complete (v : Version) : Prop :=
  (v.rwRegions.Complete fun _ => True) ∧ v.images.Complete Image.Complete

theorem Version.Shows.complete {v : Version} {a : Manifest.Version} (h : v.Shows a) : v.Complete :=
  ⟨h.rwRegions.complete fun _ _ _ => trivial, h.images.complete fun _ _ => Image.Shows.complete⟩

theorem Version.Shows.draft {v : Version} {a : Manifest.Version} (h : v.Shows a) :
    v.draft = .ok (Draft.Version.ofRecord a) := by
  have hrw := h.rwRegions.collect (f := fun r => .ok (Draft.RwRegion.ofRecord r)) fun r _ hr => by rw [hr]
  rw [Version.draft, hrw, h.images.collect fun _ _ => Image.Shows.draft, h.version, h.address]
  rfl

theorem Version.isDelimited_decoder : Version.decoder.IsDelimited := by
  refine isDelimited_u8.bind fun _ => isDelimited_u8.bind fun _ => isDelimited_u8.bind fun _ =>
    isDelimited_u8.bind fun _ => ?_
  refine (isDelimited_require _ _).bind fun _ => isDelimited_le32.bind fun _ =>
    (isDelimited_take _).bind fun _ => (isDelimited_skip _).bind fun _ => ?_
  exact (isDelimited_walk isDelimited_rwRegion).bind fun _ =>
    (isDelimited_walk Image.isDelimited_decoder).bind fun _ => isDelimited_pure _

theorem any_of_forall₂ {α β : Type} {R : β → α → Prop} {p : β → Bool} {q : α → Bool} {bs : List β}
    {as : List α} (h : List.Forall₂ R bs as) (hp : ∀ b a, R b a → p b = q a) : bs.any p = as.any q := by
  induction h with
  | nil => rfl
  | cons hb _ ih => rw [List.any_cons, List.any_cons, hp _ _ hb, ih]

theorem Version.simulates : Simulates Version.Shows Version.decoder Manifest.Version.decoder := by
  unfold Version.decoder Manifest.Version.decoder
  refine .bind_left fun imageCount => .bind_left fun rwCount => .bind_left fun length => .bind_left fun _ => ?_
  refine .bind_left fun _ => .bind_left fun address => .bind_left fun version => .bind_left fun _ => ?_
  refine (simulates_walk isDelimited_rwRegion (simulates_unchecked (simulates_self RwRegion.decoder)) _).bind
    fun rw rwRegions hrw => ?_
  refine (simulates_walk Image.isDelimited_decoder (simulates_unchecked Image.simulates) _).bind
    fun walked images himages => ?_
  exact simulates_pure
    { address := rfl
      version := rfl
      signed := any_of_forall₂ himages.1 fun _ _ => Image.Shows.signed
      rwRegions := hrw.2
      images := himages.2 }

/-! ### Firmware -/

/-- The view says of a firmware component what the record says, and its id is the text of the draft. -/
structure Firmware.Shows (f : Firmware) (a : Manifest.Firmware) : Prop where
  id : f.id = a.id
  text : (Draft.Firmware.ofRecord a).id.map Bytes.ofText = a.id
  flags : f.flags = a.flags
  versions : f.versions.Shows Version.Shows a.versions

def Firmware.Complete (f : Firmware) : Prop := f.versions.Complete Version.Complete

theorem Firmware.Shows.complete {f : Firmware} {a : Manifest.Firmware} (h : f.Shows a) : f.Complete :=
  h.versions.complete fun _ _ => Version.Shows.complete

theorem Firmware.Shows.draft {f : Firmware} {a : Manifest.Firmware} (h : f.Shows a) :
    f.draft = .ok (Draft.Firmware.ofRecord a) := by
  rw [Firmware.draft, h.versions.collect fun _ _ => Version.Shows.draft, h.id, h.flags]
  rfl

/-- The first version with a name is that of the record. -/
theorem Firmware.Shows.findVersion {f : Firmware} {a : Manifest.Firmware} (h : f.Shows a) (version : Bytes) :
    Agree Version.Shows (f.findVersion version) (a.findVersion version) := by
  have hname : ∀ (v : Version) (b : Manifest.Version), v.Shows b →
      (v.version == version) = (b.version == version) := fun v b hv => by rw [hv.version]
  rw [Manifest.Firmware.findVersion_eq]
  exact h.versions.firstWhere hname

theorem isDelimited_readId (n : Nat) : IsDelimited (readId n) :=
  (isDelimited_take n).bind fun _ => (isDelimited_require _ _).bind fun _ => isDelimited_pure _

theorem ensures_readId (n : Nat) :
    Ensures (readId n) fun id => Bytes.ofText (Draft.textOfPrintable id) = id := by
  intro s id rest h
  obtain ⟨-, hid, -⟩ := readId_ok h
  exact Bytes.ofText_map (Draft.isId_iff.1 hid).2

theorem Firmware.isDelimited_decoder : Firmware.decoder.IsDelimited := by
  refine isDelimited_u8.bind fun _ => isDelimited_u8.bind fun _ => isDelimited_u8.bind fun _ =>
    isDelimited_u8.bind fun _ => ?_
  refine (isDelimited_readId _).bind fun _ => (isDelimited_skip _).bind fun _ => ?_
  exact (isDelimited_walk Version.isDelimited_decoder).bind fun _ => (isDelimited_require _ _).bind fun _ =>
    isDelimited_pure _

theorem Firmware.simulates : Simulates Firmware.Shows Firmware.decoder Manifest.Firmware.decoder := by
  unfold Firmware.decoder Manifest.Firmware.decoder
  refine .bind_left fun count => .bind_left fun length => .bind_left fun flags => .bind_left fun _ => ?_
  refine (ensures_readId _).simulates.bind fun id _ h => ?_
  obtain ⟨rfl, hid⟩ := h
  refine .bind_left fun _ => ?_
  refine (simulates_walk Version.isDelimited_decoder (simulates_unchecked Version.simulates) _).bind
    fun walked versions hversions => ?_
  have hsigned := any_of_forall₂ hversions.1 fun _ _ => Version.Shows.signed
  simp only [hsigned]
  refine .bind_left fun _ => simulates_pure ?_
  exact
    { id := rfl
      text := congrArg some hid
      flags := rfl
      versions := hversions.2 }

/-! ### Bodies -/

/-- The view says of a body what the record says. -/
inductive Body.Shows : Body → Manifest.Body → Prop
  | legacy {count : UInt8} {bytes : Bytes} {versions : List Manifest.Version}
      (h : (⟨bytes, count.toNat⟩ : Records Version).Shows Version.Shows versions) :
      Shows (.legacy count bytes) (.legacy versions)
  | v2 {blank firmwareCount ruleCount : UInt8} {firmwareBytes ruleBytes : Bytes}
      {firmware : List Manifest.Firmware} {rules : List SmbusRule}
      (hf : (⟨firmwareBytes, firmwareCount.toNat⟩ : Records Firmware).Shows Firmware.Shows firmware)
      (hr : (⟨ruleBytes, ruleCount.toNat⟩ : Records SmbusRule).Shows Eq rules) :
      Shows (.v2 blank firmwareCount firmwareBytes ruleCount ruleBytes) (.v2 blank firmware rules)

theorem simulates_unsigned : Simulates Version.Shows (readChecked Body.checkUnsigned)
    (Manifest.Version.decoder >>= fun v => require (!v.hasSigned) .signedImageInLegacy >>= fun _ => pure v) := by
  refine Version.simulates.bind fun v a h => ?_
  have hcheck : lift (Body.checkUnsigned v) = require (!a.hasSigned) Error.signedImageInLegacy := by
    rw [Body.checkUnsigned, h.signed]
    cases a.hasSigned <;> rfl
  rw [hcheck]
  exact .bind_left fun _ => simulates_pure h

/-- Ids are apart if none is there twice. -/
theorem apart_ids (seen fs : List Firmware) (hseen : (seen.map Firmware.id).Nodup) :
    apart (fun f g => f.id == g.id) .badId seen (fs.map .ok) =
      if ((seen ++ fs).map Firmware.id).Nodup then .ok () else .error .badId := by
  induction fs generalizing seen with
  | nil => rw [List.append_nil, if_pos hseen]; rfl
  | cons f fs ih =>
    change (if seen.any (fun g => g.id == f.id) then throw _ else apart _ _ (seen ++ [f]) (fs.map .ok)) = _
    have happend : seen ++ f :: fs = seen ++ [f] ++ fs := by rw [List.append_assoc]; rfl
    have hany : seen.any (fun g => g.id == f.id) = decide (f.id ∈ seen.map Firmware.id) := by
      rw [Bool.eq_iff_iff, List.any_eq_true, decide_eq_true_iff, List.mem_map]
      simp
    have hnodup : ((seen ++ [f]).map Firmware.id).Nodup ↔ f.id ∉ seen.map Firmware.id := by
      rw [List.map_append, List.nodup_append]
      simp [hseen]
    rw [hany, happend]
    by_cases hf : f.id ∈ seen.map Firmware.id
    · have hrepeated : ¬ ((seen ++ [f] ++ fs).map Firmware.id).Nodup := by
        rw [List.map_append]
        exact fun h => hnodup.1 (List.nodup_append.1 h).1 hf
      rw [if_pos (decide_eq_true hf), if_neg hrepeated]
      rfl
    · rw [if_neg (by simpa using hf)]
      exact ih (seen ++ [f]) (hnodup.2 hf)

/-- The ids of a list that is gone through again are checked like those of the list itself. -/
theorem simulates_distinct {r : Records Firmware} {firmware : List Manifest.Firmware}
    (h : r.Shows Firmware.Shows firmware) :
    Simulates (fun _ _ => True) (lift (r.checkApart (fun f g => f.id == g.id) .badId))
      (require (distinctIds firmware) Error.badId) := by
  obtain ⟨fs, hitems, hfs⟩ := h
  have hids : fs.map Firmware.id = firmware.map Manifest.Firmware.id := by
    clear hitems
    induction hfs with
    | nil => rfl
    | cons hf _ ih => rw [List.map_cons, List.map_cons, hf.id, ih]
  rw [checkApart_eq, hitems, apart_ids [] fs List.nodup_nil, List.nil_append, hids]
  cases hd : distinctIds firmware with
  | true =>
    rw [if_pos (Draft.distinctIds_iff.1 hd)]
    exact fun _ => ⟨.ok trivial, rfl⟩
  | false =>
    rw [if_neg fun h => Bool.false_ne_true (hd.symm.trans (Draft.distinctIds_iff.2 h))]
    exact fun _ => ⟨.error _, rfl⟩

theorem Body.simulates (format : Format) :
    Simulates Body.Shows (Body.decoder format) (Manifest.Body.decoder format) := by
  cases format with
  | legacy =>
    change Simulates _ Body.readLegacy Manifest.Body.readLegacy
    unfold Body.readLegacy Manifest.Body.readLegacy
    refine .bind_left fun count => .bind_left fun _ => ?_
    rw [Draft.readUnsigned_eq]
    refine (simulates_walk Version.isDelimited_decoder simulates_unsigned _).bind fun walked versions h => ?_
    exact simulates_pure (.legacy h.2)
  | v2 =>
    change Simulates _ Body.readV2 Manifest.Body.readV2
    unfold Body.readV2 Manifest.Body.readV2
    refine .bind_left fun blank => .bind_left fun firmwareCount => .bind_left fun _ => ?_
    refine (simulates_walk Firmware.isDelimited_decoder (simulates_unchecked Firmware.simulates) _).bind
      fun walked firmware hf => ?_
    refine (simulates_distinct hf.2).bind fun _ _ _ => ?_
    refine .bind_left fun ruleCount => .bind_left fun _ => ?_
    refine (simulates_walk isDelimited_smbusRule (simulates_unchecked (simulates_self SmbusRule.decoder)) _).bind
      fun walked rules hr => ?_
    exact simulates_pure (.v2 hf.2 hr.2)

/-! ### Manifests -/

theorem simulates_contents (format : Format) :
    Simulates (fun p q => p.1 = q.1 ∧ Body.Shows p.2 q.2) (contents format) (Manifest.contents format) := by
  unfold contents Manifest.contents
  refine .bind_left fun length => .bind_left fun _ => .bind_left fun platformId => .bind_left fun _ => ?_
  exact (Body.simulates format).bind fun body body' h => simulates_pure ⟨rfl, h⟩

end View

/-- The view says of a manifest what the record says. -/
structure View.Shows (v : View) (m : Manifest) : Prop where
  envelope : v.envelope = m.envelope
  platformId : v.platformId = m.platformId
  body : v.body.Shows m.body

/-- Parsing a view is parsing the manifest: both fail for the same reason, or the view shows the manifest. -/
theorem agree_parse (bytes : Bytes) : Agree View.Shows (View.parse bytes) (Manifest.parse bytes) := by
  unfold View.parse Manifest.parse
  cases Envelope.parse bytes with
  | error e => exact .error e
  | ok envelope =>
    obtain ⟨hagree, hleft⟩ := View.simulates_contents envelope.header.format envelope.body
    dsimp only [bind, Except.bind]
    generalize (View.contents envelope.header.format).on envelope.body = x,
      (Manifest.contents envelope.header.format).on envelope.body = y at hagree hleft ⊢
    obtain ⟨x, left⟩ := x
    obtain ⟨y, left'⟩ := y
    obtain rfl : left = left' := hleft
    cases hagree with
    | error e => exact .error e
    | @ok p q h =>
      obtain ⟨hid, hbody⟩ := h
      cases left with
      | nil => exact .ok ⟨rfl, hid, hbody⟩
      | cons b left => exact .error _

namespace View.Shows

variable {v : View} {m : Manifest}

theorem format (h : v.Shows m) : v.format = m.format := by
  obtain ⟨envelope, platformId, body⟩ := v
  obtain ⟨envelope', platformId', body'⟩ := m
  cases h.body <;> rfl

theorem blank (h : v.Shows m) : v.blank = m.blank := by
  obtain ⟨envelope, platformId, body⟩ := v
  obtain ⟨envelope', platformId', body'⟩ := m
  cases h.body <;> rfl

theorem implicit {count : UInt8} {bytes : Bytes} {versions : List Manifest.Version}
    (h : (⟨bytes, count.toNat⟩ : Records Version).Shows Version.Shows versions) :
    (Firmware.implicit count bytes).Shows { id := none, flags := 0, versions } :=
  { id := rfl
    text := rfl
    flags := rfl
    versions := h }

/-- The firmware is there, as much as there should be. -/
theorem firmware (h : v.Shows m) : ∃ fs : List Firmware, v.firmware = fs.map .ok ∧
    fs.length = v.firmwareCount ∧ List.Forall₂ Firmware.Shows fs m.firmware := by
  obtain ⟨envelope, platformId, body⟩ := v
  obtain ⟨envelope', platformId', body'⟩ := m
  cases h.body with
  | legacy hv => exact ⟨[_], rfl, rfl, .cons (implicit hv) .nil⟩
  | v2 hf hr =>
    obtain ⟨fs, hitems, hfs⟩ := hf
    exact ⟨fs, hitems, length_of_readings hitems, hfs⟩

theorem smbusRules (h : v.Shows m) : v.smbusRules.Shows Eq m.smbusRules := by
  obtain ⟨envelope, platformId, body⟩ := v
  obtain ⟨envelope', platformId', body'⟩ := m
  cases h.body with
  | legacy hv => exact ⟨[], rfl, .nil⟩
  | v2 hf hr => exact hr

theorem findFirmware (h : v.Shows m) (id : Option Bytes) :
    Agree Firmware.Shows (v.findFirmware id) (m.findFirmware id) := by
  obtain ⟨envelope, platformId, body⟩ := v
  obtain ⟨envelope', platformId', body'⟩ := m
  cases h.body with
  | legacy hv => exact .ok (implicit hv)
  | v2 hf hr =>
    cases id with
    | none => exact .error _
    | some id =>
      have hid : ∀ (f : Firmware) (a : Manifest.Firmware), f.Shows a →
          (f.id == some id) = (a.id == some id) := fun f a hf => by rw [hf.id]
      rw [findFirmware_v2]
      exact hf.firstWhere hid

theorem findVersion (h : v.Shows m) (id : Option Bytes) (version : Bytes) :
    Agree Version.Shows (v.findVersion id version) (m.findVersion id version) :=
  (h.findFirmware id).bind fun _ _ hf => hf.findVersion version

theorem supportedVersions (h : v.Shows m) (id : Option Bytes) :
    Agree (fun r a => r.Shows Version.Shows a.versions) (v.supportedVersions id) (m.findFirmware id) :=
  (h.findFirmware id).map_left fun _ _ hf => hf.versions

theorem rwRegions (h : v.Shows m) (id : Option Bytes) (version : Bytes) :
    Agree (fun r a => r.Shows Eq a.rwRegions) (v.rwRegions id version) (m.findVersion id version) :=
  (h.findVersion id version).map_left fun _ _ hv => hv.rwRegions

theorem images (h : v.Shows m) (id : Option Bytes) (version : Bytes) :
    Agree (fun r a => r.Shows Image.Shows a.images) (v.images id version) (m.findVersion id version) :=
  (h.findVersion id version).map_left fun _ _ hv => hv.images

theorem draft (h : v.Shows m) : v.draft = .ok (Draft.ofManifest m) := by
  obtain ⟨fs, hitems, -, hfs⟩ := h.firmware
  have hfirmware : (v.firmware.mapM fun item => item >>= Firmware.draft) =
      .ok (m.firmware.map Draft.Firmware.ofRecord) := by
    rw [hitems]
    exact mapM_of_forall₂ hfs fun _ _ => Firmware.Shows.draft
  have hrules := h.smbusRules.collect (f := fun r => .ok (Draft.SmbusRule.ofRecord r)) fun r _ hr => by rw [hr]
  rw [View.draft, hfirmware, hrules, h.format, h.blank, h.platformId, h.envelope]
  rfl

end View.Shows

/-! ### Drafts -/

/-- A manifest that was accepted has a well-formed draft. -/
theorem Draft.wellFormed_ofManifest {bytes : Bytes} {m : Manifest} (h : Manifest.parse bytes = .ok m) :
    (ofManifest m).WellFormed := by
  obtain ⟨-, -, -, hc⟩ := parse_eq_ok.1 h
  obtain ⟨-, -, -, -, -, -, hcontents⟩ := contents_ok hc
  have hlaid : (ofManifest m).LaidOut := by
    obtain ⟨envelope, platformId, body⟩ := m
    cases body with
    | legacy versions => exact fun _ => ⟨_, rfl, rfl, rfl⟩
    | v2 blank firmware rules => exact nofun
  exact (exists_contents? hlaid).1 ⟨_, hcontents⟩

/-- The firmware of a draft with an id; in the legacy format it is the only one, whatever the id. -/
def Draft.findFirmware (d : Draft) (id : Option Bytes) : Except Manifest.Error Draft.Firmware :=
  match d.format, id with
  | .legacy, _ => lookup (fun _ => true) .unknownFirmware d.firmware
  | .v2, none => .error .invalidArgument
  | .v2, some id => lookup (fun f => f.id.map Bytes.ofText == some id) .unknownFirmware d.firmware

/-- The first version with a name of the firmware with an id. -/
def Draft.findVersion (d : Draft) (id : Option Bytes) (version : Bytes) :
    Except Manifest.Error Draft.Version := do
  let f ← d.findFirmware id
  lookup (fun v => v.version == version) .unknownVersion f.versions

section drafts
variable {m : Manifest}

theorem Draft.findFirmware_ofManifest
    (h : ∀ f ∈ m.firmware, (Firmware.ofRecord f).id.map Bytes.ofText = f.id) (id : Option Bytes) :
    (ofManifest m).findFirmware id = (m.findFirmware id).map Firmware.ofRecord := by
  obtain ⟨envelope, platformId, body⟩ := m
  cases body with
  | legacy versions => rfl
  | v2 blank firmware rules =>
    cases id with
    | none => rfl
    | some id =>
      rw [findFirmware_v2]
      exact lookup_map fun f hf => by rw [h f hf]

theorem Draft.findVersion_ofManifest
    (h : ∀ f ∈ m.firmware, (Firmware.ofRecord f).id.map Bytes.ofText = f.id) (id : Option Bytes)
    (version : Bytes) :
    (ofManifest m).findVersion id version = (m.findVersion id version).map Version.ofRecord := by
  rw [Draft.findVersion, Draft.findFirmware_ofManifest h, Manifest.findVersion]
  cases m.findFirmware id with
  | error e => rfl
  | ok f =>
    change lookup _ _ (f.versions.map Version.ofRecord) = (f.findVersion version).map _
    rw [Firmware.findVersion_eq]
    exact lookup_map fun _ _ => rfl

end drafts

/-! ### Views of what was accepted -/

namespace View

/-- Going through the lists of the view, and through those below them, gives as many records as there should
be, and no failure. -/
def Complete (v : View) : Prop :=
  (∃ fs : List Firmware, v.firmware = fs.map .ok ∧ fs.length = v.firmwareCount ∧ ∀ f ∈ fs, f.Complete) ∧
    v.smbusRules.Complete fun _ => True

/-- What the view finds is what is found in the lists of the draft, with the records below it in order. -/
structure Answers (v : View) (d : Draft) : Prop where
  firmware (id : Option Bytes) : (v.findFirmware id).map Firmware.draft = (d.findFirmware id).map .ok
  versions (id : Option Bytes) : (v.supportedVersions id).map (Records.collect Version.draft) =
    (d.findFirmware id).map fun f => .ok f.versions
  version (id : Option Bytes) (name : Bytes) :
    (v.findVersion id name).map Version.draft = (d.findVersion id name).map .ok
  rwRegions (id : Option Bytes) (name : Bytes) :
    (v.rwRegions id name).map (Records.collect fun r => .ok (Draft.RwRegion.ofRecord r)) =
      (d.findVersion id name).map fun x => .ok x.rwRegions
  images (id : Option Bytes) (name : Bytes) :
    (v.images id name).map (Records.collect Image.draft) = (d.findVersion id name).map fun x => .ok x.images

variable {v : View} {m : Manifest}

theorem Shows.complete (h : v.Shows m) : v.Complete := by
  obtain ⟨fs, hitems, hcount, hfs⟩ := h.firmware
  have hall : List.Forall₂ (fun f a => f.Complete ∧ f.Shows a) fs m.firmware :=
    hfs.imp fun _ _ hf => ⟨hf.complete, hf⟩
  exact ⟨⟨fs, hitems, hcount, ((List.forall₂_and_left _ _).1 hall).1⟩,
    h.smbusRules.complete fun _ _ _ => trivial⟩

theorem Shows.text (h : v.Shows m) :
    ∀ a ∈ m.firmware, (Draft.Firmware.ofRecord a).id.map Bytes.ofText = a.id := by
  obtain ⟨fs, -, -, hfs⟩ := h.firmware
  have hall : List.Forall₂ (fun a f => (Draft.Firmware.ofRecord a).id.map Bytes.ofText = a.id ∧ f.Shows a)
      m.firmware fs := hfs.flip.imp fun _ _ hf => ⟨hf.text, hf⟩
  exact ((List.forall₂_and_left _ _).1 hall).1

theorem Shows.answers (h : v.Shows m) : v.Answers (Draft.ofManifest m) where
  firmware id := by
    rw [Draft.findFirmware_ofManifest h.text]
    exact (h.findFirmware id).map_eq fun _ _ => Firmware.Shows.draft
  versions id := by
    rw [Draft.findFirmware_ofManifest h.text]
    exact (h.supportedVersions id).map_eq fun _ _ hv => hv.collect fun _ _ => Version.Shows.draft
  version id name := by
    rw [Draft.findVersion_ofManifest h.text]
    exact (h.findVersion id name).map_eq fun _ _ => Version.Shows.draft
  rwRegions id name := by
    rw [Draft.findVersion_ofManifest h.text]
    exact (h.rwRegions id name).map_eq fun _ _ hr => hr.collect fun _ _ h => by rw [h]
  images id name := by
    rw [Draft.findVersion_ofManifest h.text]
    exact (h.images id name).map_eq fun _ _ hi => hi.collect fun _ _ => Image.Shows.draft

/-- **Views of a manifest that was accepted.**  A view is refused for the reason for which the manifest is
refused.  If it is accepted, going through any of its lists gives as many records as there should be and no
failure; a copy of all its records is the draft of the manifest; and what it finds is what is found in the
lists of this draft, in which the legacy format has one firmware component and no id of the other is there
twice. -/
theorem parse_faithful (bytes : Bytes) :
    (∀ e, View.parse bytes = .error e ↔ Manifest.parse bytes = .error e) ∧
    ∀ v, View.parse bytes = .ok v → ∃ m, Manifest.parse bytes = .ok m ∧
      v.Complete ∧ v.draft = .ok (Draft.ofManifest m) ∧ v.Answers (Draft.ofManifest m) ∧
      (m.format = .legacy → ∃ f, (Draft.ofManifest m).firmware = [f]) ∧
      (m.format = .v2 → ((Draft.ofManifest m).firmware.map Draft.Firmware.id).Nodup) := by
  have hagree := agree_parse bytes
  refine ⟨fun e => ⟨fun he => ?_, fun he => ?_⟩, fun v hv => ?_⟩
  · rw [he] at hagree
    exact Agree.error_iff.1 hagree
  · rw [he] at hagree
    generalize View.parse bytes = x at hagree ⊢
    cases hagree
    rfl
  · rw [hv] at hagree
    obtain ⟨m, hm, h⟩ := Agree.ok_iff.1 hagree
    refine ⟨m, hm, h.complete, h.draft, h.answers, fun hf => ?_, (Draft.wellFormed_ofManifest hm).nodup⟩
    obtain ⟨envelope, platformId, body⟩ := m
    cases body with
    | legacy versions => exact ⟨_, rfl⟩
    | v2 blank firmware rules => cases hf

/-- Two versions of one name, behind a firmware component without versions. -/
def doubled : Bytes :=
  [0x4c, 0x01, 0x6d, 0x70, 7, 0, 0, 0, 0x00, 0x01, 0, 0] ++ [1, 0, 0x41, 0] ++ [0xff, 2, 0, 0] ++
    [0, 1, 0, 0, 0x65, 0, 0, 0] ++ [2, 1, 0, 0, 0x66, 0, 0, 0] ++
    ([0, 1, 1, 0, 1, 0, 0, 0, 0x76, 0, 0, 0] ++ [2, 0, 0, 0, 0x00, 0x40, 0, 0, 0x00, 0x80, 0, 0]) ++
    [0, 0, 1, 0, 2, 0, 0, 0, 0x76, 0, 0, 0] ++ [0, 0, 0, 0] ++ List.replicate 256 0x99

/-- The first of the two versions is found. -/
theorem doubled_views : ∃ v m, View.parse doubled = .ok v ∧ Manifest.parse doubled = .ok m ∧
    v.Complete ∧ v.draft = .ok (Draft.ofManifest m) ∧ v.Answers (Draft.ofManifest m) ∧
    ((v.findVersion (some [0x66]) [0x76]).map Version.address).toOption = some 1 := by
  have hfound : ((View.parse doubled).toOption.bind fun v =>
      ((v.findVersion (some [0x66]) [0x76]).map Version.address).toOption) = some 1 := by decide +kernel
  obtain ⟨v, hv, haddress⟩ := Option.bind_eq_some_iff.1 hfound
  replace hv : View.parse doubled = .ok v := Steps.toOption_eq_some.1 hv
  obtain ⟨m, hm, hcomplete, hdraft, hanswers, -⟩ := (parse_faithful doubled).2 v hv
  exact ⟨v, m, hv, hm, hcomplete, hdraft, hanswers, haddress⟩

end View

end PlatformGuard.Manifest
