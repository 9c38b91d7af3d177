import PlatformGuard.Manifest.Draft
import PlatformGuard.Proofs.Printable
import PlatformGuard.Proofs.Regions
import PlatformGuard.Proofs.Steps
import Mathlib.Data.List.Nodup

/-!
# Drafts that are manifests

`WellFormed` says which drafts a manifest can hold, and `normalise` what is left of a draft in a manifest:
the flag for signed images follows from the images, the fields of the check that an image does not use
are lost, and so is what the legacy format has no place for.

The record of a part is what a reader should make of it.  A well-formed part is one that has a record,
and the draft of the record is the part itself, in normal form.
-/

namespace PlatformGuard.Manifest.Draft

/-! ### Well-formed drafts -/

/-- Printable bytes, and at least one. -/
def IsId (bs : Bytes) : Prop := bs ≠ [] ∧ ∀ b ∈ bs, 0x20 ≤ b ∧ b ≤ 0x7e

/-- Printable characters, and at least one. -/
def IsIdText (s : String) : Prop := s.toList ≠ [] ∧ ∀ c ∈ s.toList, ' ' ≤ c ∧ c ≤ '~'

/-- The key field of a signed image: the blob, and zeros behind it. -/
def Image.keyField (i : Image) : Bytes :=
  i.key ++ Bytes.zeros (PublicKey.imageFieldSize - i.key.length)

structure Image.WellFormed (i : Image) : Prop where
  regions_ne_nil : i.regions ≠ []
  first_lt_last : ∀ b ∈ i.regions, b.first < b.last
  disjoint : i.regions.Pairwise fun a b => a.last ≤ b.first ∨ b.last ≤ a.first
  key : i.isSigned = true → ∃ k, PublicKey.ofBlob i.keyField = .ok k ∧ k.modulus.length = 256

structure Version.WellFormed (v : Version) : Prop where
  version_ne_nil : v.version ≠ []
  rwRegions : ∀ r ∈ v.rwRegions, r.first < r.last
  images : ∀ i ∈ v.images, i.WellFormed

/-- A draft that can be read back from its encoding. -/
structure WellFormed (d : Draft) : Prop where
  platformId : IsId d.platformId
  versions : ∀ f ∈ d.firmware, ∀ v ∈ f.versions, v.WellFormed
  ids : d.format = .v2 → ∀ f ∈ d.firmware, ∃ id, f.id = some id ∧ IsIdText id
  nodup : d.format = .v2 → (d.firmware.map Firmware.id).Nodup
  unsigned : d.format = .legacy →
    ∀ f ∈ d.firmware, ∀ v ∈ f.versions, ∀ i ∈ v.images, i.isSigned = false
  devices : ∀ r ∈ d.rules, r.device % 2 = 0

/-! ### Normal forms -/

/-- An image with one check; a key is the blob of the key that its field says. -/
def Image.normalise (i : Image) : Image :=
  if i.isSigned then
    { i with
      hash := []
      key := match PublicKey.ofBlob i.keyField with
        | .ok k => k.toBlob
        | .error _ => i.key }
  else
    { i with key := [] }

def Version.normalise (v : Version) : Version := { v with images := v.images.map Image.normalise }

/-- What is left of a draft in its manifest. -/
def normalise (d : Draft) : Draft :=
  match d.format with
  | .legacy =>
    { d with
      blank := 0xff
      firmware := d.firmware.map fun f =>
        { f with flags := 0, versions := f.versions.map Version.normalise } }
  | .v2 =>
    { d with
      firmware := d.firmware.map fun f =>
        { f with flags := f.storedFlags, versions := f.versions.map Version.normalise } }

/-! ### The records of a list -/

section lists
variable {α β γ : Type} {p : α → Option β}

theorem mapM_cons_eq_some {a : α} {as : List α} {cs : List β} :
    (a :: as).mapM p = some cs ↔ ∃ b bs, p a = some b ∧ as.mapM p = some bs ∧ cs = b :: bs := by
  simp only [List.mapM_cons, bind, pure, Option.bind_eq_some_iff, Option.some.injEq]
  simp only [exists_and_left, eq_comm]

theorem exists_mapM {as : List α} :
    (∃ bs, as.mapM p = some bs) ↔ ∀ a ∈ as, ∃ b, p a = some b := by
  induction as with
  | nil => simp
  | cons a as ih =>
    rw [List.forall_mem_cons, ← ih]
    constructor
    · rintro ⟨_, h⟩
      obtain ⟨b, bs, hb, hbs, -⟩ := mapM_cons_eq_some.1 h
      exact ⟨⟨b, hb⟩, bs, hbs⟩
    · rintro ⟨⟨b, hb⟩, bs, hbs⟩
      exact ⟨b :: bs, mapM_cons_eq_some.2 ⟨b, bs, hb, hbs, rfl⟩⟩

/-- What can be said of the records one by one can be said of the list of them. -/
theorem map_of_mapM {f : α → γ} {g : β → γ} {as : List α} {bs : List β} (h : as.mapM p = some bs)
    (hp : ∀ a b, p a = some b → g b = f a) : bs.map g = as.map f := by
  induction as generalizing bs with
  | nil =>
    cases h
    rfl
  | cons a as ih =>
    obtain ⟨b, bs, hb, hbs, rfl⟩ := mapM_cons_eq_some.1 h
    rw [List.map_cons, List.map_cons, hp a b hb, ih hbs]

theorem forall_mapM {P : α → Prop} {Q : β → Prop} {as : List α} {bs : List β}
    (h : as.mapM p = some bs) (hp : ∀ a b, p a = some b → (Q b ↔ P a)) :
    (∀ b ∈ bs, Q b) ↔ ∀ a ∈ as, P a := by
  have hmap : bs.map Q = as.map P := map_of_mapM h fun a b hab => propext (hp a b hab)
  have := congrArg (fun l => ∀ x ∈ l, x) hmap
  simpa only [List.forall_mem_map, eq_iff_iff] using this

theorem any_mapM {q : α → Bool} {r : β → Bool} {as : List α} {bs : List β}
    (h : as.mapM p = some bs) (hp : ∀ a b, p a = some b → r b = q a) : bs.any r = as.any q := by
  have hmap := congrArg (fun l => l.any fun x => x) (map_of_mapM h hp)
  simpa only [List.any_map, Function.comp_def] using hmap

theorem pairwise_mapM {R : α → α → Prop} {S : β → β → Prop} {as : List α} {bs : List β}
    (h : as.mapM p = some bs)
    (hp : ∀ a b c d, p a = some c → p b = some d → (S c d ↔ R a b)) :
    bs.Pairwise S ↔ as.Pairwise R := by
  induction as generalizing bs with
  | nil =>
    cases h
    simp
  | cons a as ih =>
    obtain ⟨c, cs, hc, hcs, rfl⟩ := mapM_cons_eq_some.1 h
    rw [List.pairwise_cons, List.pairwise_cons, ih hcs]
    rw [forall_mapM (P := R a) (Q := S c) hcs fun b d hd => hp a b c d hc hd]

end lists

/-! ### Regions -/

/-- What a reader makes of the bounds of a region. -/
def Bounds.record? (b : Bounds) : Option Region := Region.ofBounds? b.first b.last

theorem Bounds.ofRegion_record? {b : Bounds} {r : Region} (h : b.record? = some r) :
    Bounds.ofRegion r = b := by
  obtain ⟨-, rfl⟩ := Region.ofBounds?_eq_some.1 h
  rw [Bounds.ofRegion, Region.add_length]

/-- Regions overlap if neither ends before the other starts. -/
theorem Bounds.overlaps_record? {a b : Bounds} {r s : Region} (hr : a.record? = some r)
    (hs : b.record? = some s) : r.overlaps s = false ↔ a.last ≤ b.first ∨ b.last ≤ a.first := by
  rw [Region.overlaps_eq_false, Region.address_ofBounds? hr, Region.address_ofBounds? hs,
    Region.limit_ofBounds? hr, Region.limit_ofBounds? hs, UInt32.le_iff_toNat_le, UInt32.le_iff_toNat_le]

/-- The regions with the given bounds, unless one of them overlaps another or one of those seen before. -/
def regionsAfter? : (seen : List Region) → List Bounds → Option (List Region)
  | _, [] => some []
  | seen, b :: bs =>
    b.record?.bind fun region =>
      if seen.all fun r => !r.overlaps region then
        (regionsAfter? (seen ++ [region]) bs).map fun regions => region :: regions
      else none

theorem regionsAfter?_eq_some {seen : List Region} {bs : List Bounds} {regions : List Region} :
    regionsAfter? seen bs = some regions ↔
      bs.mapM Bounds.record? = some regions ∧
        (∀ s ∈ seen, ∀ r ∈ regions, s.overlaps r = false) ∧
        regions.Pairwise fun r s => r.overlaps s = false := by
  induction bs generalizing seen regions with
  | nil =>
    rw [regionsAfter?, List.mapM_nil]
    constructor
    · intro h
      cases h
      simp
    · rintro ⟨h, -⟩
      exact h
  | cons b bs ih =>
    rw [regionsAfter?, Option.bind_eq_some_iff, mapM_cons_eq_some]
    constructor
    · rintro ⟨r, hr, h⟩
      split at h
      · rename_i hseen
        obtain ⟨rs, hrs, rfl⟩ := Option.map_eq_some_iff.1 h
        obtain ⟨hm, hafter, hp⟩ := ih.1 hrs
        refine ⟨⟨r, rs, hr, hm, rfl⟩, ?_, ?_⟩
        · intro s hs
          refine List.forall_mem_cons.2 ⟨?_, hafter s (by simp [hs])⟩
          simpa using List.all_eq_true.1 hseen s hs
        · exact List.pairwise_cons.2 ⟨hafter r (by simp), hp⟩
      · cases h
    · rintro ⟨⟨r, rs, hr, hm, rfl⟩, hseen, hp⟩
      obtain ⟨hfirst, hp⟩ := List.pairwise_cons.1 hp
      refine ⟨r, hr, ?_⟩
      rw [if_pos (List.all_eq_true.2 fun s hs => by simp [hseen s hs r List.mem_cons_self])]
      refine Option.map_eq_some_iff.2 ⟨rs, ih.2 ⟨hm, ?_, hp⟩, rfl⟩
      intro s hs
      -- seen before, or just now
      rcases List.mem_append.1 hs with hs | hs
      · exact (List.forall_mem_cons.1 (hseen s hs)).2
      · rw [List.mem_singleton.1 hs]
        exact hfirst

def RwRegion.record? (r : RwRegion) : Option Manifest.RwRegion :=
  (Region.ofBounds? r.first r.last).map fun region =>
    { policy := r.policy, updateOnly := r.updateOnly, region }

theorem RwRegion.record?_eq_some {r : RwRegion} {m : Manifest.RwRegion} :
    r.record? = some m ↔
      r.first < r.last ∧ m = ⟨r.policy, r.updateOnly, r.first, r.last - r.first⟩ := by
  unfold RwRegion.record?
  simp only [Option.map_eq_some_iff, Region.ofBounds?_eq_some]
  constructor
  · rintro ⟨region, ⟨h, rfl⟩, rfl⟩
    exact ⟨h, rfl⟩
  · rintro ⟨h, rfl⟩
    exact ⟨_, ⟨h, rfl⟩, rfl⟩

theorem RwRegion.ofRecord_record? {r : RwRegion} {m : Manifest.RwRegion} (h : r.record? = some m) :
    RwRegion.ofRecord m = r := by
  obtain ⟨-, rfl⟩ := RwRegion.record?_eq_some.1 h
  simp only [RwRegion.ofRecord, Region.add_length]

/-! ### Images -/

/-- What a reader makes of the check of an image. -/
def Image.check? (i : Image) : Option ImageCheck :=
  if i.isSigned then
    (PublicKey.ofBlob i.keyField).toOption.bind fun key =>
      if key.modulus.length == PublicKey.imageSignatureSize then some (.signature i.signature key)
      else none
  else
    some (.hash i.hash)

def Image.regions? (i : Image) : Option (List Region) := regionsAfter? [] i.regions

def Image.record? (i : Image) : Option Manifest.Image :=
  if !i.regions.isEmpty then
    i.check?.bind fun check => i.regions?.map fun regions =>
      { algorithm := i.algorithm, validateOnBoot := i.validateOnBoot, check, regions }
  else none

theorem Image.check?_eq_some {i : Image} {check : ImageCheck} :
    i.check? = some check ↔
      i.isSigned = false ∧ check = .hash i.hash ∨
        ∃ k, i.isSigned = true ∧ PublicKey.ofBlob i.keyField = .ok k ∧ k.modulus.length = 256 ∧
          check = .signature i.signature k := by
  unfold Image.check?
  cases i.isSigned with
  | false => simp [eq_comm]
  | true =>
    rw [if_pos rfl, Option.bind_eq_some_iff]
    constructor
    · rintro ⟨k, hk, h⟩
      split at h
      · rename_i hsize
        cases h
        exact .inr ⟨k, rfl, Steps.toOption_eq_some.1 hk, eq_of_beq hsize, rfl⟩
      · cases h
    · rintro (⟨h, -⟩ | ⟨k, -, hk, hsize, rfl⟩)
      · cases h
      · exact ⟨k, Steps.toOption_eq_some.2 hk, if_pos (beq_iff_eq.2 hsize)⟩

theorem Image.regions?_eq_some {i : Image} {regions : List Region} :
    i.regions? = some regions ↔
      i.regions.mapM Bounds.record? = some regions ∧
        i.regions.Pairwise fun a b => a.last ≤ b.first ∨ b.last ≤ a.first := by
  rw [Image.regions?, regionsAfter?_eq_some]
  refine and_congr_right fun h => ?_
  rw [pairwise_mapM h fun _ _ _ _ => Bounds.overlaps_record?]
  simp

theorem Image.record?_eq_some {i : Image} {m : Manifest.Image} :
    i.record? = some m ↔
      i.regions ≠ [] ∧ i.check? = some m.check ∧ i.regions? = some m.regions ∧
        m.algorithm = i.algorithm ∧ m.validateOnBoot = i.validateOnBoot := by
  unfold Image.record?
  cases hr : i.regions with
  | nil => simp
  | cons b bs =>
    simp only [List.isEmpty_cons, Bool.not_false, if_true, Option.bind_eq_some_iff,
      Option.map_eq_some_iff]
    constructor
    · rintro ⟨check, hc, regions, hrs, rfl⟩
      exact ⟨by simp, hc, hrs, rfl, rfl⟩
    · rintro ⟨-, hc, hrs, ha, hv⟩
      refine ⟨_, hc, _, hrs, ?_⟩
      rw [← ha, ← hv]

theorem Image.exists_record? {i : Image} : (∃ m, i.record? = some m) ↔ i.WellFormed := by
  constructor
  · rintro ⟨m, h⟩
    obtain ⟨hne, hc, hr, -, -⟩ := Image.record?_eq_some.1 h
    obtain ⟨hb, hd⟩ := Image.regions?_eq_some.1 hr
    refine ⟨hne, fun b hmem => ?_, hd, fun hs => ?_⟩
    · obtain ⟨r, hr⟩ := exists_mapM.1 ⟨_, hb⟩ b hmem
      exact (Region.ofBounds?_eq_some.1 hr).1
    · rcases Image.check?_eq_some.1 hc with ⟨hns, -⟩ | ⟨k, -, hk, hsize, -⟩
      · rw [hs] at hns
        cases hns
      · exact ⟨k, hk, hsize⟩
  · rintro ⟨hne, hlt, hd, hkey⟩
    obtain ⟨regions, hb⟩ := exists_mapM.2 fun b hmem =>
      ⟨_, Region.ofBounds?_eq_some.2 ⟨hlt b hmem, rfl⟩⟩
    have hr := Image.regions?_eq_some.2 ⟨hb, hd⟩
    have hc : ∃ check, i.check? = some check := by
      cases hs : i.isSigned with
      | false => exact ⟨_, Image.check?_eq_some.2 (.inl ⟨hs, rfl⟩)⟩
      | true =>
        obtain ⟨k, hk, hsize⟩ := hkey hs
        exact ⟨_, Image.check?_eq_some.2 (.inr ⟨k, hs, hk, hsize, rfl⟩)⟩
    obtain ⟨check, hc⟩ := hc
    exact ⟨⟨i.algorithm, i.validateOnBoot, check, regions⟩,
      Image.record?_eq_some.2 ⟨hne, hc, hr, rfl, rfl⟩⟩

theorem Image.isSigned_record? {i : Image} {m : Manifest.Image} (h : i.record? = some m) :
    m.isSigned = i.isSigned := by
  obtain ⟨-, hc, -⟩ := Image.record?_eq_some.1 h
  unfold Manifest.Image.isSigned
  rcases Image.check?_eq_some.1 hc with ⟨hs, hc⟩ | ⟨k, hs, -, -, hc⟩
  · rw [hc, hs]
  · rw [hc, hs]

theorem Image.ofRecord_record? {i : Image} {m : Manifest.Image} (h : i.record? = some m) :
    Image.ofRecord m = i.normalise := by
  obtain ⟨-, hc, hr, ha, hv⟩ := Image.record?_eq_some.1 h
  have hb : m.regions.map Bounds.ofRegion = i.regions := by
    rw [map_of_mapM (Image.regions?_eq_some.1 hr).1 fun _ _ => Bounds.ofRegion_record?, List.map_id']
  unfold Image.ofRecord Image.normalise
  rw [hb, ha, hv]
  rcases Image.check?_eq_some.1 hc with ⟨hs, hc⟩ | ⟨k, hs, hk, -, hc⟩
  · have he : i.signature = [] := by simpa [Image.isSigned] using hs
    rw [hc, hs]
    simp [he]
  · rw [hc, hs, hk]
    rfl

/-! ### Versions -/

def Version.record? (v : Version) : Option Manifest.Version :=
  if !v.version.isEmpty then
    (v.rwRegions.mapM RwRegion.record?).bind fun rwRegions =>
      (v.images.mapM Image.record?).map fun images =>
        { address := v.address, version := v.version, rwRegions, images }
  else none

theorem Version.record?_eq_some {v : Version} {m : Manifest.Version} :
    v.record? = some m ↔
      v.version ≠ [] ∧ v.rwRegions.mapM RwRegion.record? = some m.rwRegions ∧
        v.images.mapM Image.record? = some m.images ∧ m.address = v.address ∧
        m.version = v.version := by
  unfold Version.record?
  cases hv : v.version with
  | nil => simp
  | cons b bs =>
    simp only [List.isEmpty_cons, Bool.not_false, if_true, Option.bind_eq_some_iff,
      Option.map_eq_some_iff]
    constructor
    · rintro ⟨rw, hrw, images, hi, rfl⟩
      exact ⟨by simp, hrw, hi, rfl, rfl⟩
    · rintro ⟨-, hrw, hi, ha, hv⟩
      refine ⟨_, hrw, _, hi, ?_⟩
      rw [← ha, ← hv]

theorem Version.exists_record? {v : Version} : (∃ m, v.record? = some m) ↔ v.WellFormed := by
  constructor
  · rintro ⟨m, h⟩
    obtain ⟨hne, hrw, hi, -, -⟩ := Version.record?_eq_some.1 h
    refine ⟨hne, fun r hmem => ?_, fun i hmem => ?_⟩
    · obtain ⟨_, hr⟩ := exists_mapM.1 ⟨_, hrw⟩ r hmem
      exact (RwRegion.record?_eq_some.1 hr).1
    · exact Image.exists_record?.1 (exists_mapM.1 ⟨_, hi⟩ i hmem)
  · rintro ⟨hne, hrw, hi⟩
    obtain ⟨rw, hrw⟩ := exists_mapM.2 fun r hmem => ⟨_, RwRegion.record?_eq_some.2 ⟨hrw r hmem, rfl⟩⟩
    obtain ⟨images, hi⟩ := exists_mapM.2 fun i hmem => Image.exists_record?.2 (hi i hmem)
    exact ⟨⟨v.address, v.version, rw, images⟩, Version.record?_eq_some.2 ⟨hne, hrw, hi, rfl, rfl⟩⟩

theorem Version.hasSigned_record? {v : Version} {m : Manifest.Version} (h : v.record? = some m) :
    m.hasSigned = v.hasSigned := by
  obtain ⟨-, -, hi, -, -⟩ := Version.record?_eq_some.1 h
  exact any_mapM hi fun _ _ => Image.isSigned_record?

theorem Version.ofRecord_record? {v : Version} {m : Manifest.Version} (h : v.record? = some m) :
    Version.ofRecord m = v.normalise := by
  obtain ⟨-, hrw, hi, ha, hv⟩ := Version.record?_eq_some.1 h
  unfold Version.ofRecord Version.normalise
  rw [map_of_mapM hrw fun _ _ => RwRegion.ofRecord_record?, List.map_id',
    map_of_mapM hi fun _ _ => Image.ofRecord_record?, ha, hv]

/-- A version of a legacy manifest, which has no signed image. -/
def Version.unsigned? (v : Version) : Option Manifest.Version :=
  v.record?.bind fun m => if !m.hasSigned then some m else none

theorem Version.unsigned?_eq_some {v : Version} {m : Manifest.Version} :
    v.unsigned? = some m ↔ v.record? = some m ∧ ∀ i ∈ v.images, i.isSigned = false := by
  have hi : v.hasSigned = false ↔ ∀ i ∈ v.images, i.isSigned = false := by
    simp [Version.hasSigned]
  unfold Version.unsigned?
  rw [Option.bind_eq_some_iff, ← hi]
  constructor
  · rintro ⟨m', hm, h⟩
    split at h
    · rename_i hs
      cases h
      exact ⟨hm, by rw [← Version.hasSigned_record? hm]; simpa using hs⟩
    · cases h
  · rintro ⟨hm, hs⟩
    exact ⟨m, hm, by rw [Version.hasSigned_record? hm, hs]; rfl⟩

/-! ### Firmware -/

/-- Whether a reader takes the bytes for an id. -/
def isId (bs : Bytes) : Bool := !bs.isEmpty && bs.all Bytes.isPrintable

theorem isId_iff {bs : Bytes} : isId bs = true ↔ IsId bs := by
  simp [isId, IsId, Bytes.isPrintable]

theorem isId_ofText {s : String} : isId (Bytes.ofText s) = true ↔ IsIdText s := by
  rw [isId, IsIdText, Bool.and_eq_true, Bytes.printable_ofText]
  simp [Bytes.ofText_eq_nil]

theorem textOfPrintable_ofText {s : String} (h : IsIdText s) :
    textOfPrintable (Bytes.ofText s) = s := by
  rw [textOfPrintable, Bytes.map_ofText h.2, String.ofList_toList]

def Firmware.record? (f : Firmware) : Option Manifest.Firmware :=
  f.id.bind fun id =>
    if isId (Bytes.ofText id) then
      (f.versions.mapM Version.record?).map fun versions =>
        { id := some (Bytes.ofText id), flags := f.storedFlags, versions }
    else none

theorem Firmware.record?_eq_some {f : Firmware} {m : Manifest.Firmware} :
    f.record? = some m ↔
      ∃ id, f.id = some id ∧ IsIdText id ∧ f.versions.mapM Version.record? = some m.versions ∧
        m.id = some (Bytes.ofText id) ∧ m.flags = f.storedFlags := by
  unfold Firmware.record?
  rw [Option.bind_eq_some_iff]
  refine exists_congr fun id => and_congr_right fun _ => ?_
  rw [← isId_ofText]
  cases isId (Bytes.ofText id) with
  | false => simp
  | true =>
    simp only [if_true, true_and, Option.map_eq_some_iff]
    constructor
    · rintro ⟨versions, hv, rfl⟩
      exact ⟨hv, rfl, rfl⟩
    · rintro ⟨hv, hid, hflags⟩
      refine ⟨_, hv, ?_⟩
      rw [← hid, ← hflags]

theorem Firmware.ofRecord_record? {f : Firmware} {m : Manifest.Firmware} (h : f.record? = some m) :
    Firmware.ofRecord m =
      { f with flags := f.storedFlags, versions := f.versions.map Version.normalise } := by
  obtain ⟨id, hid, htext, hv, hm, hflags⟩ := Firmware.record?_eq_some.1 h
  unfold Firmware.ofRecord
  rw [hm, Option.map_some, textOfPrintable_ofText htext, ← hid, hflags,
    map_of_mapM hv fun _ _ => Version.ofRecord_record?]

theorem Firmware.hasSigned_record? {f : Firmware} {m : Manifest.Firmware} (h : f.record? = some m) :
    m.hasSigned = f.hasSigned := by
  obtain ⟨id, -, -, hv, -, -⟩ := Firmware.record?_eq_some.1 h
  exact any_mapM hv fun _ _ => Version.hasSigned_record?

theorem Firmware.exists_record? {f : Firmware} :
    (∃ m, f.record? = some m) ↔
      (∃ id, f.id = some id ∧ IsIdText id) ∧ ∀ v ∈ f.versions, v.WellFormed := by
  constructor
  · rintro ⟨m, h⟩
    obtain ⟨id, hid, htext, hv, -, -⟩ := Firmware.record?_eq_some.1 h
    exact ⟨⟨id, hid, htext⟩, fun v hmem => Version.exists_record?.1 (exists_mapM.1 ⟨_, hv⟩ v hmem)⟩
  · rintro ⟨⟨id, hid, htext⟩, hwf⟩
    obtain ⟨versions, hv⟩ := exists_mapM.2 fun v hmem => Version.exists_record?.2 (hwf v hmem)
    exact ⟨⟨some (Bytes.ofText id), f.storedFlags, versions⟩,
      Firmware.record?_eq_some.2 ⟨id, hid, htext, hv, rfl, rfl⟩⟩

theorem distinctIds_iff {fs : List Manifest.Firmware} :
    distinctIds fs = true ↔ (fs.map Manifest.Firmware.id).Nodup := by
  induction fs with
  | nil => simp [distinctIds]
  | cons f fs ih =>
    rw [distinctIds, Bool.and_eq_true, ih, List.map_cons, List.nodup_cons]
    simp

/-- Printable ids are as distinct as the bytes of them. -/
theorem distinctIds_record? {fs : List Firmware} {ms : List Manifest.Firmware}
    (h : fs.mapM Firmware.record? = some ms) :
    distinctIds ms = true ↔ (fs.map Firmware.id).Nodup := by
  -- each list of ids is an image of the other, so what repeats in one repeats in the other
  have hbytes : ms.map Manifest.Firmware.id = (fs.map Firmware.id).map (Option.map Bytes.ofText) := by
    rw [List.map_map]
    refine map_of_mapM h fun f m hm => ?_
    obtain ⟨id, hid, -, -, hmid, -⟩ := Firmware.record?_eq_some.1 hm
    rw [hmid, Function.comp_apply, hid, Option.map_some]
  have htexts : fs.map Firmware.id =
      (ms.map Manifest.Firmware.id).map (Option.map textOfPrintable) := by
    rw [List.map_map]
    refine (map_of_mapM h fun f m hm => ?_).symm
    obtain ⟨id, hid, htext, -, hmid, -⟩ := Firmware.record?_eq_some.1 hm
    rw [Function.comp_apply, hmid, hid, Option.map_some, textOfPrintable_ofText htext]
  rw [distinctIds_iff]
  constructor
  · intro hn
    rw [hbytes] at hn
    exact List.Nodup.of_map _ hn
  · intro hn
    rw [htexts] at hn
    exact List.Nodup.of_map _ hn

/-! ### SMBus rules -/

def SmbusRule.record? (r : SmbusRule) : Option Manifest.SmbusRule :=
  if r.device &&& 1 == 0 then
    some { bus := r.bus, rule := r.rule, device := r.device, passlist := r.passlist }
  else none

theorem SmbusRule.record?_eq_some {r : SmbusRule} {m : Manifest.SmbusRule} :
    r.record? = some m ↔ r.device % 2 = 0 ∧ m = ⟨r.bus, r.rule, r.device, r.passlist⟩ := by
  have heven : r.device &&& 1 = 0 ↔ r.device % 2 = 0 := by
    rw [← UInt8.toNat_inj, ← UInt8.toNat_inj, UInt8.toNat_and, UInt8.toNat_mod]
    simp [Nat.and_one_is_mod]
  unfold SmbusRule.record?
  rw [← heven]
  simp only [beq_iff_eq]
  split
  · rename_i h
    simp [h, eq_comm]
  · rename_i h
    simp [h]

theorem SmbusRule.ofRecord_record? {r : SmbusRule} {m : Manifest.SmbusRule}
    (h : r.record? = some m) : SmbusRule.ofRecord m = r := by
  obtain ⟨-, rfl⟩ := SmbusRule.record?_eq_some.1 h
  rfl

/-! ### Whole drafts -/

/-- What the legacy format has a place for. -/
def LaidOut (d : Draft) : Prop :=
  d.format = .legacy → ∃ f, d.firmware = [f] ∧ f.id = none ∧ d.rules = []

def legacyBody? (versions : List Version) : Option Body :=
  (versions.mapM Version.unsigned?).map Body.legacy

def v2Body? (d : Draft) : Option Body :=
  (d.firmware.mapM Firmware.record?).bind fun firmware =>
    if distinctIds firmware then
      (d.rules.mapM SmbusRule.record?).map fun rules => .v2 d.blank firmware rules
    else none

def body? (d : Draft) : Option Body :=
  match d.format, d.firmware with
  | .legacy, [f] => legacyBody? f.versions
  | .legacy, _ => none
  | .v2, _ => d.v2Body?

theorem body?_of_legacy {d : Draft} {f : Firmware} (hf : d.format = .legacy)
    (hfw : d.firmware = [f]) : d.body? = legacyBody? f.versions := by
  simp only [body?, hf, hfw]

theorem body?_of_v2 {d : Draft} (hf : d.format = .v2) : d.body? = d.v2Body? := by
  simp only [body?, hf]

/-- What a reader makes of everything between the header and the signature. -/
def contents? (d : Draft) : Option (Bytes × Body) :=
  if isId d.platformId then d.body?.map fun body => (d.platformId, body) else none

theorem exists_legacyBody? {versions : List Version} :
    (∃ b, legacyBody? versions = some b) ↔
      ∀ v ∈ versions, v.WellFormed ∧ ∀ i ∈ v.images, i.isSigned = false := by
  have hb : (∃ b, legacyBody? versions = some b) ↔
      ∃ vs, versions.mapM Version.unsigned? = some vs := by
    simp only [legacyBody?, Option.map_eq_some_iff]
    exact ⟨fun ⟨_, vs, h, _⟩ => ⟨vs, h⟩, fun ⟨vs, h⟩ => ⟨_, vs, h, rfl⟩⟩
  rw [hb, exists_mapM]
  refine forall₂_congr fun v _ => ?_
  simp only [Version.unsigned?_eq_some, exists_and_right, Version.exists_record?]

theorem v2Body?_eq_some {d : Draft} {b : Body} :
    d.v2Body? = some b ↔
      ∃ firmware rules, d.firmware.mapM Firmware.record? = some firmware ∧
        (d.firmware.map Firmware.id).Nodup ∧ d.rules.mapM SmbusRule.record? = some rules ∧
        b = .v2 d.blank firmware rules := by
  unfold v2Body?
  rw [Option.bind_eq_some_iff]
  constructor
  · rintro ⟨firmware, hf, h⟩
    split at h
    · rename_i hd
      obtain ⟨rules, hr, rfl⟩ := Option.map_eq_some_iff.1 h
      exact ⟨firmware, rules, hf, (distinctIds_record? hf).1 hd, hr, rfl⟩
    · cases h
  · rintro ⟨firmware, rules, hf, hd, hr, rfl⟩
    refine ⟨firmware, hf, ?_⟩
    rw [if_pos ((distinctIds_record? hf).2 hd), hr]
    rfl

theorem exists_v2Body? {d : Draft} :
    (∃ b, d.v2Body? = some b) ↔
      (∀ f ∈ d.firmware, (∃ id, f.id = some id ∧ IsIdText id) ∧ ∀ v ∈ f.versions, v.WellFormed) ∧
        (d.firmware.map Firmware.id).Nodup ∧ ∀ r ∈ d.rules, r.device % 2 = 0 := by
  constructor
  · rintro ⟨b, h⟩
    obtain ⟨firmware, rules, hf, hd, hr, -⟩ := v2Body?_eq_some.1 h
    refine ⟨fun f hmem => Firmware.exists_record?.1 (exists_mapM.1 ⟨_, hf⟩ f hmem), hd, ?_⟩
    intro r hmem
    obtain ⟨_, h⟩ := exists_mapM.1 ⟨_, hr⟩ r hmem
    exact (SmbusRule.record?_eq_some.1 h).1
  · rintro ⟨hf, hd, hr⟩
    obtain ⟨firmware, hf⟩ := exists_mapM.2 fun f hmem => Firmware.exists_record?.2 (hf f hmem)
    obtain ⟨rules, hr⟩ := exists_mapM.2 fun r hmem =>
      ⟨_, SmbusRule.record?_eq_some.2 ⟨hr r hmem, rfl⟩⟩
    exact ⟨_, v2Body?_eq_some.2 ⟨firmware, rules, hf, hd, hr, rfl⟩⟩

theorem contents?_eq_some {d : Draft} {c : Bytes × Body} :
    d.contents? = some c ↔ IsId d.platformId ∧ c.1 = d.platformId ∧ d.body? = some c.2 := by
  unfold contents?
  rw [← isId_iff]
  cases isId d.platformId with
  | false => simp
  | true =>
    simp only [if_true, Option.map_eq_some_iff, true_and]
    constructor
    · rintro ⟨body, hb, rfl⟩
      exact ⟨rfl, hb⟩
    · rintro ⟨hid, hb⟩
      exact ⟨c.2, hb, Prod.ext hid.symm rfl⟩

theorem wellFormed_of_legacy {d : Draft} {f : Firmware} (hf : d.format = .legacy)
    (hfw : d.firmware = [f]) (hrules : d.rules = []) :
    d.WellFormed ↔ IsId d.platformId ∧
      ∀ v ∈ f.versions, v.WellFormed ∧ ∀ i ∈ v.images, i.isSigned = false := by
  have hne : d.format ≠ .v2 := by simp [hf]
  constructor
  · intro hwf
    have hmem : f ∈ d.firmware := by simp [hfw]
    exact ⟨hwf.platformId, fun v hv => ⟨hwf.versions f hmem v hv, hwf.unsigned hf f hmem v hv⟩⟩
  · rintro ⟨hid, hv⟩
    refine ⟨hid, ?_, fun h => absurd h hne, fun h => absurd h hne, fun _ => ?_, ?_⟩
    · simpa [hfw] using fun v hmem => (hv v hmem).1
    · simpa [hfw] using fun v hmem => (hv v hmem).2
    · simp [hrules]

theorem wellFormed_of_v2 {d : Draft} (hf : d.format = .v2) :
    d.WellFormed ↔ IsId d.platformId ∧
      (∀ f ∈ d.firmware, (∃ id, f.id = some id ∧ IsIdText id) ∧ ∀ v ∈ f.versions, v.WellFormed) ∧
      (d.firmware.map Firmware.id).Nodup ∧ ∀ r ∈ d.rules, r.device % 2 = 0 := by
  have hne : d.format ≠ .legacy := by simp [hf]
  constructor
  · intro hwf
    exact ⟨hwf.platformId, fun f hmem => ⟨hwf.ids hf f hmem, hwf.versions f hmem⟩, hwf.nodup hf,
      hwf.devices⟩
  · rintro ⟨hid, hfw, hnodup, hrules⟩
    exact ⟨hid, fun f hmem => (hfw f hmem).2, fun _ f hmem => (hfw f hmem).1, fun _ => hnodup,
      fun h => absurd h hne, hrules⟩

/-- The well-formed drafts are those whose contents can be read. -/
theorem exists_contents? {d : Draft} (hd : d.LaidOut) :
    (∃ c, d.contents? = some c) ↔ d.WellFormed := by
  have hc : (∃ c, d.contents? = some c) ↔ IsId d.platformId ∧ ∃ b, d.body? = some b := by
    constructor
    · rintro ⟨c, h⟩
      obtain ⟨hid, -, hb⟩ := contents?_eq_some.1 h
      exact ⟨hid, _, hb⟩
    · rintro ⟨hid, b, hb⟩
      exact ⟨(d.platformId, b), contents?_eq_some.2 ⟨hid, rfl, hb⟩⟩
  rw [hc]
  cases hf : d.format with
  | legacy =>
    obtain ⟨f, hfw, -, hrules⟩ := hd hf
    rw [body?_of_legacy hf hfw, exists_legacyBody?, wellFormed_of_legacy hf hfw hrules]
  | v2 => rw [body?_of_v2 hf, exists_v2Body?, wellFormed_of_v2 hf]

/-- The draft of a manifest with the contents of a draft is the normal form of it. -/
theorem ofManifest_contents? {d : Draft} {m : Manifest} (hd : d.LaidOut)
    (h : d.contents? = some (m.platformId, m.body)) (hid : m.id = d.id) :
    ofManifest m = d.normalise := by
  obtain ⟨-, hp, hb⟩ := contents?_eq_some.1 h
  replace hp : m.platformId = d.platformId := hp
  replace hb : d.body? = some m.body := hb
  unfold ofManifest normalise Manifest.format Manifest.blank Manifest.firmware Manifest.smbusRules
  rw [hid, hp]
  cases hf : d.format with
  | legacy =>
    obtain ⟨f, hfw, hnone, hrules⟩ := hd hf
    rw [body?_of_legacy hf hfw] at hb
    obtain ⟨versions, hv, hbody⟩ := Option.map_eq_some_iff.1 hb
    have hmap : versions.map Version.ofRecord = f.versions.map Version.normalise :=
      map_of_mapM hv fun v m hm => Version.ofRecord_record? (Version.unsigned?_eq_some.1 hm).1
    simp [← hbody, hfw, hrules, hnone, Firmware.ofRecord, hmap, Flash.erasedByte]
  | v2 =>
    rw [body?_of_v2 hf] at hb
    obtain ⟨firmware, rules, hfw, -, hr, hbody⟩ := v2Body?_eq_some.1 hb
    simp only [hbody]
    rw [map_of_mapM hfw fun _ _ => Firmware.ofRecord_record?,
      map_of_mapM hr fun _ _ => SmbusRule.ofRecord_record?, List.map_id']

end PlatformGuard.Manifest.Draft
