import PlatformGuard.Proofs.RoundTrip

/-!
# Writing back what was read

Some bytes of a manifest are free: readers do not look at them, and writers make them zero.  A mask marks
them.  Whatever a reader takes from the front of a byte string, the writer of the same part gives back
from the draft of what was read, with zeros in the marked places and nothing else changed (`Restorable`).

Every part is taken apart into its fields along its reader, and put together again along its writer.
-/

namespace PlatformGuard

/-! ### Blobs of keys -/

namespace PublicKey

theorem toBlob_eq (k : PublicKey) : k.toBlob = Bytes.ofNatLE 2 k.modulus.length ++ (k.modulus ++
    (Bytes.ofNatLE 1 k.exponent.length ++ k.exponent)) := by
  simp [toBlob, fields]

theorem length_toBlob (k : PublicKey) : k.toBlob.length = k.blobLength := by
  simp [toBlob, fields, blobLength]
  omega

theorem modulus_length_lt (k : PublicKey) : k.modulus.length < 256 ^ 2 := by
  rcases Manifest.Draft.isSome_ofBytes?.1 k.modulus_sized with h | h | h <;> rw [h] <;> decide

theorem decodes_toBlob (k : PublicKey) : decoder.Reads k.toBlob k := by
  have hm := Nat.mod_eq_of_lt k.modulus_length_lt
  have he : k.exponent.length < 256 ^ 1 := Nat.lt_of_le_of_lt k.exponent_sized.2 (by decide)
  have hlittle : ∀ {n w : Nat}, n < 256 ^ w →
      (Decoder.little w : Decoder Error Nat).Reads (Bytes.ofNatLE w n) n :=
    fun h rest => Decoder.on_little_ok.2 ⟨h, rfl⟩
  have hmake : make k.modulus k.exponent = .ok k :=
    dif_pos ⟨k.modulus_sized, k.exponent_sized⟩
  rw [k.toBlob_eq]
  refine (hlittle k.modulus_length_lt).bind ((Decoder.reads_take rfl).bind ?_)
  refine (hlittle he).bind ((Decoder.reads_take rfl).bind_last fun rest => ?_)
  exact Decoder.on_lift_ok.2 ⟨hmake, rfl⟩

/-- A key is read from its blob, and from nothing else. -/
theorem ofBlob_eq_ok {bs : Bytes} {k : PublicKey} :
    ofBlob bs = .ok k ↔ ∃ rest, bs = k.toBlob ++ rest := by
  constructor
  · intro h
    have h : decoder.on bs = (.ok k, (decoder bs).2) := Prod.ext h rfl
    obtain ⟨m, s₁, hm, h⟩ := Decoder.on_bind_ok.1 h
    obtain ⟨modulus, s₂, hmodulus, h⟩ := Decoder.on_bind_ok.1 h
    obtain ⟨e, s₃, he, h⟩ := Decoder.on_bind_ok.1 h
    obtain ⟨exponent, s₄, hexponent, h⟩ := Decoder.on_bind_ok.1 h
    obtain ⟨hmake, -⟩ := Decoder.on_lift_ok.1 h
    obtain ⟨-, rfl⟩ := Decoder.on_little_ok.1 hm
    obtain ⟨rfl, rfl⟩ := Decoder.on_take_ok.1 hmodulus
    obtain ⟨-, rfl⟩ := Decoder.on_little_ok.1 he
    obtain ⟨rfl, rfl⟩ := Decoder.on_take_ok.1 hexponent
    unfold make at hmake
    split at hmake
    · cases hmake
      exact ⟨s₄, by simp [toBlob, fields]⟩
    · cases hmake
  · rintro ⟨rest, rfl⟩
    exact (k.decodes_toBlob.read_append rest).2 rfl

end PublicKey

namespace Manifest

open Decoder Draft

/-! ### Masks -/

/-- Marks of bytes that are free, first byte first. -/
abbrev Mask := List Bool

/-- The mask of `n` bytes that mean something. -/
def used (n : Nat) : Mask := List.replicate n false

/-- The mask of `n` free bytes. -/
def free (n : Nat) : Mask := List.replicate n true

/-- The bytes with zeros in the marked places. -/
def clear (mask : Mask) (bs : Bytes) : Bytes :=
  List.zipWith (fun marked b => if marked then 0 else b) mask bs

/-- After are the bytes before with zeros in the marked places. -/
structure Restores (mask : Mask) (before after : Bytes) : Prop where
  length_mask : mask.length = before.length
  eq_clear : after = clear mask before

namespace Restores

variable {m n : Mask} {x y x' y' : Bytes}

theorem length_eq (h : Restores m x x') : x'.length = x.length := by
  rw [h.eq_clear, clear, List.length_zipWith, h.length_mask, Nat.min_self]

theorem nil : Restores [] [] [] := ⟨rfl, rfl⟩

theorem append (hx : Restores m x x') (hy : Restores n y y') : Restores (m ++ n) (x ++ y) (x' ++ y') := by
  refine ⟨?_, ?_⟩
  · rw [List.length_append, List.length_append, hx.length_mask, hy.length_mask]
  · rw [clear, List.zipWith_append hx.length_mask, hx.eq_clear, hy.eq_clear]
    rfl

theorem used {k : Nat} (h : x.length = k) : Restores (used k) x x := by
  subst h
  refine ⟨List.length_replicate, ?_⟩
  induction x with
  | nil => rfl
  | cons b bs ih => exact congrArg (b :: ·) ih

theorem free {k : Nat} (h : x.length = k) : Restores (free k) x (Bytes.zeros k) := by
  subst h
  refine ⟨List.length_replicate, ?_⟩
  induction x with
  | nil => rfl
  | cons b bs ih => exact congrArg (0 :: ·) ih

/-- Bytes that mean something, and a free one behind them. -/
theorem head {k : Nat} (gap : UInt8) (h : x.length = k) :
    Restores (Manifest.used k ++ Manifest.free 1) (x ++ [gap]) (x ++ Bytes.zeros 1) :=
  (used h).append (free rfl)

end Restores

/-! ### Parts that can be written back -/

/-- Whatever `d` reads can be written from its draft: the bytes are restored, and what a reader makes of
them is what was read. -/
def Restorable {α β : Type} (d : Decoder Error β) (mask : β → Mask) (draft : β → α)
    (encode : α → Except Draft.Error Bytes) (record? : α → Option β) : Prop :=
  ∀ ⦃s b rest⦄, d.on s = (.ok b, rest) → ∃ front back, s = front ++ rest ∧
    encode (draft b) = .ok back ∧ Restores (mask b) front back ∧ record? (draft b) = some b

section lists
variable {α β : Type} {d : Decoder Error β} {mask : β → Mask} {draft : β → α}
  {encode : α → Except Draft.Error Bytes} {record? : α → Option β}

theorem Restorable.times (h : Restorable d mask draft encode record?) (n : Nat) :
    Restorable (times n d) (fun bs => bs.flatMap mask) (List.map draft) (concat encode)
      (List.mapM record?) := by
  induction n with
  | zero =>
    intro s bs rest hs
    cases hs
    exact ⟨[], [], rfl, rfl, .nil, rfl⟩
  | succ n ih =>
    intro s bs rest hs
    obtain ⟨a, s₁, ha, hs⟩ := on_bind_ok.1 hs
    obtain ⟨as, s₂, has, hs⟩ := on_bind_ok.1 hs
    cases hs
    obtain ⟨x, x', rfl, hx, hrx, hpx⟩ := h ha
    obtain ⟨y, y', rfl, hy, hry, hpy⟩ := ih has
    refine ⟨x ++ y, x' ++ y', (List.append_assoc ..).symm, ?_, hrx.append hry,
      mapM_cons_eq_some.2 ⟨a, as, hpx, hpy, rfl⟩⟩
    rw [List.map_cons, concat, hx, hy]
    rfl

theorem length_of_times {n : Nat} {s rest : Bytes} {bs : List β}
    (h : (Decoder.times n d).on s = (.ok bs, rest)) : bs.length = n :=
  ((Ensures.times (P := fun _ => True) (fun _ _ _ _ => trivial) n) h).1

theorem concat_ok (write : α → Bytes) (as : List α) :
    concat (fun a => .ok (write a)) as = .ok (as.flatMap write) := by
  induction as with
  | nil => rfl
  | cons a as ih =>
    rw [concat, ih]
    rfl

theorem byte_toNat (b : UInt8) (e : Draft.Error) : byte b.toNat e = .ok b := by
  rw [byte, if_pos b.toNat_lt, UInt8.ofNat_toNat]

theorem ne_nil_of_byte {b : UInt8} {as : List α} (hb : (b != 0) = true) (h : as.length = b.toNat) :
    as ≠ [] := by
  rw [byte_ne_zero h.symm] at hb
  rintro rfl
  cases hb

/-- What holds of all numbers below 256 holds of every byte. -/
theorem forall_byte {P : UInt8 → Prop} (h : ∀ n : Fin 256, P (UInt8.ofNat n.val)) (b : UInt8) : P b := by
  have hb := h ⟨b.toNat, b.toNat_lt⟩
  rwa [UInt8.ofNat_toNat] at hb

end lists

/-! ### Regions -/

def RwRegion.mask : Mask := used 1 ++ free 3 ++ used 8

/-- Flags that were accepted are those of the draft. -/
theorem rwFlags_eq {flags : UInt8} {policy : FailurePolicy} (hbits : (flags &&& ~~~0b111 == 0) = true)
    (hpolicy : Coded.ofNumber? (flags &&& 0b11).toNat = some policy) :
    UInt8.ofNat (Coded.number policy) |||
      (if flags &&& updateOnlyFlag != 0 then updateOnlyFlag else 0) = flags := by
  have hall : ∀ flags : UInt8, (flags &&& ~~~0b111 == 0) = true → ∀ p : FailurePolicy,
      Coded.ofNumber? (flags &&& 0b11).toNat = some p → UInt8.ofNat (Coded.number p) |||
        (if flags &&& updateOnlyFlag != 0 then updateOnlyFlag else 0) = flags :=
    forall_byte fun n hn p => by
      revert n p
      decide +kernel
  exact hall flags hbits policy hpolicy

theorem rwRegion_restorable : Restorable RwRegion.decoder (fun _ => RwRegion.mask)
    Draft.RwRegion.ofRecord (fun r => .ok r.encode) Draft.RwRegion.record? := by
  intro s r rest h
  obtain ⟨flags, s₁, hflags, h⟩ := on_bind_ok.1 h
  obtain ⟨_, s₂, hgap, h⟩ := on_bind_ok.1 h
  obtain ⟨first, s₃, hfirst, h⟩ := on_bind_ok.1 h
  obtain ⟨last, s₄, hlast, h⟩ := on_bind_ok.1 h
  obtain ⟨_, s₅, hrequire, h⟩ := on_bind_ok.1 h
  obtain ⟨policy, s₆, hsome, h⟩ := on_bind_ok.1 h
  obtain ⟨region, s₇, hbounds, h⟩ := on_bind_ok.1 h
  cases h
  obtain ⟨hbits, rfl⟩ := on_require_ok.1 hrequire
  obtain ⟨hpolicy, rfl⟩ := on_some?_ok.1 hsome
  obtain ⟨hregion, rfl⟩ := on_some?_ok.1 hbounds
  obtain rfl := on_u8_ok hflags
  obtain ⟨gap, hlength, rfl⟩ := on_skip_ok.1 hgap
  obtain rfl := on_le32_ok hfirst
  obtain rfl := on_le32_ok hlast
  obtain ⟨hlt, rfl⟩ := Region.ofBounds?_eq_some.1 hregion
  have hback : (Draft.RwRegion.ofRecord ⟨policy, flags &&& updateOnlyFlag != 0,
      ⟨first, last - first⟩⟩).encode =
        [flags] ++ Bytes.zeros 3 ++ (Bytes.le32 first ++ Bytes.le32 last) := by
    simp only [Draft.RwRegion.encode, Draft.RwRegion.flags, Draft.RwRegion.ofRecord, Region.add_length,
      rwFlags_eq hbits hpolicy]
    simp [Bytes.zeros, List.replicate]
  have hwords : (Bytes.le32 first ++ Bytes.le32 last).length = 8 := by simp [Bytes.le32]
  refine ⟨[flags] ++ gap ++ (Bytes.le32 first ++ Bytes.le32 last), _, by simp, rfl, ?_, ?_⟩
  · rw [hback]
    change Restores (used 1 ++ free 3 ++ used 8) _ _
    have hflags : Restores (used 1) [flags] [flags] := .used rfl
    exact (hflags.append (.free hlength)).append (.used hwords)
  · refine Draft.RwRegion.record?_eq_some.2 ?_
    simp only [Draft.RwRegion.ofRecord, Region.add_length, and_true]
    exact hlt

theorem readRegion_ok {r : Region} {s rest : Bytes} (h : Image.readRegion.on s = (.ok r, rest)) :
    ∃ first last, s = Bytes.be32 first ++ (Bytes.be32 last ++ rest) ∧
      Region.ofBounds? first last = some r := by
  obtain ⟨first, s₁, hfirst, h⟩ := on_bind_ok.1 h
  obtain ⟨last, s₂, hlast, h⟩ := on_bind_ok.1 h
  obtain ⟨hregion, rfl⟩ := on_some?_ok.1 h
  exact ⟨first, last, by rw [on_be32_ok hfirst, on_be32_ok hlast], hregion⟩

/-- Regions of an image have no free bytes. -/
theorem readRegions_ok {n : Nat} {seen regions : List Region} {s rest : Bytes}
    (h : (Image.readRegions n seen).on s = (.ok regions, rest)) :
    s = (regions.map Bounds.ofRegion).flatMap Bounds.encode ++ rest ∧
      regionsAfter? seen (regions.map Bounds.ofRegion) = some regions ∧ regions.length = n := by
  induction n generalizing seen regions s with
  | zero =>
    cases h
    exact ⟨rfl, rfl, rfl⟩
  | succ n ih =>
    obtain ⟨region, s₁, hone, h⟩ := on_bind_ok.1 h
    obtain ⟨_, s₂, hrequire, h⟩ := on_bind_ok.1 h
    obtain ⟨rs, s₃, hrs, h⟩ := on_bind_ok.1 h
    cases h
    obtain ⟨hseen, rfl⟩ := on_require_ok.1 hrequire
    obtain ⟨first, last, rfl, hregion⟩ := readRegion_ok hone
    obtain ⟨rfl, hafter, rfl⟩ := ih hrs
    have hbounds : Bounds.ofRegion region = ⟨first, last⟩ :=
      Bounds.ofRegion_record? (b := ⟨first, last⟩) hregion
    have hrecord : (Bounds.ofRegion region).record? = some region := by
      rw [hbounds]
      exact hregion
    refine ⟨?_, ?_, rfl⟩
    · rw [List.map_cons, List.flatMap_cons, hbounds]
      simp [Bounds.encode]
    · rw [List.map_cons, regionsAfter?, hrecord, Option.bind_some, if_pos hseen, hafter]
      rfl

/-- A block that is just long enough for the regions that are read from it holds nothing else. -/
theorem regions_of_block {n : Nat} {regions : List Region} {block : Bytes}
    (h : (Image.readRegions n []).read block = .ok regions) (hlength : block.length = 8 * n) :
    block = (regions.map Bounds.ofRegion).flatMap Bounds.encode ∧
      regionsAfter? [] (regions.map Bounds.ofRegion) = some regions ∧ regions.length = n := by
  obtain ⟨left, hleft⟩ : ∃ left, (Image.readRegions n []).on block = (.ok regions, left) :=
    ⟨_, Prod.ext h rfl⟩
  obtain ⟨hused, hafter, hn⟩ := readRegions_ok hleft
  have hnil : left = [] := by
    have hl := congrArg List.length hused
    rw [List.length_append, Draft.length_flatMap_encode, List.length_map, hn, hlength] at hl
    exact List.eq_nil_of_length_eq_zero (by omega)
  rw [hnil, List.append_nil] at hused
  exact ⟨hused, hafter, hn⟩

/-! ### Images -/

theorem number_of_ofNumber? {α : Type} [Coded α] {n : Nat} {a : α}
    (h : Coded.ofNumber? n = some a) : Coded.number a = n :=
  eq_of_beq (List.find?_some (p := fun a => Coded.number a == n) h)

/-- The key field of a signed image has free bytes behind the blob. -/
def ImageCheck.mask : ImageCheck → Mask
  | .hash digest => used digest.length
  | .signature bytes key =>
    used (bytes.length + key.blobLength) ++ free (PublicKey.imageFieldSize - key.blobLength)

def Image.mask (i : Image) : Mask :=
  used 3 ++ free 1 ++ i.check.mask ++ used (8 * i.regions.length)

theorem imageFlags_eq {flags : UInt8}
    (hbits : (flags &&& ~~~(ImageFlag.validateOnBoot.bit ||| ImageFlag.signed.bit) == 0) = true) :
    (if flags &&& ImageFlag.validateOnBoot.bit != 0 then ImageFlag.validateOnBoot.bit else 0) |||
      (if flags &&& ImageFlag.signed.bit != 0 then ImageFlag.signed.bit else 0) = flags := by
  have hall : ∀ flags : UInt8,
      (flags &&& ~~~(ImageFlag.validateOnBoot.bit ||| ImageFlag.signed.bit) == 0) = true →
        (if flags &&& ImageFlag.validateOnBoot.bit != 0 then ImageFlag.validateOnBoot.bit else 0) |||
          (if flags &&& ImageFlag.signed.bit != 0 then ImageFlag.signed.bit else 0) = flags :=
    forall_byte (by decide +kernel)
  exact hall flags hbits

/-- A signature and its key fill their two fields, up to the padding of the key. -/
theorem readSignature_ok {check : ImageCheck} {s rest : Bytes}
    (h : Image.readSignature.on s = (.ok check, rest)) :
    ∃ signature key padding, check = .signature signature key ∧
      s = signature ++ (key.toBlob ++ (padding ++ rest)) ∧
      signature.length = PublicKey.imageSignatureSize ∧
      (key.toBlob ++ padding).length = PublicKey.imageFieldSize ∧ key.modulus.length = 256 := by
  obtain ⟨signature, s₁, hsignature, h⟩ := on_bind_ok.1 h
  obtain ⟨field, s₂, hfield, h⟩ := on_bind_ok.1 h
  obtain ⟨key, s₃, hlift, h⟩ := on_bind_ok.1 h
  obtain ⟨_, s₄, hrequire, h⟩ := on_bind_ok.1 h
  cases h
  obtain ⟨hkey, rfl⟩ := on_lift_ok.1 hlift
  obtain ⟨hsize, rfl⟩ := on_require_ok.1 hrequire
  obtain ⟨hlength, rfl⟩ := on_take_ok.1 hsignature
  obtain ⟨hroom, rfl⟩ := on_take_ok.1 hfield
  obtain ⟨padding, rfl⟩ := PublicKey.ofBlob_eq_ok.1 (Steps.mapError_eq_ok.1 hkey)
  exact ⟨signature, key, padding, rfl, by rw [List.append_assoc], hlength, hroom, eq_of_beq hsize⟩

/-- The field of the check is restored, up to the padding of a key. -/
theorem readCheck_ok {r : Image} {signed : Bool} {s rest : Bytes}
    (h : (if signed = true then Image.readSignature else .hash <$> take r.algorithm.size).on s =
      (.ok r.check, rest)) :
    ∃ front back, s = front ++ rest ∧ (Draft.Image.ofRecord r).encodeCheck = .ok back ∧
      Restores r.check.mask front back ∧ (Draft.Image.ofRecord r).check? = some r.check ∧
      (Draft.Image.ofRecord r).isSigned = signed := by
  obtain ⟨algorithm, boot, check, regions⟩ := r
  cases signed with
  | true =>
    rw [if_pos rfl] at h
    obtain ⟨signature, key, padding, hcheck, rfl, hlength, hroom, hsize⟩ := readSignature_ok h
    obtain rfl : check = .signature signature key := hcheck
    rw [List.length_append] at hroom
    generalize hd : Draft.Image.ofRecord ⟨algorithm, boot, .signature signature key, regions⟩ = d
    have hds : d.signature = signature := by rw [← hd, Draft.Image.ofRecord]
    have hdk : d.key = key.toBlob := by rw [← hd, Draft.Image.ofRecord]
    have hsigned : d.isSigned = true := by
      rw [Draft.Image.isSigned, hds]
      cases signature with
      | nil => cases hlength
      | cons b bs => rfl
    refine ⟨signature ++ key.toBlob ++ padding, signature ++ key.toBlob ++
      Bytes.zeros (PublicKey.imageFieldSize - key.blobLength), by simp, ?_, ?_, ?_, hsigned⟩
    · rw [Draft.Image.encodeCheck, if_pos hsigned, hds, hdk, if_neg (not_not.2 hlength),
        if_neg (by omega), key.length_toBlob]
    · change Restores (used (signature.length + key.blobLength) ++ free _) _ _
      rw [← key.length_toBlob]
      exact Restores.append (.used List.length_append) (.free (by omega))
    · refine Draft.Image.check?_eq_some.2 (.inr ⟨key, hsigned, ?_, hsize, by rw [hds]⟩)
      exact PublicKey.ofBlob_eq_ok.2 ⟨_, by rw [Draft.Image.keyField, hdk]⟩
  | false =>
    rw [if_neg Bool.false_ne_true] at h
    obtain ⟨digest, htake, rfl⟩ := on_map_ok.1 h
    obtain ⟨hlength, rfl⟩ := on_take_ok.1 htake
    refine ⟨digest, digest, rfl, if_neg (not_not.2 hlength), ?_,
      Draft.Image.check?_eq_some.2 (.inl ⟨rfl, rfl⟩), rfl⟩
    exact Restores.used (x := digest) rfl

theorem image_restorable : Restorable Image.decoder Image.mask Draft.Image.ofRecord
    Draft.Image.encode Draft.Image.record? := by
  intro s r rest h
  obtain ⟨hashType, s₁, htype, h⟩ := on_bind_ok.1 h
  obtain ⟨count, s₂, hcount, h⟩ := on_bind_ok.1 h
  obtain ⟨flags, s₃, hflags, h⟩ := on_bind_ok.1 h
  obtain ⟨gap, s₄, hgap, h⟩ := on_bind_ok.1 h
  obtain ⟨algorithm, s₅, hsome, h⟩ := on_bind_ok.1 h
  obtain ⟨_, s₆, hrequire, h⟩ := on_bind_ok.1 h
  obtain ⟨_, s₇, hnonzero, h⟩ := on_bind_ok.1 h
  rw [ite_bind] at h
  obtain ⟨check, s₈, hcheck, h⟩ := on_bind_ok.1 h
  obtain ⟨block, s₉, hblock, h⟩ := on_bind_ok.1 h
  obtain ⟨regions, s₁₀, hlift, h⟩ := on_bind_ok.1 h
  cases h
  obtain ⟨halgorithm, rfl⟩ := on_some?_ok.1 hsome
  obtain ⟨hbits, rfl⟩ := on_require_ok.1 hrequire
  obtain ⟨hne, rfl⟩ := on_require_ok.1 hnonzero
  obtain ⟨hlength, rfl⟩ := on_take_ok.1 hblock
  obtain ⟨hregions, rfl⟩ := on_lift_ok.1 hlift
  obtain rfl := on_u8_ok htype
  obtain rfl := on_u8_ok hcount
  obtain rfl := on_u8_ok hflags
  obtain rfl := on_u8_ok hgap
  obtain ⟨hrest, hafter, hn⟩ := regions_of_block hregions hlength
  obtain ⟨front, back, rfl, hback, hrestores, hrecord, hsigned⟩ := readCheck_ok
    (r := ⟨algorithm, flags &&& ImageFlag.validateOnBoot.bit != 0, check, regions⟩) hcheck
  generalize hd : Draft.Image.ofRecord
    ⟨algorithm, flags &&& ImageFlag.validateOnBoot.bit != 0, check, regions⟩ = d at hback hrecord hsigned
  have hda : d.algorithm = algorithm := by rw [← hd, Draft.Image.ofRecord]
  have hdb : d.validateOnBoot = (flags &&& ImageFlag.validateOnBoot.bit != 0) := by
    rw [← hd, Draft.Image.ofRecord]
  have hdr : d.regions = regions.map Bounds.ofRegion := by rw [← hd, Draft.Image.ofRecord]
  have hdf : d.flags = flags := by
    rw [Draft.Image.flags, hdb, hsigned]
    exact imageFlags_eq hbits
  have htype : UInt8.ofNat (Coded.number d.algorithm) = hashType := by
    rw [hda, number_of_ofNumber? halgorithm, UInt8.ofNat_toNat]
  refine ⟨[hashType, count, flags] ++ [gap] ++ front ++ block,
    [hashType, count, flags] ++ Bytes.zeros 1 ++ back ++ block, by simp, ?_, ?_, ?_⟩
  · rw [Draft.Image.encode, hdr, List.length_map, hn, byte_toNat, hback, htype, hdf, ← hrest]
    rfl
  · unfold Image.mask
    have hhead : Restores (used 3 ++ free 1) ([hashType, count, flags] ++ [gap]) _ := .head gap rfl
    refine (hhead.append hrestores).append (.used ?_)
    rw [hlength, hn]
  · refine Draft.Image.record?_eq_some.2 ⟨?_, hrecord, ?_, hda.symm, hdb.symm⟩
    · rw [hdr]
      exact ne_nil_of_byte hne ((List.length_map _).trans hn)
    · rw [Draft.Image.regions?, hdr]
      exact hafter

/-! ### Versions -/

def Version.mask (v : Version) : Mask :=
  used 3 ++ free 1 ++ used (4 + v.version.length) ++ free (padLength v.version.length) ++
    v.rwRegions.flatMap (fun _ => RwRegion.mask) ++ v.images.flatMap Image.mask

theorem version_restorable : Restorable Version.decoder Version.mask Draft.Version.ofRecord
    Draft.Version.encode Draft.Version.record? := by
  intro s v rest h
  obtain ⟨imageCount, s₁, himageCount, h⟩ := on_bind_ok.1 h
  obtain ⟨rwCount, s₂, hrwCount, h⟩ := on_bind_ok.1 h
  obtain ⟨length, s₃, hlength, h⟩ := on_bind_ok.1 h
  obtain ⟨gap, s₄, hgap, h⟩ := on_bind_ok.1 h
  obtain ⟨_, s₅, hrequire, h⟩ := on_bind_ok.1 h
  obtain ⟨address, s₆, haddress, h⟩ := on_bind_ok.1 h
  obtain ⟨version, s₇, hversion, h⟩ := on_bind_ok.1 h
  obtain ⟨_, s₈, hskip, h⟩ := on_bind_ok.1 h
  obtain ⟨rwRegions, s₉, hrwRegions, h⟩ := on_bind_ok.1 h
  obtain ⟨images, s₁₀, himages, h⟩ := on_bind_ok.1 h
  cases h
  have hrwLength := length_of_times hrwRegions
  have himagesLength := length_of_times himages
  obtain ⟨hne, rfl⟩ := on_require_ok.1 hrequire
  obtain rfl := on_u8_ok himageCount
  obtain rfl := on_u8_ok hrwCount
  obtain rfl := on_u8_ok hlength
  obtain rfl := on_u8_ok hgap
  obtain rfl := on_le32_ok haddress
  obtain ⟨hn, rfl⟩ := on_take_ok.1 hversion
  obtain ⟨padding, hpadding, rfl⟩ := on_skip_ok.1 hskip
  obtain ⟨rw, rw', rfl, hrw, hrwRestores, hrwRecord⟩ := rwRegion_restorable.times _ hrwRegions
  obtain ⟨im, im', rfl, him, himRestores, himRecord⟩ := image_restorable.times _ himages
  obtain rfl := Except.ok.inj ((concat_ok _ _).symm.trans hrw)
  have hwords : (Bytes.le32 address ++ version).length = 4 + version.length := by simp [Bytes.le32]
  rw [← hn] at hpadding
  refine ⟨[imageCount, rwCount, length] ++ [gap] ++ (Bytes.le32 address ++ version) ++ padding ++ rw ++
      im, [imageCount, rwCount, length] ++ Bytes.zeros 1 ++ (Bytes.le32 address ++ version) ++
      pad version.length ++ (rwRegions.map Draft.RwRegion.ofRecord).flatMap Draft.RwRegion.encode ++ im',
    by simp, ?_, ?_, ?_⟩
  · simp only [Draft.Version.encode, Draft.Version.ofRecord, List.length_map, hn, hrwLength,
      himagesLength, byte_toNat, him]
    change Except.ok _ = Except.ok _
    simp [Bytes.zeros]
  · unfold Version.mask
    have hhead : Restores (used 3 ++ free 1) ([imageCount, rwCount, length] ++ [gap]) _ := .head gap rfl
    exact (((hhead.append (.used hwords)).append (.free hpadding)).append hrwRestores).append
      himRestores
  · refine Draft.Version.record?_eq_some.2 ⟨?_, hrwRecord, himRecord, rfl, rfl⟩
    exact ne_nil_of_byte hne hn

/-- Versions of a legacy manifest are restored, too. -/
theorem unsigned_restorable : Restorable
    (Version.decoder >>= fun v => require (!v.hasSigned) .signedImageInLegacy >>= fun _ => pure v)
    Version.mask Draft.Version.ofRecord Draft.Version.encode Draft.Version.unsigned? := by
  intro s v rest h
  obtain ⟨w, s₁, hversion, h⟩ := on_bind_ok.1 h
  obtain ⟨_, s₂, hrequire, h⟩ := on_bind_ok.1 h
  cases h
  obtain ⟨hunsigned, rfl⟩ := on_require_ok.1 hrequire
  obtain ⟨front, back, rfl, hback, hrestores, hrecord⟩ := version_restorable hversion
  refine ⟨front, back, rfl, hback, hrestores, ?_⟩
  rw [Draft.Version.unsigned?, hrecord, Option.bind_some, if_pos hunsigned]

/-! ### Firmware -/

def Firmware.mask (f : Firmware) : Mask :=
  used 3 ++ free 1 ++ used (f.id.getD []).length ++ free (padLength (f.id.getD []).length) ++
    f.versions.flatMap Version.mask

theorem readId_ok {n : Nat} {id s rest : Bytes} (h : (readId n).on s = (.ok id, rest)) :
    id.length = n ∧ isId id = true ∧ s = id ++ rest := by
  obtain ⟨bytes, s₁, htake, h⟩ := on_bind_ok.1 h
  obtain ⟨_, s₂, hrequire, h⟩ := on_bind_ok.1 h
  cases h
  obtain ⟨hid, rfl⟩ := on_require_ok.1 hrequire
  obtain ⟨hlength, rfl⟩ := on_take_ok.1 htake
  exact ⟨hlength, hid, rfl⟩

/-- Flags that agree with the images are stored as they are. -/
theorem storedFlags_of_signed {f : Draft.Firmware}
    (h : (f.flags &&& signedImagesFlag != 0) = f.hasSigned) : f.storedFlags = f.flags := by
  have hall : ∀ flags : UInt8, (if (flags &&& signedImagesFlag != 0) = true then
      flags ||| signedImagesFlag else flags &&& ~~~signedImagesFlag) = flags :=
    forall_byte (by decide +kernel)
  have hflags := hall f.flags
  rw [h] at hflags
  exact hflags

theorem firmware_restorable : Restorable Firmware.decoder Firmware.mask Draft.Firmware.ofRecord
    Draft.Firmware.encode Draft.Firmware.record? := by
  intro s f rest h
  obtain ⟨count, s₁, hcount, h⟩ := on_bind_ok.1 h
  obtain ⟨length, s₂, hlength, h⟩ := on_bind_ok.1 h
  obtain ⟨flags, s₃, hflags, h⟩ := on_bind_ok.1 h
  obtain ⟨gap, s₄, hgap, h⟩ := on_bind_ok.1 h
  obtain ⟨id, s₅, hid, h⟩ := on_bind_ok.1 h
  obtain ⟨_, s₆, hskip, h⟩ := on_bind_ok.1 h
  obtain ⟨versions, s₇, hversions, h⟩ := on_bind_ok.1 h
  obtain ⟨_, s₈, hrequire, h⟩ := on_bind_ok.1 h
  cases h
  have hversionsLength := length_of_times hversions
  obtain ⟨hagree, rfl⟩ := on_require_ok.1 hrequire
  obtain rfl := on_u8_ok hcount
  obtain rfl := on_u8_ok hlength
  obtain rfl := on_u8_ok hflags
  obtain rfl := on_u8_ok hgap
  obtain ⟨hn, hprintable, rfl⟩ := readId_ok hid
  obtain ⟨padding, hpadding, rfl⟩ := on_skip_ok.1 hskip
  obtain ⟨vs, vs', rfl, hvs, hrestores, hrecord⟩ := version_restorable.times _ hversions
  rw [← hn] at hpadding
  have htext : Bytes.ofText (textOfPrintable id) = id := Bytes.ofText_map (isId_iff.1 hprintable).2
  have hstored : (Draft.Firmware.ofRecord ⟨some id, flags, versions⟩).storedFlags = flags := by
    refine storedFlags_of_signed ?_
    change (flags &&& signedImagesFlag != 0) = _
    rw [eq_of_beq hagree]
    exact any_mapM hrecord fun _ _ => Draft.Version.hasSigned_record?
  refine ⟨[count, length, flags] ++ [gap] ++ id ++ padding ++ vs,
    [count, length, flags] ++ Bytes.zeros 1 ++ id ++ pad id.length ++ vs', by simp, ?_, ?_, ?_⟩
  · rw [Draft.Firmware.encode, hstored]
    simp only [Draft.Firmware.ofRecord, Option.map_some, htext, hn, List.length_map, hversionsLength,
      byte_toNat, hvs]
    change Except.ok _ = Except.ok _
    simp [Bytes.zeros]
  · unfold Firmware.mask
    have hhead : Restores (used 3 ++ free 1) ([count, length, flags] ++ [gap]) _ := .head gap rfl
    exact ((hhead.append (.used rfl)).append (.free hpadding)).append hrestores
  · refine Draft.Firmware.record?_eq_some.2 ⟨textOfPrintable id, rfl, ?_, hrecord, ?_, hstored.symm⟩
    · rw [← isId_ofText, htext]
      exact hprintable
    · rw [htext]

/-! ### SMBus rules -/

def SmbusRule.mask : Mask := used 1 ++ free 4 ++ used 35

theorem smbusRule_restorable : Restorable SmbusRule.decoder (fun _ => SmbusRule.mask)
    Draft.SmbusRule.ofRecord Draft.SmbusRule.encode Draft.SmbusRule.record? := by
  intro s r rest h
  obtain ⟨definition, s₁, hdefinition, h⟩ := on_bind_ok.1 h
  obtain ⟨_, s₂, hskip, h⟩ := on_bind_ok.1 h
  obtain ⟨bus, s₃, hbus, h⟩ := on_bind_ok.1 h
  obtain ⟨rule, s₄, hrule, h⟩ := on_bind_ok.1 h
  obtain ⟨device, s₅, hdevice, h⟩ := on_bind_ok.1 h
  obtain ⟨passlist, s₆, hpasslist, h⟩ := on_bind_ok.1 h
  obtain ⟨_, s₇, hkind, h⟩ := on_bind_ok.1 h
  obtain ⟨_, s₈, heven, h⟩ := on_bind_ok.1 h
  cases h
  obtain ⟨hdefined, rfl⟩ := on_require_ok.1 hkind
  obtain ⟨haddress, rfl⟩ := on_require_ok.1 heven
  obtain rfl := on_u8_ok hdefinition
  obtain ⟨gap, hgap, rfl⟩ := on_skip_ok.1 hskip
  obtain rfl := on_u8_ok hbus
  obtain rfl := on_u8_ok hrule
  obtain rfl := on_u8_ok hdevice
  obtain ⟨hlength, rfl⟩ := on_take_ok.1 hpasslist
  obtain rfl := eq_of_beq hdefined
  refine ⟨[ruleDefinition] ++ gap ++ ([bus, rule, device] ++ passlist),
    [ruleDefinition] ++ Bytes.zeros 4 ++ ([bus, rule, device] ++ passlist), by simp, ?_, ?_, ?_⟩
  · exact if_pos hlength
  · have hhead : Restores (used 1) [ruleDefinition] [ruleDefinition] := .used rfl
    exact (hhead.append (.free hgap)).append (.used (by simp [hlength]))
  · exact if_pos haddress

end Manifest
end PlatformGuard
