import PlatformGuard.Proofs.Drafts
import PlatformGuard.Proofs.SignedExtent

/-!
# Reading back what was encoded

Every reader is run on what the encoder of the same part wrote: it takes exactly that and gives the record
of the part, or it fails where there is no record.  So a draft that could be encoded is accepted if and
only if it is well formed, and nothing but its normal form is read from it.
-/

namespace PlatformGuard.Manifest.Draft

open Decoder

/-! ### Counts, lists and padding -/

theorem toNat_of_byte {n : Nat} {e : Error} {b : UInt8} (h : byte n e = .ok b) : b.toNat = n := by
  unfold byte at h
  split at h
  · rename_i hn
    cases h
    exact UInt8.toNat_ofNat_of_lt' hn
  · cases h

/-- A list is not empty if the byte of its length is not zero. -/
theorem byte_ne_zero {α : Type} {items : List α} {b : UInt8} (h : b.toNat = items.length) :
    (b != 0) = !items.isEmpty := by
  have hb : b = 0 ↔ items.length = 0 := by
    rw [← h, ← UInt8.toNat_inj]
    rfl
  cases items with
  | nil => simp [hb.2 rfl]
  | cons a as =>
    have : b ≠ 0 := fun h0 => by simpa using hb.1 h0
    simp [this]

section lists
variable {α β : Type} {d : Decoder Manifest.Error β} {p : α → Option β}

theorem concat_eq_ok {encode : α → Except Error Bytes} {items : List α} {bytes : Bytes}
    (h : concat encode items = .ok bytes) :
    ∃ fronts, List.Forall₂ (fun a front => encode a = .ok front) items fronts ∧
      bytes = fronts.flatten := by
  induction items generalizing bytes with
  | nil =>
    cases h
    exact ⟨[], .nil, rfl⟩
  | cons a as ih =>
    rw [concat] at h
    obtain ⟨front, ha, h⟩ := Steps.exceptBind_eq_ok.1 h
    obtain ⟨rest, has, h⟩ := Steps.exceptBind_eq_ok.1 h
    cases h
    obtain ⟨fronts, hf, rfl⟩ := ih has
    exact ⟨front :: fronts, .cons ha hf, rfl⟩

/-- Records that were written one after the other are read one after the other. -/
theorem decodes_concat {encode : α → Except Error Bytes} {items : List α} {bytes : Bytes}
    (h : concat encode items = .ok bytes)
    (hd : ∀ a front, encode a = .ok front → Decodes d front (p a)) :
    Decodes (times items.length d) bytes (items.mapM p) := by
  obtain ⟨fronts, hf, rfl⟩ := concat_eq_ok h
  exact decodes_times (hf.imp fun a front => hd a front)

theorem decodes_flatMap {write : α → Bytes} (items : List α)
    (hd : ∀ a, Decodes d (write a) (p a)) :
    Decodes (times items.length d) (items.flatMap write) (items.mapM p) := by
  rw [List.flatMap_def]
  refine decodes_times ?_
  rw [List.forall₂_map_right_iff]
  exact List.forall₂_same.2 fun a _ => hd a

end lists

theorem reads_skipPad (n : Nat) : Reads (skipPad n) (pad n) () :=
  reads_skip (List.length_replicate)

theorem decodes_readId {β : Type} {bytes rest : Bytes} {n : Nat} {o : Option β}
    {f : Bytes → Decoder Manifest.Error β} (h : bytes.length = n) (hf : Decodes (f bytes) rest o) :
    Decodes (readId n >>= f) (bytes ++ rest) (if isId bytes then o else none) := by
  unfold readId
  simp only [bind_assoc, pure_bind]
  exact (reads_take h).bind (decodes_require fun _ => hf)

/-! ### Regions -/

theorem RwRegion.flags_fields (r : RwRegion) :
    (r.flags &&& ~~~0b111 == 0) = true ∧
      Coded.ofNumber? (r.flags &&& 0b11).toNat = some r.policy ∧
      (r.flags &&& updateOnlyFlag != 0) = r.updateOnly := by
  unfold RwRegion.flags
  cases r.policy <;> cases r.updateOnly <;> exact ⟨rfl, rfl, rfl⟩

theorem RwRegion.decodes_encode (r : RwRegion) :
    Decodes Manifest.RwRegion.decoder r.encode r.record? := by
  obtain ⟨hbits, hpolicy, hupdate⟩ := r.flags_fields
  unfold RwRegion.encode Manifest.RwRegion.decoder RwRegion.record?
  simp only [List.cons_append, List.nil_append]
  refine decodes_u8 ((reads_skip (x := [0, 0, 0]) rfl).bind ?_)
  refine (reads_le32 r.first).bind ((reads_le32 r.last).bind_last ?_)
  refine decodes_require_of hbits (decodes_some?_of hpolicy ?_)
  rw [Option.map_eq_bind]
  refine decodes_some? fun region _ => ?_
  rw [hupdate]
  exact reads_pure _

theorem Bounds.decodes_encode (b : Bounds) :
    Decodes Manifest.Image.readRegion b.encode b.record? := by
  unfold Bounds.encode Manifest.Image.readRegion Bounds.record?
  exact (reads_be32 b.first).bind ((reads_be32 b.last).bind_last (decodes_option _ _))

theorem Bounds.length_encode (b : Bounds) : b.encode.length = 8 := by
  simp [Bounds.encode, Bytes.be32]

theorem length_flatMap_encode (bs : List Bounds) :
    (bs.flatMap Bounds.encode).length = 8 * bs.length := by
  induction bs with
  | nil => rfl
  | cons b bs ih =>
    rw [List.flatMap_cons, List.length_append, b.length_encode, ih, List.length_cons]
    omega

theorem decodes_readRegions (bs : List Bounds) (seen : List Region) :
    Decodes (Manifest.Image.readRegions bs.length seen) (bs.flatMap Bounds.encode)
      (regionsAfter? seen bs) := by
  induction bs generalizing seen with
  | nil => exact reads_pure []
  | cons b bs ih =>
    rw [List.length_cons, Manifest.Image.readRegions, List.flatMap_cons, regionsAfter?]
    refine b.decodes_encode.bind fun region _ => decodes_require fun _ => ?_
    rw [Option.map_eq_bind]
    exact (ih (seen ++ [region])).bind_last fun regions _ => reads_pure (region :: regions)

/-! ### Images -/

theorem Image.flags_fields (i : Image) :
    (i.flags &&& ~~~(ImageFlag.validateOnBoot.bit ||| ImageFlag.signed.bit) == 0) = true ∧
      (i.flags &&& ImageFlag.signed.bit != 0) = i.isSigned ∧
      (i.flags &&& ImageFlag.validateOnBoot.bit != 0) = i.validateOnBoot := by
  unfold Image.flags
  cases i.isSigned <;> cases i.validateOnBoot <;> exact ⟨rfl, rfl, rfl⟩

/-- The field of the check is read in the way in which it was written. -/
theorem Image.decodes_encodeCheck {i : Image} {bytes : Bytes} (h : i.encodeCheck = .ok bytes) :
    Decodes
      (if i.isSigned then Manifest.Image.readSignature else .hash <$> take i.algorithm.size)
      bytes i.check? := by
  unfold Image.encodeCheck at h
  unfold Image.check?
  cases hs : i.isSigned with
  | true =>
    rw [hs, if_pos rfl] at h
    split at h
    · cases h
    · split at h
      · cases h
      · rename_i hsig hkey
        cases h
        have hfield : i.keyField.length = PublicKey.imageFieldSize := by
          simp only [Image.keyField, Bytes.zeros, List.length_append, List.length_replicate]
          omega
        rw [if_pos rfl, if_pos rfl, List.append_assoc]
        refine (reads_take (Decidable.not_not.1 hsig)).bind ((reads_take hfield).bind_last ?_)
        rw [← Steps.toOption_mapError Manifest.Error.ofKey]
        exact decodes_lift fun key _ => decodes_require fun _ => reads_pure _
  | false =>
    rw [hs, if_neg Bool.false_ne_true] at h
    split at h
    · cases h
    · rename_i hlen
      cases h
      exact (reads_take (Decidable.not_not.1 hlen)).map ImageCheck.hash

theorem Image.decodes_encode {i : Image} {bytes : Bytes} (h : i.encode = .ok bytes) :
    Decodes Manifest.Image.decoder bytes i.record? := by
  obtain ⟨count, hcount, h⟩ := Steps.exceptBind_eq_ok.1 h
  obtain ⟨check, hcheck, h⟩ := Steps.exceptBind_eq_ok.1 h
  cases h
  replace hcount := toNat_of_byte hcount
  obtain ⟨hbits, hsigned, hboot⟩ := i.flags_fields
  have halgorithm : Coded.ofNumber? (UInt8.ofNat (Coded.number i.algorithm)).toNat =
      some i.algorithm := by
    cases i.algorithm <;> rfl
  unfold Manifest.Image.decoder Image.record?
  simp only [List.cons_append, List.nil_append]
  refine decodes_u8 (decodes_u8 (decodes_u8 (decodes_u8 ?_)))
  refine decodes_some?_of halgorithm (decodes_require_of hbits ?_)
  rw [← byte_ne_zero hcount]
  refine decodes_require fun _ => ?_
  simp only [hsigned, hboot, hcount]
  rw [ite_bind]
  refine (decodes_encodeCheck hcheck).bind fun check _ => ?_
  refine (reads_take (length_flatMap_encode i.regions)).bind_last ?_
  rw [Option.map_eq_bind, Image.regions?, ← (decodes_readRegions i.regions []).read]
  exact decodes_lift fun regions _ => reads_pure _

/-! ### Versions -/

theorem Version.decodes_encode {v : Version} {bytes : Bytes} (h : v.encode = .ok bytes) :
    Decodes Manifest.Version.decoder bytes v.record? := by
  obtain ⟨length, hlength, h⟩ := Steps.exceptBind_eq_ok.1 h
  obtain ⟨imageCount, himages, h⟩ := Steps.exceptBind_eq_ok.1 h
  obtain ⟨rwCount, hrw, h⟩ := Steps.exceptBind_eq_ok.1 h
  obtain ⟨images, hconcat, h⟩ := Steps.exceptBind_eq_ok.1 h
  cases h
  replace hlength := toNat_of_byte hlength
  replace himages := toNat_of_byte himages
  replace hrw := toNat_of_byte hrw
  unfold Manifest.Version.decoder Version.record?
  simp only [List.cons_append, List.nil_append, List.append_assoc]
  refine decodes_u8 (decodes_u8 (decodes_u8 (decodes_u8 ?_)))
  rw [← byte_ne_zero hlength]
  refine decodes_require fun _ => ?_
  rw [hlength, himages, hrw]
  refine (reads_le32 v.address).bind ((reads_take rfl).bind ?_)
  refine (reads_skipPad v.version.length).bind ?_
  refine (decodes_flatMap v.rwRegions RwRegion.decodes_encode).bind fun rwRegions _ => ?_
  rw [Option.map_eq_bind]
  exact (decodes_concat hconcat fun _ _ => Image.decodes_encode).bind_last fun images _ =>
    reads_pure _

/-- The versions of a legacy manifest are read one after the other, too. -/
theorem readUnsigned_eq (n : Nat) :
    readUnsigned n = times n (Manifest.Version.decoder >>= fun v =>
      require (!v.hasSigned) .signedImageInLegacy >>= fun _ => pure v) := by
  induction n with
  | zero => rfl
  | succ n ih =>
    rw [readUnsigned, times, ih]
    simp only [bind_assoc, pure_bind]

theorem Version.decodes_unsigned {v : Version} {bytes : Bytes} (h : v.encode = .ok bytes) :
    Decodes (Manifest.Version.decoder >>= fun v =>
      require (!v.hasSigned) .signedImageInLegacy >>= fun _ => pure v) bytes v.unsigned? := by
  exact (Version.decodes_encode h).bind_last fun m _ => decodes_require fun _ => reads_pure m

/-! ### Firmware -/

/-- The stored flags agree with the images. -/
theorem Firmware.storedFlags_signed (f : Firmware) :
    (f.storedFlags &&& signedImagesFlag != 0) = f.hasSigned := by
  unfold Firmware.storedFlags
  cases f.hasSigned with
  | true =>
    have hset : (f.flags ||| signedImagesFlag) &&& signedImagesFlag ≠ 0 := by
      intro h
      have hmod : (f.flags.toNat ||| 1) % 2 = 0 := by
        rw [← Nat.and_one_is_mod]
        exact congrArg UInt8.toNat h
      have := Nat.or_mod_two_eq_one (a := f.flags.toNat) (b := 1)
      omega
    simpa using hset
  | false =>
    have hclear : f.flags &&& ~~~signedImagesFlag &&& signedImagesFlag = 0 := by
      rw [UInt8.and_assoc, show ~~~signedImagesFlag &&& signedImagesFlag = 0 from rfl, UInt8.and_zero]
    simpa using hclear

theorem Firmware.decodes_encode {f : Firmware} {bytes : Bytes} (h : f.encode = .ok bytes) :
    Decodes Manifest.Firmware.decoder bytes f.record? := by
  unfold Firmware.encode at h
  unfold Firmware.record?
  cases hid : f.id with
  | none =>
    rw [hid] at h
    cases h
  | some id =>
    rw [hid] at h
    obtain ⟨length, hlength, h⟩ := Steps.exceptBind_eq_ok.1 h
    obtain ⟨count, hcount, h⟩ := Steps.exceptBind_eq_ok.1 h
    obtain ⟨versions, hconcat, h⟩ := Steps.exceptBind_eq_ok.1 h
    cases h
    replace hlength := toNat_of_byte hlength
    replace hcount := toNat_of_byte hcount
    unfold Manifest.Firmware.decoder
    simp only [List.cons_append, List.nil_append, List.append_assoc]
    refine decodes_u8 (decodes_u8 (decodes_u8 (decodes_u8 ?_)))
    rw [hlength, hcount]
    refine decodes_readId rfl ((reads_skipPad _).bind ?_)
    rw [Option.map_eq_bind]
    refine (decodes_concat hconcat fun _ _ => Version.decodes_encode).bind_last fun versions hv => ?_
    refine decodes_require_of (beq_iff_eq.2 ?_) (reads_pure _)
    rw [f.storedFlags_signed]
    exact (any_mapM hv fun _ _ => Version.hasSigned_record?).symm

/-! ### SMBus rules -/

theorem SmbusRule.decodes_encode {r : SmbusRule} {bytes : Bytes} (h : r.encode = .ok bytes) :
    Decodes Manifest.SmbusRule.decoder bytes r.record? := by
  unfold SmbusRule.encode at h
  split at h
  · rename_i hlength
    cases h
    unfold Manifest.SmbusRule.decoder SmbusRule.record?
    simp only [List.cons_append, List.nil_append]
    refine decodes_u8 ((reads_skip (x := [0, 0, 0, 0]) rfl).bind ?_)
    refine decodes_u8 (decodes_u8 (decodes_u8 ((reads_take hlength).bind_last ?_)))
    exact decodes_require_of rfl (decodes_require fun _ => reads_pure _)
  · cases h

/-! ### Bodies -/

theorem encodeLegacy_eq_ok {d : Draft} {bytes : Bytes} (h : d.encodeLegacy = .ok bytes) :
    ∃ f count versions, d.firmware = [f] ∧ d.rules = [] ∧ f.id = none ∧
      count.toNat = f.versions.length ∧ concat Version.encode f.versions = .ok versions ∧
      bytes = count :: 0 :: 0 :: 0 :: versions := by
  unfold encodeLegacy at h
  split at h
  · rename_i f hf hr
    split at h
    · cases h
    · rename_i hid
      obtain ⟨count, hcount, h⟩ := Steps.exceptBind_eq_ok.1 h
      obtain ⟨versions, hconcat, h⟩ := Steps.exceptBind_eq_ok.1 h
      cases h
      exact ⟨f, count, versions, hf, hr, by simpa using hid, toNat_of_byte hcount, hconcat, rfl⟩
  · cases h

theorem decodes_encodeLegacy {d : Draft} {bytes : Bytes} (hf : d.format = .legacy)
    (h : d.encodeLegacy = .ok bytes) : Decodes Body.readLegacy bytes d.body? := by
  obtain ⟨f, count, versions, hfw, -, -, hcount, hconcat, rfl⟩ := encodeLegacy_eq_ok h
  rw [body?_of_legacy hf hfw]
  unfold Body.readLegacy legacyBody?
  refine decodes_u8 ((reads_skip (x := [0, 0, 0]) rfl).bind ?_)
  rw [hcount, readUnsigned_eq, Option.map_eq_bind]
  exact (decodes_concat hconcat fun _ _ => Version.decodes_unsigned).bind_last fun vs _ =>
    reads_pure _

theorem decodes_encodeV2 {d : Draft} {bytes : Bytes} (hf : d.format = .v2)
    (h : d.encodeV2 = .ok bytes) : Decodes Body.readV2 bytes d.body? := by
  rw [body?_of_v2 hf]
  obtain ⟨count, hcount, h⟩ := Steps.exceptBind_eq_ok.1 h
  obtain ⟨firmware, hfirmware, h⟩ := Steps.exceptBind_eq_ok.1 h
  obtain ⟨ruleCount, hruleCount, h⟩ := Steps.exceptBind_eq_ok.1 h
  obtain ⟨rules, hrules, h⟩ := Steps.exceptBind_eq_ok.1 h
  cases h
  replace hcount := toNat_of_byte hcount
  replace hruleCount := toNat_of_byte hruleCount
  unfold Body.readV2 v2Body?
  simp only [List.cons_append, List.nil_append, List.append_assoc]
  refine decodes_u8 (decodes_u8 ((reads_skip (x := [0, 0]) rfl).bind ?_))
  rw [hcount]
  refine (decodes_concat hfirmware fun _ _ => Firmware.decodes_encode).bind fun fs _ => ?_
  refine decodes_require fun _ => decodes_u8 ((reads_skip (x := [0, 0, 0]) rfl).bind ?_)
  rw [hruleCount, Option.map_eq_bind]
  exact (decodes_concat hrules fun _ _ => SmbusRule.decodes_encode).bind_last fun rs _ =>
    reads_pure _

/-! ### Manifests -/

/-- The encoding of everything between the header and the signature. -/
theorem decodes_encodeBody {d : Draft} {bytes : Bytes} (h : d.encodeBody = .ok bytes) :
    d.LaidOut ∧ Decodes (contents d.format) bytes d.contents? := by
  obtain ⟨length, hlength, h⟩ := Steps.exceptBind_eq_ok.1 h
  replace hlength := toNat_of_byte hlength
  have hrest : ∃ rest, d.LaidOut ∧ Decodes (Body.decoder d.format) rest d.body? ∧
      bytes = length :: 0 :: (d.platformId ++ (pad (2 + d.platformId.length) ++ rest)) := by
    split at h
    · rename_i hf
      obtain ⟨rest, hr, h⟩ := Steps.exceptBind_eq_ok.1 h
      cases h
      obtain ⟨f, _, _, hfw, hrules, hid, -⟩ := encodeLegacy_eq_ok hr
      refine ⟨rest, fun _ => ⟨f, hfw, hid, hrules⟩, ?_, by simp⟩
      rw [hf]
      exact decodes_encodeLegacy hf hr
    · rename_i hf
      obtain ⟨rest, hr, h⟩ := Steps.exceptBind_eq_ok.1 h
      cases h
      refine ⟨rest, fun hl => ?_, ?_, by simp⟩
      · rw [hf] at hl
        cases hl
      · rw [hf]
        exact decodes_encodeV2 hf hr
  obtain ⟨rest, hlaid, hbody, rfl⟩ := hrest
  refine ⟨hlaid, ?_⟩
  unfold contents contents?
  refine decodes_u8 (decodes_u8 ?_)
  rw [hlength]
  refine decodes_readId rfl ((reads_skipPad _).bind ?_)
  rw [Option.map_eq_bind]
  exact hbody.bind_last fun body _ => reads_pure _

theorem length_encode_header (h : Header) : h.encode.length = headerLength := by
  simp [Header.encode, Header.fields, Bytes.le16, Bytes.le32, headerLength]

theorem decodes_encode_header (h : Header) :
    Decodes Header.decoder h.encode
      (if (ModulusSize.ofBytes? h.signatureLength.toNat).isSome then
        if decide (headerLength + h.signatureLength.toNat ≤ h.length.toNat) then some h else none
      else none) := by
  have hmagic : Coded.ofNumber? (UInt16.ofNat (Coded.number h.format)).toNat = some h.format := by
    cases h.format <;> rfl
  have hscheme : Coded.ofNumber? (UInt8.ofNat (Coded.number h.scheme)).toNat = some h.scheme := by
    cases h.scheme
    rfl
  have hencode : h.encode =
      Bytes.le16 h.length ++ (Bytes.le16 (UInt16.ofNat (Coded.number h.format)) ++
        (Bytes.le32 h.id ++ (Bytes.le16 h.signatureLength ++
          [UInt8.ofNat (Coded.number h.scheme), 0]))) := by
    have hfield : Bytes.ofNatLE 2 (Coded.number h.format) =
        Bytes.le16 (UInt16.ofNat (Coded.number h.format)) := by
      cases h.format <;> rfl
    have hlast : Bytes.ofNatLE 1 (Coded.number h.scheme) = [UInt8.ofNat (Coded.number h.scheme)] := rfl
    simp [Header.encode, Header.fields, hfield, hlast]
  rw [hencode]
  unfold Header.decoder
  refine (reads_le16 h.length).bind ((reads_le16 _).bind ((reads_le32 h.id).bind ?_))
  refine (reads_le16 h.signatureLength).bind (decodes_u8 (decodes_u8 ?_))
  refine decodes_some?_of hmagic (decodes_some?_of hscheme ?_)
  exact decodes_require fun _ => decodes_require fun _ => reads_pure _

/-- A header with room for itself and a signature is read as it was written, if the signature has a
sanctioned length. -/
theorem read_encode_header {h e : Header} (rest : Bytes)
    (hfits : headerLength + h.signatureLength.toNat ≤ h.length.toNat) :
    Header.decoder.read (h.encode ++ rest) = .ok e ↔
      (ModulusSize.ofBytes? h.signatureLength.toNat).isSome = true ∧ e = h := by
  have hd := decodes_encode_header h
  rw [if_pos (show decide _ = true from decide_eq_true hfits)] at hd
  rw [hd.read_append]
  split
  · rename_i hs
    simp [hs, eq_comm]
  · rename_i hs
    simp [hs]

/-- The lengths in a header are those that were written, so the body is cut out where it was put in. -/
theorem body_of_encode {h : Header} {body signature : Bytes}
    (hlength : h.length.toNat = headerLength + body.length + signature.length)
    (hsignature : h.signatureLength.toNat = signature.length) :
    (⟨h, h.encode ++ (body ++ signature)⟩ : Envelope).body = body := by
  have hsigned : h.signedLength = (h.encode ++ body).length := by
    rw [List.length_append, length_encode_header, Header.signedLength]
    omega
  rw [Envelope.body, Envelope.signed, hsigned, ← List.append_assoc, List.take_left,
    ← length_encode_header h, List.drop_left]

theorem header_eq_ok {d : Draft} {bodyLength signatureLength : Nat} {header : Header}
    (h : d.header bodyLength signatureLength = .ok header) :
    header.length.toNat = headerLength + bodyLength + signatureLength ∧
      header.signatureLength.toNat = signatureLength ∧ header.format = d.format ∧
      header.id = d.id := by
  unfold Draft.header at h
  simp only at h
  split at h
  · cases h
  · rename_i hlt
    cases h
    have hlength : headerLength + bodyLength + signatureLength < UInt16.size := by
      simpa [UInt16.size] using hlt
    have hsignature : signatureLength < UInt16.size := by omega
    exact ⟨UInt16.toNat_ofNat_of_lt' hlength, UInt16.toNat_ofNat_of_lt' hsignature, rfl, rfl⟩

theorem encode_eq_ok {d : Draft} {signature bytes : Bytes} (h : d.encode signature = .ok bytes) :
    ∃ body header, d.encodeBody = .ok body ∧ d.header body.length signature.length = .ok header ∧
      bytes = header.encode ++ (body ++ signature) := by
  obtain ⟨covered, hc, h⟩ := Steps.exceptBind_eq_ok.1 h
  obtain ⟨body, hb, hc⟩ := Steps.exceptBind_eq_ok.1 hc
  obtain ⟨header, hh, hc⟩ := Steps.exceptBind_eq_ok.1 hc
  cases hc
  cases h
  exact ⟨body, header, hb, hh, List.append_assoc ..⟩

/-- An encoded draft is accepted if the signature has a sanctioned length and the contents can be read,
and then these are the contents of the manifest. -/
theorem parse_encode {d : Draft} {signature bytes : Bytes} (h : d.encode signature = .ok bytes) :
    d.LaidOut ∧ ∃ header : Header, header.id = d.id ∧ ∀ m, Manifest.parse bytes = .ok m ↔
      (ModulusSize.ofBytes? signature.length).isSome = true ∧
        d.contents? = some (m.platformId, m.body) ∧ m.envelope = ⟨header, bytes⟩ := by
  obtain ⟨body, header, hb, hh, rfl⟩ := encode_eq_ok h
  obtain ⟨hlaid, hbody⟩ := decodes_encodeBody hb
  obtain ⟨hlength, hsignature, hformat, hid⟩ := header_eq_ok hh
  refine ⟨hlaid, header, hid, fun m => ?_⟩
  have hread : ∀ e, Header.decoder.read (header.encode ++ (body ++ signature)) = .ok e ↔
      (ModulusSize.ofBytes? signature.length).isSome = true ∧ e = header := by
    intro e
    rw [read_encode_header _ (by omega), hsignature]
  have hextent := body_of_encode hlength hsignature
  have hcontents : ∀ c, (contents header.format).on body = (.ok c, []) ↔ d.contents? = some c := by
    intro c
    have hon : (contents d.format).on (body ++ []) = (.ok c, []) ↔ d.contents? = some c ∧ [] = [] :=
      hbody.on_append
    rw [hformat]
    simpa using hon
  rw [parse_eq_ok, hread]
  constructor
  · rintro ⟨⟨hs, he⟩, -, hbytes, hc⟩
    have henv : m.envelope = ⟨header, header.encode ++ (body ++ signature)⟩ := by
      rw [← hbytes, ← he]
    rw [henv, hextent, hcontents] at hc
    exact ⟨hs, hc, henv⟩
  · rintro ⟨hs, hc, he⟩
    rw [he]
    refine ⟨⟨hs, rfl⟩, ?_, rfl, ?_⟩
    · simp only [List.length_append, length_encode_header]
      omega
    · rw [hextent]
      exact (hcontents _).2 hc

theorem isSome_ofBytes? {n : Nat} :
    (ModulusSize.ofBytes? n).isSome = true ↔ n = 256 ∨ n = 384 ∨ n = 512 := by
  rw [ModulusSize.ofBytes?, Coded.ofNumber?, List.find?_isSome]
  constructor
  · rintro ⟨size, -, h⟩
    obtain rfl : size.bytes = n := eq_of_beq h
    cases size with
    | bits2048 => exact .inl rfl
    | bits3072 => exact .inr (.inl rfl)
    | bits4096 => exact .inr (.inr rfl)
  · have hall : ∀ size : ModulusSize, size ∈ Coded.all (α := ModulusSize) := by
      intro size
      cases size <;> decide
    rintro (rfl | rfl | rfl)
    · exact ⟨.bits2048, hall _, rfl⟩
    · exact ⟨.bits3072, hall _, rfl⟩
    · exact ⟨.bits4096, hall _, rfl⟩

/-- Decoding undoes encoding.  An encoded draft is accepted exactly if it is well formed and its signature
has one of the three lengths, and the draft of the manifest is then its normal form. -/
theorem parse_encode_iff {d : Draft} {signature bytes : Bytes}
    (h : d.encode signature = .ok bytes) :
    ((∃ m, Manifest.parse bytes = .ok m) ↔
      (signature.length = 256 ∨ signature.length = 384 ∨ signature.length = 512) ∧ d.WellFormed) ∧
    ∀ m, Manifest.parse bytes = .ok m → ofManifest m = d.normalise := by
  obtain ⟨hlaid, header, hid, hparse⟩ := parse_encode h
  rw [← isSome_ofBytes?, ← exists_contents? hlaid]
  refine ⟨⟨?_, ?_⟩, fun m hm => ?_⟩
  · rintro ⟨m, hm⟩
    obtain ⟨hs, hc, -⟩ := (hparse m).1 hm
    exact ⟨hs, _, hc⟩
  · rintro ⟨hs, c, hc⟩
    exact ⟨⟨⟨header, bytes⟩, c.1, c.2⟩, (hparse _).2 ⟨hs, hc, rfl⟩⟩
  · obtain ⟨-, hc, he⟩ := (hparse m).1 hm
    refine ofManifest_contents? hlaid hc ?_
    rw [Manifest.id, he, hid]

/-- A draft whose firmware says that it has a signed image, and whose only image has a digest, and a key that
is not used. -/
def blockDraft : Draft :=
  { format := .v2
    id := 7
    platformId := [0x41]
    blank := 0xff
    firmware := [
      { id := some "f"
        flags := 0x81
        versions := [
          { version := [0x76]
            address := 0
            rwRegions := [⟨.erase, true, 0x4000, 0x8000⟩]
            images := [
              { algorithm := .sha256
                validateOnBoot := true
                hash := Bytes.zeros 32
                signature := []
                key := [1]
                regions := [⟨0x10, 0x20⟩, ⟨0, 0x10⟩] }] }] }]
    rules := [⟨1, 0, 0xa0, Bytes.zeros 32⟩] }

/-- The encoding of the draft, and the manifest that it is read as. -/
def blockDraftRead? : Option (Bytes × Manifest) :=
  match blockDraft.encode (Bytes.zeros 256) with
  | .error _ => none
  | .ok bytes =>
    match Manifest.parse bytes with
    | .error _ => none
    | .ok m => some (bytes, m)

theorem blockDraft_read : ∃ bytes m, blockDraftRead? = some (bytes, m) ∧
    blockDraft.encode (Bytes.zeros 256) = .ok bytes ∧
    ((∃ m, Manifest.parse bytes = .ok m) ↔
      ((Bytes.zeros 256).length = 256 ∨ (Bytes.zeros 256).length = 384 ∨
        (Bytes.zeros 256).length = 512) ∧ blockDraft.WellFormed) ∧
    Manifest.parse bytes = .ok m ∧ ofManifest m = blockDraft.normalise := by
  have hsome : blockDraftRead?.isSome = true := by decide +kernel
  obtain ⟨⟨bytes, m⟩, h⟩ := Option.isSome_iff_exists.1 hsome
  refine ⟨bytes, m, h, ?_⟩
  unfold blockDraftRead? at h
  split at h
  · cases h
  · rename_i he
    split at h
    · cases h
    · rename_i hm
      cases h
      exact ⟨he, (parse_encode_iff he).1, hm, (parse_encode_iff he).2 m hm⟩

end PlatformGuard.Manifest.Draft
