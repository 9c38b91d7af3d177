import PlatformGuard.Proofs.Reserved

/-!
# Encoding what was decoded

A manifest that was accepted can be encoded again from its draft.  The result is the manifest itself with
zeros in the free places, and it says the same: nothing that a reader accepts is lost or altered by a
draft.
-/

namespace PlatformGuard.Manifest

open Decoder Draft

/-! ### Bodies -/

/-- The free bytes of a body: the counts are filled up to words. -/
def Body.mask : Body → Mask
  | .legacy versions => used 1 ++ free 3 ++ versions.flatMap Version.mask
  | .v2 _ firmware rules =>
    used 2 ++ free 2 ++ firmware.flatMap Firmware.mask ++ used 1 ++ free 3 ++
      rules.flatMap fun _ => SmbusRule.mask

theorem readLegacy_ok {m : Manifest} {s rest : Bytes} (h : Body.readLegacy.on s = (.ok m.body, rest)) :
    m.format = .legacy ∧ ∃ front back, s = front ++ rest ∧ (ofManifest m).encodeLegacy = .ok back ∧
      Restores m.body.mask front back ∧ (ofManifest m).body? = some m.body := by
  obtain ⟨envelope, platformId, body⟩ := m
  obtain ⟨count, s₁, hcount, h⟩ := on_bind_ok.1 h
  obtain ⟨_, s₂, hskip, h⟩ := on_bind_ok.1 h
  obtain ⟨versions, s₃, hversions, h⟩ := on_bind_ok.1 h
  cases h
  rw [readUnsigned_eq] at hversions
  have hlength := length_of_times hversions
  obtain rfl := on_u8_ok hcount
  obtain ⟨gap, hgap, rfl⟩ := on_skip_ok.1 hskip
  obtain ⟨vs, vs', rfl, hvs, hrestores, hrecord⟩ := unsigned_restorable.times _ hversions
  have hhead : Restores (used 1) [count] [count] := .used rfl
  refine ⟨rfl, [count] ++ gap ++ vs, [count] ++ Bytes.zeros 3 ++ vs', by simp, ?_,
    (hhead.append (.free hgap)).append hrestores, ?_⟩
  · simp only [encodeLegacy, ofManifest, Manifest.firmware, Manifest.smbusRules, List.map_cons,
      List.map_nil, Draft.Firmware.ofRecord, Option.map_none, List.length_map, hlength, byte_toNat, hvs]
    rfl
  · have hbody := body?_of_legacy (d := ofManifest ⟨envelope, platformId, .legacy versions⟩) rfl rfl
    rw [hbody, legacyBody?]
    exact Option.map_eq_some_iff.2 ⟨versions, hrecord, rfl⟩

theorem readV2_ok {m : Manifest} {s rest : Bytes} (h : Body.readV2.on s = (.ok m.body, rest)) :
    m.format = .v2 ∧ ∃ front back, s = front ++ rest ∧ (ofManifest m).encodeV2 = .ok back ∧
      Restores m.body.mask front back ∧ (ofManifest m).body? = some m.body := by
  obtain ⟨envelope, platformId, body⟩ := m
  obtain ⟨blank, s₁, hblank, h⟩ := on_bind_ok.1 h
  obtain ⟨count, s₂, hcount, h⟩ := on_bind_ok.1 h
  obtain ⟨_, s₃, hskip, h⟩ := on_bind_ok.1 h
  obtain ⟨firmware, s₄, hfirmware, h⟩ := on_bind_ok.1 h
  obtain ⟨_, s₅, hrequire, h⟩ := on_bind_ok.1 h
  obtain ⟨ruleCount, s₆, hruleCount, h⟩ := on_bind_ok.1 h
  obtain ⟨_, s₇, hskipRules, h⟩ := on_bind_ok.1 h
  obtain ⟨rules, s₈, hrules, h⟩ := on_bind_ok.1 h
  cases h
  have hlength := length_of_times hfirmware
  have hruleLength := length_of_times hrules
  obtain ⟨hdistinct, rfl⟩ := on_require_ok.1 hrequire
  obtain rfl := on_u8_ok hblank
  obtain rfl := on_u8_ok hcount
  obtain ⟨gap, hgap, rfl⟩ := on_skip_ok.1 hskip
  obtain ⟨fs, fs', rfl, hfs, hfsRestores, hfsRecord⟩ := firmware_restorable.times _ hfirmware
  obtain rfl := on_u8_ok hruleCount
  obtain ⟨ruleGap, hruleGap, rfl⟩ := on_skip_ok.1 hskipRules
  obtain ⟨rs, rs', rfl, hrs, hrsRestores, hrsRecord⟩ := smbusRule_restorable.times _ hrules
  have hhead : Restores (used 2) [blank, count] [blank, count] := .used rfl
  have hrule : Restores (used 1) [ruleCount] [ruleCount] := .used rfl
  refine ⟨rfl, [blank, count] ++ gap ++ fs ++ [ruleCount] ++ ruleGap ++ rs,
    [blank, count] ++ Bytes.zeros 2 ++ fs' ++ [ruleCount] ++ Bytes.zeros 3 ++ rs', by simp, ?_,
    ((((hhead.append (.free hgap)).append hfsRestores).append hrule).append (.free hruleGap)).append
      hrsRestores, ?_⟩
  · simp only [encodeV2, ofManifest, Manifest.firmware, Manifest.smbusRules, Manifest.blank,
      List.length_map, hlength, hruleLength, byte_toNat, hfs, hrs]
    change Except.ok _ = Except.ok _
    simp [Bytes.zeros, List.replicate]
  · have hbody := body?_of_v2 (d := ofManifest ⟨envelope, platformId, .v2 blank firmware rules⟩) rfl
    rw [hbody]
    exact v2Body?_eq_some.2 ⟨firmware, rules, hfsRecord, (distinctIds_record? hfsRecord).1 hdistinct,
      hrsRecord, rfl⟩

/-! ### Everything between header and signature -/

def contentsMask (m : Manifest) : Mask :=
  used 1 ++ free 1 ++ used m.platformId.length ++ free (padLength (2 + m.platformId.length)) ++
    m.body.mask

theorem contents_ok {m : Manifest} {format : Format} {s rest : Bytes}
    (h : (contents format).on s = (.ok (m.platformId, m.body), rest)) :
    m.format = format ∧ ∃ front back, s = front ++ rest ∧ (ofManifest m).encodeBody = .ok back ∧
      Restores m.contentsMask front back ∧
      (ofManifest m).contents? = some (m.platformId, m.body) := by
  obtain ⟨length, s₁, hlength, h⟩ := on_bind_ok.1 h
  obtain ⟨gap, s₂, hgap, h⟩ := on_bind_ok.1 h
  obtain ⟨platformId, s₃, hid, h⟩ := on_bind_ok.1 h
  obtain ⟨_, s₄, hskip, h⟩ := on_bind_ok.1 h
  obtain ⟨body, s₅, hbody, h⟩ := on_bind_ok.1 h
  obtain ⟨hpair, rfl⟩ := Prod.mk.inj h
  obtain ⟨rfl, rfl⟩ := Prod.mk.inj (Except.ok.inj hpair)
  obtain rfl := on_u8_ok hlength
  obtain rfl := on_u8_ok hgap
  obtain ⟨hn, hprintable, rfl⟩ := readId_ok hid
  obtain ⟨padding, hpadding, rfl⟩ := on_skip_ok.1 hskip
  rw [← hn] at hpadding
  have hrest : m.format = format ∧ ∃ front back, s₄ = front ++ s₅ ∧
      (ofManifest m).encodeBody =
        .ok ([length, 0] ++ m.platformId ++ pad (2 + m.platformId.length) ++ back) ∧
      Restores m.body.mask front back ∧ (ofManifest m).body? = some m.body := by
    have hfields : (ofManifest m).platformId = m.platformId ∧ (ofManifest m).format = m.format :=
      ⟨rfl, rfl⟩
    rw [encodeBody, hfields.1, hfields.2, hn, byte_toNat, ← hn]
    cases format with
    | legacy =>
      obtain ⟨hf, front, back, hs, hback, hrestores, hrecord⟩ := readLegacy_ok hbody
      refine ⟨hf, front, back, hs, ?_, hrestores, hrecord⟩
      rw [hf]
      change ((ofManifest m).encodeLegacy >>= _) = _
      rw [hback]
      rfl
    | v2 =>
      obtain ⟨hf, front, back, hs, hback, hrestores, hrecord⟩ := readV2_ok hbody
      refine ⟨hf, front, back, hs, ?_, hrestores, hrecord⟩
      rw [hf]
      change ((ofManifest m).encodeV2 >>= _) = _
      rw [hback]
      rfl
  obtain ⟨hformat, front, back, rfl, hback, hrestores, hrecord⟩ := hrest
  have hhead : Restores (used 1 ++ free 1) ([length] ++ [gap]) _ := .head gap rfl
  refine ⟨hformat, [length] ++ [gap] ++ m.platformId ++ padding ++ front, _, by simp, hback,
    ((hhead.append (.used rfl)).append (.free hpadding)).append hrestores,
    contents?_eq_some.2 ⟨isId_iff.1 hprintable, rfl, hrecord⟩⟩

/-! ### Manifests -/

theorem header_ok {bytes : Bytes} {h : Header} (hr : Header.decoder.read bytes = .ok h) :
    (ModulusSize.ofBytes? h.signatureLength.toNat).isSome = true ∧
      ∃ front rest, bytes = front ++ rest ∧ Restores (used 11 ++ free 1) front h.encode := by
  have hon : Header.decoder.on bytes = (.ok h, (Header.decoder.on bytes).2) := Prod.ext hr rfl
  generalize (Header.decoder.on bytes).2 = left at hon
  obtain ⟨length, s₁, hlength, hon⟩ := on_bind_ok.1 hon
  obtain ⟨magic, s₂, hmagic, hon⟩ := on_bind_ok.1 hon
  obtain ⟨id, s₃, hid, hon⟩ := on_bind_ok.1 hon
  obtain ⟨signatureLength, s₄, hsignature, hon⟩ := on_bind_ok.1 hon
  obtain ⟨number, s₅, hnumber, hon⟩ := on_bind_ok.1 hon
  obtain ⟨gap, s₆, hgap, hon⟩ := on_bind_ok.1 hon
  obtain ⟨format, s₇, hformat, hon⟩ := on_bind_ok.1 hon
  obtain ⟨scheme, s₈, hscheme, hon⟩ := on_bind_ok.1 hon
  obtain ⟨_, s₉, hsize, hon⟩ := on_bind_ok.1 hon
  obtain ⟨_, s₁₀, hroom, hon⟩ := on_bind_ok.1 hon
  cases hon
  obtain ⟨hf, rfl⟩ := on_some?_ok.1 hformat
  obtain ⟨hs, rfl⟩ := on_some?_ok.1 hscheme
  obtain ⟨hsome, rfl⟩ := on_require_ok.1 hsize
  obtain ⟨-, rfl⟩ := on_require_ok.1 hroom
  obtain rfl := on_le16_ok hlength
  obtain rfl := on_le16_ok hmagic
  obtain rfl := on_le32_ok hid
  obtain rfl := on_le16_ok hsignature
  obtain rfl := on_u8_ok hnumber
  obtain rfl := on_u8_ok hgap
  generalize hfront : Bytes.le16 length ++ Bytes.le16 magic ++ Bytes.le32 id ++
    Bytes.le16 signatureLength ++ [number] = front
  have hfields : front.length = 11 := by
    rw [← hfront]
    simp [Bytes.le16, Bytes.le32]
  have hencode : Header.encode ⟨length, format, id, signatureLength, scheme⟩ = front ++ Bytes.zeros 1 := by
    have hlast : Bytes.ofNatLE 1 number.toNat = [number] := by
      rw [Bytes.ofNatLE, UInt8.ofNat_toNat]
      rfl
    rw [← hfront, Header.encode, Header.fields, number_of_ofNumber? hf, number_of_ofNumber? hs, hlast]
    simp [Bytes.le16, Bytes.zeros]
  refine ⟨hsome, front ++ [gap], left, by simp [← hfront], ?_⟩
  rw [hencode]
  exact .head gap hfields

/-- The free bytes of a manifest. -/
def mask (m : Manifest) : Mask :=
  used 11 ++ free 1 ++ m.contentsMask ++ used m.signature.length

/-- The parts of the envelope of a manifest. -/
theorem parts_of_parse {bytes front rest : Bytes} {m : Manifest} (h : Manifest.parse bytes = .ok m)
    (hfront : front.length = headerLength) (hbytes : bytes = front ++ rest) :
    bytes = front ++ m.envelope.body ++ m.signature ∧
      m.signature.length = m.envelope.header.signatureLength.toNat := by
  obtain ⟨hr, hl, hb, -⟩ := parse_eq_ok.1 h
  have hle := Header.le_signedLength hr
  have hroom := Header.length_le hr
  have hsigned : m.envelope.signed.take headerLength = front := by
    rw [Envelope.signed, List.take_take, hb, Nat.min_eq_left hle, hbytes, ← hfront, List.take_left]
  refine ⟨?_, ?_⟩
  · rw [← hsigned, Envelope.body, List.take_append_drop, Envelope.signed, Manifest.signature,
      Envelope.signature, List.take_append_drop, hb]
  · rw [Manifest.signature, Envelope.signature, List.length_drop, hb, hl, Header.signedLength]
    omega

/-- **Encoding undoes decoding.**  The draft of a manifest that was accepted is encoded as the manifest
itself, with zeros in the free places, and is had back from that. -/
theorem encode_of_parse {bytes : Bytes} {m : Manifest} (h : Manifest.parse bytes = .ok m) :
    ∃ bytes', (ofManifest m).encode m.signature = .ok bytes' ∧ bytes'.length = bytes.length ∧
      Restores m.mask bytes bytes' ∧
      ∃ m', Manifest.parse bytes' = .ok m' ∧ ofManifest m' = ofManifest m := by
  obtain ⟨hr, hl, hb, hc⟩ := parse_eq_ok.1 h
  obtain ⟨hsize, front, rest, hbytes, hhead⟩ := header_ok hr
  obtain ⟨hformat, body, back, hbody, hback, hrestores, hrecord⟩ := contents_ok hc
  rw [List.append_nil] at hbody
  subst hbody
  have hfront : front.length = headerLength := by
    rw [← hhead.length_mask]
    rfl
  obtain ⟨hparts, hsignature⟩ := parts_of_parse h hfront hbytes
  have hheader : (ofManifest m).header back.length m.signature.length = .ok m.envelope.header := by
    have hlength : headerLength + back.length + m.signature.length =
        m.envelope.header.length.toNat := by
      rw [← hl, hrestores.length_eq, ← hfront, hparts, List.length_append, List.length_append]
    have hlt := m.envelope.header.length.toNat_lt
    rw [Draft.header, hlength, if_neg (by omega), hsignature, UInt16.ofNat_toNat, UInt16.ofNat_toNat]
    change Except.ok (Header.mk _ m.format m.envelope.header.id _ _) = _
    rw [hformat]
  have hencode : (ofManifest m).encode m.signature =
      .ok (m.envelope.header.encode ++ back ++ m.signature) := by
    rw [Draft.encode, encodeSigned, hback]
    change (((ofManifest m).header back.length m.signature.length >>= _ : Except _ Bytes) >>= _) = _
    rw [hheader]
    rfl
  have hwhole : Restores m.mask bytes (m.envelope.header.encode ++ back ++ m.signature) := by
    rw [hparts]
    exact (hhead.append hrestores).append (.used rfl)
  refine ⟨_, hencode, hwhole.length_eq, hwhole, ?_⟩
  obtain ⟨-, header, hid, hparse⟩ := parse_encode hencode
  refine ⟨⟨⟨header, _⟩, m.platformId, m.body⟩, (hparse _).2 ⟨?_, hrecord, rfl⟩, ?_⟩
  · rw [hsignature]
    exact hsize
  · change Draft.mk _ header.id _ _ _ _ = _
    rw [hid]
    rfl

/-- A manifest with something in all of its free bytes, and a rule behind its only image. -/
def cluttered : Bytes :=
  [0x8c, 0x01, 0x6d, 0x70, 7, 0, 0, 0, 0x00, 0x01, 0, 0xe0] ++ [1, 0xe1, 0x41, 0xe2] ++
    [0xff, 1, 0xe3, 0xe4] ++ [1, 1, 0x80, 0xe5, 0x66, 0xe6, 0xe7, 0xe8] ++
    [1, 1, 1, 0xe9, 0, 0, 0, 0, 0x76, 0xea, 0xeb, 0xec] ++
    [6, 0xed, 0xee, 0xef, 0x00, 0x40, 0, 0, 0x00, 0x80, 0, 0] ++
    ([0, 1, 1, 0xf0] ++ List.replicate 32 0x5a ++ [0, 0, 0, 0, 0, 0, 1, 0]) ++ [1, 0xf1, 0xf2, 0xf3] ++
    ([2, 0xf4, 0xf5, 0xf6, 0xf7, 1, 0, 0xa0] ++ List.replicate 32 0xff) ++ List.replicate 256 0x99

theorem cluttered_restored : ∃ m, Manifest.parse cluttered = .ok m ∧
    ∃ bytes', (ofManifest m).encode m.signature = .ok bytes' ∧ bytes'.length = cluttered.length ∧
      Restores m.mask cluttered bytes' ∧
      ∃ m', Manifest.parse bytes' = .ok m' ∧ ofManifest m' = ofManifest m := by
  have hsome : (Manifest.parse cluttered).toOption.isSome = true := by decide +kernel
  obtain ⟨m, hm⟩ := Option.isSome_iff_exists.1 hsome
  have hm : Manifest.parse cluttered = .ok m := Steps.toOption_eq_some.1 hm
  exact ⟨m, hm, encode_of_parse hm⟩

end PlatformGuard.Manifest
