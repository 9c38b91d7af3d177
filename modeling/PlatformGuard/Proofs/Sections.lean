import PlatformGuard.Recovery
import PlatformGuard.Proofs.RoundTrip

/-!
# What a recovery image is

Recovery images have a grammar: a header, a platform id behind its length, sections one behind the other,
and a signature.  The parser accepts exactly the images of this grammar.  It keeps the bytes of the
sections and reads them a second time when it is asked for them; what it then gives is the decomposition
by which the image was accepted, for each of the two passes undoes the encoding of sections.
-/

namespace PlatformGuard

open Decoder

namespace Recovery

/-! ### Headers -/

theorem SectionHeader.on_decoder_ok {h : SectionHeader} {bs rest : Bytes} :
    SectionHeader.decoder.on bs = (.ok h, rest) ↔
      h.region.limit < addressLimit ∧ bs = h.encode ++ rest := by
  constructor
  · intro hread
    obtain ⟨length, s₁, hlength, hread⟩ := on_bind_ok.1 hread
    obtain ⟨format, s₂, hformat, hread⟩ := on_bind_ok.1 hread
    obtain ⟨magic, s₃, hmagic, hread⟩ := on_bind_ok.1 hread
    obtain ⟨address, s₄, haddress, hread⟩ := on_bind_ok.1 hread
    obtain ⟨dataLength, s₅, hdataLength, hread⟩ := on_bind_ok.1 hread
    obtain ⟨_, s₆, hsize, hread⟩ := on_bind_ok.1 hread
    obtain ⟨_, s₇, hknown, hread⟩ := on_bind_ok.1 hread
    obtain ⟨_, s₈, hend, hread⟩ := on_bind_ok.1 hread
    cases hread
    obtain ⟨hlength', rfl⟩ := on_require_ok.1 hsize
    obtain ⟨hmagic', rfl⟩ := on_require_ok.1 hknown
    obtain ⟨hlimit, rfl⟩ := on_require_ok.1 hend
    obtain rfl := on_le16_ok hlength
    obtain rfl := on_le16_ok hformat
    obtain rfl := on_le32_ok hmagic
    obtain rfl := on_le32_ok haddress
    obtain rfl := on_le32_ok hdataLength
    refine ⟨Region.isSome_end?.1 hlimit, ?_⟩
    rw [encode, ← eq_of_beq hlength', ← eq_of_beq hmagic']
    simp only [List.append_assoc]
    rfl
  · rintro ⟨hlimit, rfl⟩
    have hreads : Reads SectionHeader.decoder h.encode h := by
      rw [encode, List.append_assoc, List.append_assoc, List.append_assoc]
      refine (reads_le16 16).bind ?_
      refine (reads_le16 h.format).bind ?_
      refine (reads_le32 sectionMagic).bind ?_
      refine (reads_le32 h.region.address).bind ?_
      refine (reads_le32 h.region.length).bind_last ?_
      refine decodes_require_of rfl (decodes_require_of (beq_self_eq_true _) ?_)
      exact decodes_require_of (Region.isSome_end?.2 hlimit) (reads_pure h)
    exact hreads rest

/-- Images of some formats cancel a key or take the platform out of service, all others carry firmware; each
of the two classes has a magic number. -/
inductive Header.Marked : UInt16 → UInt32 → Prop
  | cancellation {format : UInt16} : format = 4 ∨ format = 5 → Marked format 0xb6eafd19
  | firmware {format : UInt16} : format ≠ 4 → format ≠ 5 → Marked format 0x8a147c29

theorem Header.marked_iff {format : UInt16} {magic : UInt32} :
    Header.Marked format magic ↔ magic = Header.magicOf format := by
  have hclass : Header.isCancellationFormat format = true ↔ format = 4 ∨ format = 5 := by
    simp [Header.isCancellationFormat]
  unfold Header.magicOf
  constructor
  · rintro (hformat | ⟨h₄, h₅⟩)
    · rw [if_pos (hclass.2 hformat)]
    · rw [if_neg fun h => (hclass.1 h).elim h₄ h₅]
  · rintro rfl
    by_cases h : Header.isCancellationFormat format = true
    · rw [if_pos h]
      exact .cancellation (hclass.1 h)
    · rw [if_neg h]
      exact .firmware (fun h₄ => h (hclass.2 (.inl h₄))) fun h₅ => h (hclass.2 (.inr h₅))

/-- A header with a magic number of its format. -/
structure Header.WellFormed (h : Header) : Prop where
  version : h.versionId.length = 32
  magic : Header.Marked h.format h.magic

theorem Header.on_decoder_ok {h : Header} {bs rest : Bytes} :
    Header.decoder.on bs = (.ok h, rest) ↔ h.WellFormed ∧ bs = h.encode ++ rest := by
  constructor
  · intro hread
    obtain ⟨length, s₁, hlength, hread⟩ := on_bind_ok.1 hread
    obtain ⟨format, s₂, hformat, hread⟩ := on_bind_ok.1 hread
    obtain ⟨magic, s₃, hmagic, hread⟩ := on_bind_ok.1 hread
    obtain ⟨versionId, s₄, hversion, hread⟩ := on_bind_ok.1 hread
    obtain ⟨imageLength, s₅, himage, hread⟩ := on_bind_ok.1 hread
    obtain ⟨signatureLength, s₆, hsignature, hread⟩ := on_bind_ok.1 hread
    obtain ⟨_, s₇, hsize, hread⟩ := on_bind_ok.1 hread
    obtain ⟨_, s₈, hknown, hread⟩ := on_bind_ok.1 hread
    cases hread
    obtain ⟨hlength', rfl⟩ := on_require_ok.1 hsize
    obtain ⟨hmagic', rfl⟩ := on_require_ok.1 hknown
    obtain rfl := on_le16_ok hlength
    obtain rfl := on_le16_ok hformat
    obtain rfl := on_le32_ok hmagic
    obtain ⟨hversion', rfl⟩ := on_take_ok.1 hversion
    obtain rfl := on_le32_ok himage
    obtain rfl := on_le32_ok hsignature
    refine ⟨⟨hversion', Header.marked_iff.2 (eq_of_beq hmagic')⟩, ?_⟩
    rw [encode, ← eq_of_beq hlength']
    simp only [List.append_assoc]
    rfl
  · rintro ⟨hh, rfl⟩
    have hreads : Reads Header.decoder h.encode h := by
      rw [encode, List.append_assoc, List.append_assoc, List.append_assoc, List.append_assoc]
      refine (reads_le16 48).bind ?_
      refine (reads_le16 h.format).bind ?_
      refine (reads_le32 h.magic).bind ?_
      refine (reads_take hh.version).bind ?_
      refine (reads_le32 h.imageLength).bind ?_
      refine (reads_le32 h.signatureLength).bind_last ?_
      have hmagic := beq_of_eq (Header.marked_iff.1 hh.magic)
      exact decodes_require_of rfl (decodes_require_of hmagic (reads_pure h))
    exact hreads rest

theorem Header.read_decoder_ok {h : Header} {b : Bytes} :
    Header.decoder.read b = .ok h ↔ h.WellFormed ∧ h.encode <+: b := by
  rw [read_eq_on]
  constructor
  · intro hread
    obtain ⟨hh, hb⟩ := Header.on_decoder_ok.1 (Prod.ext hread rfl)
    exact ⟨hh, _, hb.symm⟩
  · rintro ⟨hh, rest, hb⟩
    rw [Header.on_decoder_ok.2 ⟨hh, hb.symm⟩]

/-! ### Sections -/

/-- A section that ends inside the address space and has as much data as its header says. -/
structure Section.WellFormed (s : Section) : Prop where
  limit : s.header.region.limit < addressLimit
  length : s.data.length = s.header.region.length.toNat

theorem Section.on_decoder_ok {s : Section} {bs rest : Bytes} :
    Section.decoder.on bs = (.ok s, rest) ↔ s.WellFormed ∧ bs = s.encode ++ rest := by
  rw [encode, List.append_assoc]
  constructor
  · intro hread
    obtain ⟨header, s₁, hheader, hread⟩ := on_bind_ok.1 hread
    obtain ⟨data, s₂, hdata, hread⟩ := on_bind_ok.1 hread
    cases hread
    obtain ⟨hlimit, rfl⟩ := SectionHeader.on_decoder_ok.1 hheader
    obtain ⟨hlength, rfl⟩ := on_take_ok.1 hdata
    exact ⟨⟨hlimit, hlength⟩, rfl⟩
  · rintro ⟨hs, rfl⟩
    refine on_bind_ok.2 ⟨s.header, _, SectionHeader.on_decoder_ok.2 ⟨hs.limit, rfl⟩, ?_⟩
    exact on_bind_ok.2 ⟨s.data, _, on_take_ok.2 ⟨hs.length, rfl⟩, rfl⟩

theorem Section.encode_ne_nil (s : Section) : s.encode ≠ [] := by
  intro h
  have := congrArg List.length h
  simp [encode, SectionHeader.encode, Bytes.le16, Bytes.length_ofNatLE] at this

/-- Sections one behind the other. -/
def encodeAll (ss : List Section) : Bytes := ss.flatMap Section.encode

theorem encodeAll_cons (s : Section) (ss : List Section) :
    encodeAll (s :: ss) = s.encode ++ encodeAll ss := rfl

section passes
variable {bs rest : Bytes} {s : Section}

theorem encode_append_ne_nil : s.encode ++ rest ≠ [] := by
  intro h
  exact s.encode_ne_nil (List.append_eq_nil_iff.1 h).1

theorem checkSections_read (h : Section.decoder.on bs = (.ok s, rest)) (hne : bs ≠ []) :
    checkSections bs = checkSections rest := by
  rw [checkSections, if_neg hne]
  split
  case h_1 herror => rw [h] at herror; cases herror
  case h_2 hok => rw [h] at hok; cases hok; rfl

theorem checkSections_error {e : Error} (h : Section.decoder.on bs = (.error e, rest)) (hne : bs ≠ []) :
    checkSections bs = .error e := by
  rw [checkSections, if_neg hne]
  split
  case h_1 herror => rw [h] at herror; cases herror; rfl
  case h_2 hok => rw [h] at hok; cases hok

/-- What passes the check is the encoding of sections, and it passes. -/
theorem checkSections_eq_ok :
    checkSections bs = .ok () ↔ ∃ ss : List Section, (∀ s ∈ ss, s.WellFormed) ∧ bs = encodeAll ss := by
  constructor
  · intro h
    induction bs using checkSections.induct with
    | case1 => exact ⟨[], nofun, rfl⟩
    | case2 bs hne e rest hread =>
      rw [checkSections_error hread hne] at h
      cases h
    | case3 bs hne s rest hread ih =>
      rw [checkSections_read hread hne] at h
      obtain ⟨ss, hss, rfl⟩ := ih h
      obtain ⟨hs, rfl⟩ := Section.on_decoder_ok.1 hread
      exact ⟨s :: ss, List.forall_mem_cons.2 ⟨hs, hss⟩, rfl⟩
  · rintro ⟨ss, hss, rfl⟩
    induction ss with
    | nil => rw [encodeAll, List.flatMap_nil, checkSections, if_pos rfl]
    | cons s ss ih =>
      obtain ⟨hs, hss⟩ := List.forall_mem_cons.1 hss
      have hread := Section.on_decoder_ok.2 ⟨hs, encodeAll_cons s ss⟩
      rw [checkSections_read hread encode_append_ne_nil, ih hss]

/-- The second pass gives back the sections, all of them and in order. -/
theorem sectionsOf_encodeAll {ss : List Section} (hss : ∀ s ∈ ss, s.WellFormed) :
    sectionsOf (encodeAll ss) = ss := by
  induction ss with
  | nil => rw [sectionsOf]; rfl
  | cons s ss ih =>
    obtain ⟨hs, hss⟩ := List.forall_mem_cons.1 hss
    have hread := Section.on_decoder_ok.2 ⟨hs, encodeAll_cons s ss⟩
    have hnext : nextSection? (encodeAll (s :: ss)) = some (s, encodeAll ss) :=
      nextSection?_eq_some.2 ⟨encode_append_ne_nil, hread⟩
    rw [sectionsOf]
    split
    case h_1 hnone => rw [hnext] at hnone; cases hnone
    case h_2 hsome => rw [hnext] at hsome; cases hsome; rw [ih hss]

end passes

end Recovery

/-! ### Images -/

namespace RecoveryImage

open Recovery

theorem on_platformIdDecoder_ok {id bs rest : Bytes} :
    platformIdDecoder.on bs = (.ok id, rest) ↔
      id.length < 256 ∧ bs = UInt8.ofNat id.length :: (id ++ rest) := by
  constructor
  · intro hread
    obtain ⟨length, s₁, hlength, htake⟩ := on_bind_ok.1 hread
    obtain rfl := on_u8_ok hlength
    obtain ⟨hid, rfl⟩ := on_take_ok.1 htake
    rw [hid, UInt8.ofNat_toNat]
    exact ⟨length.toNat_lt, rfl⟩
  · rintro ⟨hid, rfl⟩
    have hlength : id.length = (UInt8.ofNat id.length).toNat := (UInt8.toNat_ofNat_of_lt' hid).symm
    have hreads : Reads platformIdDecoder (UInt8.ofNat id.length :: id) id :=
      decodes_u8 (reads_take hlength)
    exact hreads rest

theorem contents_eq_ok {body id bs : Bytes} :
    contents body = .ok (id, bs) ↔ id.length < 256 ∧ body = UInt8.ofNat id.length :: (id ++ bs) ∧
      checkSections bs = .ok () := by
  rw [← and_assoc, ← on_platformIdDecoder_ok]
  unfold contents
  rcases platformIdDecoder.on body with ⟨e | id', rest⟩
  · simp
  · rw [Steps.map_eq_ok]
    constructor
    · rintro ⟨_, hcheck, hcontents⟩
      cases hcontents
      exact ⟨rfl, hcheck⟩
    · rintro ⟨hread, hcheck⟩
      cases hread
      exact ⟨(), hcheck, rfl⟩

/-- What it means that a byte string starts with an image that has this header, this platform id and these
sections. -/
structure IsImage (b : Bytes) (h : Header) (id : Bytes) (ss : List Section) : Prop where
  header : h.encode <+: b
  wellFormed : h.WellFormed
  signatureLength : h.signatureLength.toNat = 256 ∨ h.signatureLength.toNat = 384 ∨
    h.signatureLength.toNat = 512
  complete : h.imageLength.toNat ≤ b.length
  room : 49 + h.signatureLength.toNat ≤ h.imageLength.toNat
  idLength : id.length < 256
  sections : ∀ s ∈ ss, s.WellFormed
  /-- What stands between the header and the signature. -/
  body : (b.take (h.imageLength.toNat - h.signatureLength.toNat)).drop 48 =
    UInt8.ofNat id.length :: (id ++ encodeAll ss)

/-- A check that throws is passed by a success. -/
theorem checked_eq_ok {ε α β : Type} {c : Prop} [Decidable c] {e : ε} {f : α → Except ε β}
    {x : Except ε β} {b : β} :
    (if c then throw e >>= f else x) = .ok b ↔ ¬ c ∧ x = .ok b := by
  split
  · exact ⟨nofun, fun h => absurd ‹c› h.1⟩
  · simp [*]

/-- An image is accepted with these parts. -/
theorem parse_eq_ok {b : Bytes} {i : RecoveryImage} :
    parse b = .ok i ↔ ∃ ss, IsImage b i.header i.platformId ss ∧ i.sectionBytes = encodeAll ss ∧
      i.signed = b.take (i.header.imageLength.toNat - i.header.signatureLength.toNat) ∧
      i.signature = (b.take i.header.imageLength.toNat).drop
        (i.header.imageLength.toNat - i.header.signatureLength.toNat) := by
  unfold parse
  simp only [Steps.exceptBind_eq_ok, checked_eq_ok, Header.read_decoder_ok, contents_eq_ok, Prod.exists,
    Bool.not_eq_true, Option.isNone_eq_false_iff, Manifest.Draft.isSome_ofBytes?, Nat.not_lt,
    checkSections_eq_ok, List.take_take, Nat.min_eq_left (Nat.sub_le _ _)]
  constructor
  · rintro ⟨h, ⟨hh, hheader⟩, hsignature, hcomplete, hroom, id, _, ⟨hid, hbody, ss, hss, rfl⟩, hi⟩
    cases hi
    exact ⟨ss, ⟨hheader, hh, hsignature, hcomplete, hroom, hid, hss, hbody⟩,
      rfl, rfl, rfl⟩
  · rintro ⟨ss, hb, hbytes, hsigned, hsignature⟩
    refine ⟨i.header, ⟨hb.wellFormed, hb.header⟩, hb.signatureLength, hb.complete,
      hb.room, i.platformId, _, ⟨hb.idLength, hb.body, ss, hb.sections, rfl⟩, ?_⟩
    rw [← hbytes, ← hsigned, ← hsignature]
    rfl

theorem parse_of_isImage {b id : Bytes} {h : Header} {ss : List Section} (hb : IsImage b h id ss) :
    ∃ i, parse b = .ok i ∧ i.header = h ∧ i.platformId = id ∧ i.sections = ss := by
  let i : RecoveryImage :=
    { header := h
      platformId := id
      sectionBytes := encodeAll ss
      signed := b.take (h.imageLength.toNat - h.signatureLength.toNat)
      signature :=
        (b.take h.imageLength.toNat).drop (h.imageLength.toNat - h.signatureLength.toNat) }
  have hi : parse b = .ok i := parse_eq_ok.2 ⟨ss, hb, rfl, rfl, rfl⟩
  exact ⟨i, hi, rfl, rfl, sectionsOf_encodeAll hb.sections⟩

/-- **The grammar of recovery images.**  The parser accepts a byte string exactly if it starts with an image.
There is then one header, one platform id and one list of sections of which it is the image, and these are
what the parsed image says.  Its sections are those of that list, all of them and in order, and their
encodings one behind the other are the bytes that it holds. -/
theorem parse_iff_isImage (b : Bytes) :
    ((∃ i, parse b = .ok i) ↔ ∃ h id ss, IsImage b h id ss) ∧
    ∀ i, parse b = .ok i →
      (∀ h id ss, IsImage b h id ss ↔ h = i.header ∧ id = i.platformId ∧ ss = i.sections) ∧
      encodeAll i.sections = i.sectionBytes := by
  refine ⟨⟨?_, ?_⟩, fun i hi => ?_⟩
  · rintro ⟨i, hi⟩
    obtain ⟨ss, hb, -⟩ := parse_eq_ok.1 hi
    exact ⟨i.header, i.platformId, ss, hb⟩
  · rintro ⟨h, id, ss, hb⟩
    obtain ⟨i, hi, -⟩ := parse_of_isImage hb
    exact ⟨i, hi⟩
  · obtain ⟨ss, hb, hbytes, -⟩ := parse_eq_ok.1 hi
    have hsections : i.sections = ss := by rw [sections, hbytes, sectionsOf_encodeAll hb.sections]
    refine ⟨fun h id ss' => ⟨fun hb' => ?_, ?_⟩, by rw [hsections, hbytes]⟩
    · obtain ⟨i', hi', hh, hid, hss⟩ := parse_of_isImage hb'
      obtain rfl := Except.ok.inj (hi.symm.trans hi')
      exact ⟨hh.symm, hid.symm, hss.symm⟩
    · rintro ⟨rfl, rfl, rfl⟩
      rwa [hsections]

/-- A header for an image of 341 bytes. -/
def boardHeader : Header :=
  { format := 1
    magic := 0x8a147c29
    versionId := List.replicate 32 0x11
    imageLength := 341
    signatureLength := 256 }

/-- A section without data, and one with three bytes of it that end where the address space does. -/
def boardSections : List Section :=
  [⟨⟨0, ⟨0x1000, 0⟩⟩, []⟩, ⟨⟨7, ⟨0xfffffffc, 3⟩⟩, [1, 2, 3]⟩]

/-- The image, and a byte behind it. -/
def boardImage : Bytes :=
  boardHeader.encode ++ (1 :: 0x42 :: encodeAll boardSections) ++ List.replicate 256 0 ++ [0xff]

theorem boardImage_isImage : IsImage boardImage boardHeader [0x42] boardSections where
  header := by
    rw [boardImage, List.append_assoc, List.append_assoc]
    exact List.prefix_append _ _
  wellFormed := ⟨rfl, .firmware (by decide) (by decide)⟩
  signatureLength := .inl rfl
  complete := by decide +kernel
  room := by decide
  idLength := by decide
  sections := List.forall_mem_cons.2 ⟨⟨by decide, rfl⟩, List.forall_mem_cons.2 ⟨⟨by decide, rfl⟩, nofun⟩⟩
  body := by rfl

/-- An empty section does not end the sections. -/
theorem boardImage_sections : ∃ i, parse boardImage = .ok i ∧ i.header = boardHeader ∧
    i.platformId = [0x42] ∧ i.sections = boardSections ∧ encodeAll boardSections = i.sectionBytes := by
  have himage := boardImage_isImage
  obtain ⟨i, hi⟩ := (parse_iff_isImage boardImage).1.2 ⟨_, _, _, himage⟩
  obtain ⟨hparts, hencode⟩ := (parse_iff_isImage boardImage).2 i hi
  obtain ⟨hheader, hid, hsections⟩ := (hparts _ _ _).1 himage
  exact ⟨i, hi, hheader.symm, hid.symm, hsections.symm, hsections ▸ hencode⟩

end RecoveryImage

end PlatformGuard
