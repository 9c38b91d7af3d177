import PlatformGuard.Engines
import PlatformGuard.Region

/-!
# Recovery images

A recovery image carries the firmware that a platform is restored from: a header, a platform id,
sections for the flash, and a signature over all of it.
-/

namespace PlatformGuard

namespace Recovery

/-- Why a recovery image is refused. -/
inductive Error where
  | badMagic (found : UInt32)
  | badLength
  /-- The image is shorter than it claims. -/
  | truncated
  | badSignatureLen
  | badSection
  | verifyFailed
  deriving DecidableEq, Repr

namespace Error

def plain : List Error := [badLength, truncated, badSignatureLen, badSection, verifyFailed]

def label : Error → String
  | badMagic n => Status.withPayload "BadMagic" (toString n.toNat)
  | badLength => "BadLength"
  | truncated => "Truncated"
  | badSignatureLen => "BadSignatureLen"
  | badSection => "BadSection"
  | verifyFailed => "VerifyFailed"

instance : Status Error where
  subsystem _ := .recovery
  localCode
    | badMagic _ => 0
    | badLength => 1
    | truncated => 2
    | badSignatureLen => 3
    | badSection => 4
    | verifyFailed => 5
  label := label
  ofLabel? s :=
    Status.find? label plain s
      <|> Status.numbered? "BadMagic" (fun n => badMagic (UInt32.ofNat n)) s

instance : Truncation Error := ⟨truncated⟩

def ofBytes (_ : Bytes.Error) : Error := truncated

end Error

/-! ### Headers -/

/-- The length of an encoded header. -/
def headerLength : Nat := 48

/-- The header of a recovery image. -/
structure Header where
  format : UInt16
  magic : UInt32
  versionId : Bytes
  /-- The length of the whole image. -/
  imageLength : UInt32
  signatureLength : UInt32
  deriving DecidableEq, Repr

namespace Header

/-- Whether an image of this format cancels a key or takes the platform out of service. -/
def isCancellationFormat (format : UInt16) : Bool := format == 4 || format == 5

def isCancellation (h : Header) : Bool := isCancellationFormat h.format

/-- The magic number that belongs to a format. -/
def magicOf (format : UInt16) : UInt32 :=
  if isCancellationFormat format then 0xb6eafd19 else 0x8a147c29

def decoder : Decoder Error Header := do
  let length ← Decoder.le16
  let format ← Decoder.le16
  let magic ← Decoder.le32
  let versionId ← Decoder.take 32
  let imageLength ← Decoder.le32
  let signatureLength ← Decoder.le32
  Decoder.require (length.toNat == headerLength) .badLength
  Decoder.require (magic == magicOf format) (.badMagic magic)
  return { format, magic, versionId, imageLength, signatureLength }

/-- The header as it is stored. -/
def encode (h : Header) : Bytes :=
  Bytes.ofNatLE 2 headerLength ++ Bytes.le16 h.format ++ Bytes.le32 h.magic ++ h.versionId
    ++ Bytes.le32 h.imageLength ++ Bytes.le32 h.signatureLength

end Header

/-! ### Sections -/

/-- The length of an encoded section header. -/
def sectionHeaderLength : Nat := 16

def sectionMagic : UInt32 := 0x4b172f31

/-- The header of a section: where its data belongs in flash. -/
structure SectionHeader where
  format : UInt16
  region : Region
  deriving DecidableEq, Repr

def SectionHeader.decoder : Decoder Error SectionHeader := do
  let length ← Decoder.le16
  let format ← Decoder.le16
  let magic ← Decoder.le32
  let address ← Decoder.le32
  let dataLength ← Decoder.le32
  let region : Region := ⟨address, dataLength⟩
  Decoder.require (length.toNat == sectionHeaderLength) .badSection
  Decoder.require (magic == sectionMagic) .badSection
  Decoder.require region.end?.isSome .badSection
  return { format, region }

/-- The header as it is stored. -/
def SectionHeader.encode (h : SectionHeader) : Bytes :=
  Bytes.ofNatLE 2 sectionHeaderLength ++ Bytes.le16 h.format ++ Bytes.le32 sectionMagic
    ++ Bytes.le32 h.region.address ++ Bytes.le32 h.region.length

structure Section where
  header : SectionHeader
  data : Bytes
  deriving DecidableEq, Repr

def Section.encode (s : Section) : Bytes := s.header.encode ++ s.data

def Section.decoder : Decoder Error Section := do
  let header ← SectionHeader.decoder
  let data ← Decoder.take header.region.length.toNat
  return { header, data }

theorem SectionHeader.sized_decoder : Decoder.Sized sectionHeaderLength SectionHeader.decoder := by
  have h16 : Decoder.Sized 2 (Decoder.le16 : Decoder Error UInt16) :=
    ((Decoder.sized_take 2).map _).map _
  have h32 : Decoder.Sized 4 (Decoder.le32 : Decoder Error UInt32) :=
    ((Decoder.sized_take 4).map _).map _
  refine h16.bind (n := 14) (fun _ => ?_) rfl
  refine h16.bind (n := 12) (fun _ => ?_) rfl
  refine h32.bind (n := 8) (fun _ => ?_) rfl
  refine h32.bind (n := 4) (fun _ => ?_) rfl
  refine h32.bind (n := 0) (fun _ => ?_) rfl
  refine (Decoder.sized_require _ _).bind (n := 0) (fun _ => ?_) rfl
  refine (Decoder.sized_require _ _).bind (n := 0) (fun _ => ?_) rfl
  refine (Decoder.sized_require _ _).bind (n := 0) (fun _ => ?_) rfl
  exact Decoder.sized_pure _

/-- A section is never empty, whatever length it declares. -/
theorem Section.length_lt {bs rest : Bytes} {s : Section}
    (h : Section.decoder.on bs = (.ok s, rest)) : rest.length < bs.length := by
  obtain ⟨header, t, hheader, h⟩ := Decoder.on_bind_ok.1 h
  obtain ⟨data, u, hdata, h⟩ := Decoder.on_bind_ok.1 h
  have hu : u.length = 0 + rest.length := Decoder.sized_pure _ h
  have ht := SectionHeader.sized_decoder hheader
  have := Decoder.sized_take _ hdata
  rw [sectionHeaderLength] at ht
  omega

/-- Reads sections until the bytes are used up. -/
def checkSections (bs : Bytes) : Except Error Unit :=
  if bs = [] then .ok ()
  else
    match _h : Section.decoder.on bs with
    | (.error e, _) => .error e
    | (.ok _, rest) => checkSections rest
termination_by bs.length
decreasing_by exact Section.length_lt ‹_›

/-- The section at the front, and the bytes behind it. -/
def nextSection? (bs : Bytes) : Option (Section × Bytes) :=
  if bs = [] then none
  else
    match Section.decoder.on bs with
    | (.error _, _) => none
    | (.ok s, rest) => some (s, rest)

theorem nextSection?_eq_some {bs rest : Bytes} {s : Section} :
    nextSection? bs = some (s, rest) ↔ bs ≠ [] ∧ Section.decoder.on bs = (.ok s, rest) := by
  unfold nextSection?
  split
  · simp_all
  · split <;> simp_all

/-- The sections from the front on, up to the first that cannot be read. -/
def sectionsOf (bs : Bytes) : List Section :=
  match _h : nextSection? bs with
  | none => []
  | some (s, rest) => s :: sectionsOf rest
termination_by bs.length
decreasing_by exact Section.length_lt (nextSection?_eq_some.1 ‹_›).2

end Recovery

/-- A recovery image. -/
structure RecoveryImage where
  header : Recovery.Header
  platformId : Bytes
  /-- The sections as they are stored. -/
  sectionBytes : Bytes
  /-- The bytes that the signature covers. -/
  signed : Bytes
  signature : Bytes
  deriving DecidableEq, Repr

namespace RecoveryImage

open Recovery

/-- The platform id at the front of a body. -/
def platformIdDecoder : Decoder Error Bytes := do
  let length ← Decoder.u8
  Decoder.take length.toNat

/-- The platform id, and the bytes of the sections behind it. -/
def contents (body : Bytes) : Except Error (Bytes × Bytes) :=
  match platformIdDecoder.on body with
  | (.error e, _) => .error e
  | (.ok id, rest) => (checkSections rest).map fun _ => (id, rest)

/-- The image at the front of a byte string; its header says where it ends. -/
def parse (bytes : Bytes) : Except Error RecoveryImage := do
  let header ← Header.decoder.read bytes
  let length := header.imageLength.toNat
  let signatureLength := header.signatureLength.toNat
  if (ModulusSize.ofBytes? signatureLength).isNone then throw .badSignatureLen
  if bytes.length < length then throw .truncated
  if length < headerLength + 1 + signatureLength then throw .badLength
  let image := bytes.take length
  let signed := image.take (length - signatureLength)
  let (platformId, sectionBytes) ← contents (signed.drop headerLength)
  let signature := image.drop (length - signatureLength)
  return { header, platformId, sectionBytes, signed, signature }

/-- The sections, read from their bytes one at a time. -/
def sections (i : RecoveryImage) : List Section := sectionsOf i.sectionBytes

/-- Checks the signature under a key. -/
def verify {η ν : Type} [Hash.Engine η] [Signature.Verifier ν] (i : RecoveryImage)
    (key : PublicKey) : ExceptT Error (StateM (Engines η ν)) Unit :=
  Engines.verifySigned .verifyFailed key i.signed i.signature none

end RecoveryImage

end PlatformGuard
