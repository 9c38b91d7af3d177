import PlatformGuard.Engines
import PlatformGuard.Manifest

/-!
# Drafts

A draft is a manifest before it is encoded and signed.  `Draft.encode` writes it in the format that
`Manifest.parse` reads, and `Draft.ofManifest` gives the draft of a manifest that was read.  A draft
may hold what no manifest can; encoding refuses what the lengths and counts of the format cannot say.
-/

namespace PlatformGuard.Manifest

/-! ### The parts of a draft -/

/-- Addresses from `first` up to but not including `last`. -/
structure Draft.Bounds where
  first : UInt32
  last : UInt32
  deriving DecidableEq, Repr

/-- A region that the host may write. -/
structure Draft.RwRegion where
  policy : FailurePolicy
  updateOnly : Bool
  first : UInt32
  last : UInt32
  deriving DecidableEq, Repr

/-- An image; it is checked by its signature if that is not empty, and else by its hash. -/
structure Draft.Image where
  algorithm : Hash.Algorithm
  validateOnBoot : Bool
  hash : Bytes
  signature : Bytes
  /-- The blob of the key that the signature was made with. -/
  key : Bytes
  regions : List Draft.Bounds
  deriving DecidableEq, Repr

structure Draft.Version where
  version : Bytes
  address : UInt32
  rwRegions : List Draft.RwRegion
  images : List Draft.Image
  deriving DecidableEq, Repr

structure Draft.Firmware where
  id : Option String
  /-- The flags of the vendor; the flag for signed images follows from the images. -/
  flags : UInt8
  versions : List Draft.Version
  deriving DecidableEq, Repr

structure Draft.SmbusRule where
  bus : UInt8
  rule : UInt8
  device : UInt8
  passlist : Bytes
  deriving DecidableEq, Repr

/-- A manifest that is not encoded. -/
structure Draft where
  format : Format
  id : UInt32
  platformId : Bytes
  /-- The value of an erased byte; the legacy format has no place for it. -/
  blank : UInt8
  firmware : List Draft.Firmware
  rules : List Draft.SmbusRule
  deriving DecidableEq, Repr

namespace Draft

/-! ### Failures -/

/-- Why a draft cannot be encoded or signed. -/
inductive Error where
  | stringTooLong
  /-- A list or the whole manifest is too long. -/
  | tooManyElements
  /-- A firmware of the second format has no id, or one of the legacy format has one. -/
  | badFirmwareId
  /-- A legacy manifest has exactly one firmware and no rules. -/
  | badLegacyLayout
  | badHashLength
  | badSignatureLength
  | keyTooLong
  | badPasslist
  | bytes (cause : Bytes.Error)
  | hash (cause : Hash.Error)
  | signature (cause : Signature.Error)
  | manifest (cause : Manifest.Error)
  deriving DecidableEq, Repr

namespace Error

def plain : List Error :=
  [stringTooLong, tooManyElements, badFirmwareId, badLegacyLayout, badHashLength, badSignatureLength,
    keyTooLong, badPasslist]

def label : Error → String
  | stringTooLong => "StringTooLong"
  | tooManyElements => "TooManyElements"
  | badFirmwareId => "BadFirmwareId"
  | badLegacyLayout => "BadLegacyLayout"
  | badHashLength => "BadHashLength"
  | badSignatureLength => "BadSignatureLength"
  | keyTooLong => "KeyTooLong"
  | badPasslist => "BadPasslist"
  | bytes e => Status.withPayload "Io" (Status.label e)
  | hash e => Status.withPayload "Hash" (Status.label e)
  | signature e => Status.withPayload "Sig" (Status.label e)
  | manifest e => Status.withPayload "Manifest" (Status.label e)

instance : Status Error where
  subsystem _ := .manifest
  localCode
    | stringTooLong => 0x80
    | tooManyElements => 0x81
    | badFirmwareId => 0x82
    | badLegacyLayout => 0x83
    | badHashLength => 0x84
    | badSignatureLength => 0x85
    | keyTooLong => 0x86
    | badPasslist => 0x87
    | bytes _ => 0x88
    | hash _ => 0x89
    | signature _ => 0x8a
    | manifest e => Status.localCode e
  label := label
  ofLabel? s :=
    Status.find? label plain s
      <|> Status.wrapped? "Io" bytes s
      <|> Status.wrapped? "Hash" hash s
      <|> Status.wrapped? "Sig" signature s
      <|> Status.wrapped? "Manifest" manifest s

end Error

/-! ### Encoding -/

/-- A length or a count that one byte holds. -/
def byte (n : Nat) (e : Error) : Except Error UInt8 :=
  if n < 256 then .ok (UInt8.ofNat n) else .error e

/-- The zeros that pad a field of `n` bytes. -/
def pad (n : Nat) : Bytes := Bytes.zeros (padLength n)

/-- The encodings of all items, one after the other. -/
def concat {α : Type} (encode : α → Except Error Bytes) : List α → Except Error Bytes
  | [] => .ok []
  | a :: as => do
    let front ← encode a
    let rest ← concat encode as
    return front ++ rest

def Bounds.encode (b : Bounds) : Bytes := Bytes.be32 b.first ++ Bytes.be32 b.last

def RwRegion.flags (r : RwRegion) : UInt8 :=
  UInt8.ofNat (Coded.number r.policy) ||| (if r.updateOnly then updateOnlyFlag else 0)

def RwRegion.encode (r : RwRegion) : Bytes :=
  [r.flags, 0, 0, 0] ++ Bytes.le32 r.first ++ Bytes.le32 r.last

namespace Image

def isSigned (i : Image) : Bool := !i.signature.isEmpty

def flags (i : Image) : UInt8 :=
  (if i.validateOnBoot then ImageFlag.validateOnBoot.bit else 0)
    ||| (if i.isSigned then ImageFlag.signed.bit else 0)

/-- The digest, or the signature with its key. -/
def encodeCheck (i : Image) : Except Error Bytes :=
  if i.isSigned then
    if i.signature.length ≠ PublicKey.imageSignatureSize then .error .badSignatureLength
    else if PublicKey.imageFieldSize < i.key.length then .error .keyTooLong
    else .ok (i.signature ++ i.key ++ Bytes.zeros (PublicKey.imageFieldSize - i.key.length))
  else if i.hash.length ≠ i.algorithm.size then .error .badHashLength
  else .ok i.hash

def encode (i : Image) : Except Error Bytes := do
  let count ← byte i.regions.length .tooManyElements
  let check ← i.encodeCheck
  return [UInt8.ofNat (Coded.number i.algorithm), count, i.flags, 0] ++ check
    ++ i.regions.flatMap Bounds.encode

end Image

namespace Version

def hasSigned (v : Version) : Bool := v.images.any Image.isSigned

def encode (v : Version) : Except Error Bytes := do
  let length ← byte v.version.length .stringTooLong
  let imageCount ← byte v.images.length .tooManyElements
  let rwCount ← byte v.rwRegions.length .tooManyElements
  let images ← concat Image.encode v.images
  return [imageCount, rwCount, length, 0] ++ Bytes.le32 v.address ++ v.version
    ++ pad v.version.length ++ v.rwRegions.flatMap RwRegion.encode ++ images

end Version

namespace Firmware

def hasSigned (f : Firmware) : Bool := f.versions.any Version.hasSigned

/-- The flags as they are stored. -/
def storedFlags (f : Firmware) : UInt8 :=
  if f.hasSigned then f.flags ||| signedImagesFlag else f.flags &&& ~~~signedImagesFlag

def encode (f : Firmware) : Except Error Bytes := do
  let some id := f.id | throw .badFirmwareId
  let id := Bytes.ofText id
  let length ← byte id.length .stringTooLong
  let count ← byte f.versions.length .tooManyElements
  let versions ← concat Version.encode f.versions
  return [count, length, f.storedFlags, 0] ++ id ++ pad id.length ++ versions

end Firmware

def SmbusRule.encode (r : SmbusRule) : Except Error Bytes :=
  if r.passlist.length = 32 then
    .ok ([ruleDefinition, 0, 0, 0, 0, r.bus, r.rule, r.device] ++ r.passlist)
  else
    .error .badPasslist

/-- What follows the platform id in the legacy format. -/
def encodeLegacy (d : Draft) : Except Error Bytes :=
  match d.firmware, d.rules with
  | [f], [] => do
    if f.id.isSome then throw .badFirmwareId
    let count ← byte f.versions.length .tooManyElements
    let versions ← concat Version.encode f.versions
    return [count, 0, 0, 0] ++ versions
  | _, _ => .error .badLegacyLayout

/-- What follows the platform id in the second format. -/
def encodeV2 (d : Draft) : Except Error Bytes := do
  let count ← byte d.firmware.length .tooManyElements
  let firmware ← concat Firmware.encode d.firmware
  let ruleCount ← byte d.rules.length .tooManyElements
  let rules ← concat SmbusRule.encode d.rules
  return [d.blank, count, 0, 0] ++ firmware ++ [ruleCount, 0, 0, 0] ++ rules

/-- Everything between the header and the signature. -/
def encodeBody (d : Draft) : Except Error Bytes := do
  let length ← byte d.platformId.length .stringTooLong
  let rest ← match d.format with
    | .legacy => d.encodeLegacy
    | .v2 => d.encodeV2
  return [length, 0] ++ d.platformId ++ pad (2 + d.platformId.length) ++ rest

/-- The header for a body and a signature of the given lengths. -/
def header (d : Draft) (bodyLength signatureLength : Nat) : Except Error Header :=
  let length := headerLength + bodyLength + signatureLength
  if 0x10000 ≤ length then .error .tooManyElements
  else
    .ok { length := UInt16.ofNat length
          format := d.format
          id := d.id
          signatureLength := UInt16.ofNat signatureLength
          scheme := .rsaPkcs1Sha256 }

/-- Everything that a signature of the given length covers. -/
def encodeSigned (d : Draft) (signatureLength : Nat) : Except Error Bytes := do
  let body ← d.encodeBody
  let header ← d.header body.length signatureLength
  return header.encode ++ body

/-- The manifest with a signature that was given. -/
def encode (d : Draft) (signature : Bytes) : Except Error Bytes := do
  let covered ← d.encodeSigned signature.length
  return covered ++ signature

section signing
variable {η σ : Type} [Hash.Engine η] [Signature.Signer σ]

/-- The manifest with a signature over the digest of everything before it. -/
def sign (d : Draft) : ExceptT Error (StateM (Engines η σ)) Bytes := do
  let e ← get
  match d.encodeSigned (Signature.Signer.size e.signature) with
  | .error e => throw e
  | .ok covered =>
    let digest ← Engines.onHash .hash
      (Hash.contiguous .sha256 covered Hash.Algorithm.sha256.size)
    let signature ← Engines.onSignature .signature (Signature.Signer.sign digest)
    return covered ++ signature

end signing

/-! ### Drafts of manifests -/

/-- The text of printable bytes. -/
def textOfPrintable (bs : Bytes) : String := String.ofList (bs.map fun b => Char.ofNat b.toNat)

def Bounds.ofRegion (r : Region) : Bounds := ⟨r.address, r.address + r.length⟩

def RwRegion.ofRecord (r : Manifest.RwRegion) : RwRegion :=
  { policy := r.policy
    updateOnly := r.updateOnly
    first := r.region.address
    last := r.region.address + r.region.length }

def Image.ofRecord (i : Manifest.Image) : Image :=
  { algorithm := i.algorithm
    validateOnBoot := i.validateOnBoot
    hash := match i.check with
      | .hash digest => digest
      | .signature _ _ => []
    signature := match i.check with
      | .hash _ => []
      | .signature signature _ => signature
    key := match i.check with
      | .hash _ => []
      | .signature _ key => key.toBlob
    regions := i.regions.map Bounds.ofRegion }

def Version.ofRecord (v : Manifest.Version) : Version :=
  { version := v.version
    address := v.address
    rwRegions := v.rwRegions.map RwRegion.ofRecord
    images := v.images.map Image.ofRecord }

def Firmware.ofRecord (f : Manifest.Firmware) : Firmware :=
  { id := f.id.map textOfPrintable
    flags := f.flags
    versions := f.versions.map Version.ofRecord }

def SmbusRule.ofRecord (r : Manifest.SmbusRule) : SmbusRule :=
  { bus := r.bus
    rule := r.rule
    device := r.device
    passlist := r.passlist }

/-- The draft of a manifest. -/
def ofManifest (m : Manifest) : Draft :=
  { format := m.format
    id := m.id
    platformId := m.platformId
    blank := m.blank
    firmware := m.firmware.map Firmware.ofRecord
    rules := m.smbusRules.map SmbusRule.ofRecord }

end Draft

end PlatformGuard.Manifest
