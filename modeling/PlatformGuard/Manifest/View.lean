import PlatformGuard.Manifest.Draft

/-!
# Views of a manifest

A manifest can be used where it lies.  A view keeps, for every list of records, how many records there are
and the bytes that they span.  `View.parse` reads each record once to check it, and whoever goes through a
list reads its records again from these bytes.
-/

namespace PlatformGuard.Manifest

namespace View

open Decoder

/-! ### Lists of records -/

/-- Records of a kind can be read from the front of a byte string. -/
class Record (β : Type) where
  decoder : Decoder Error β

/-- `count` records that stand in `bytes` one behind the other. -/
structure Records (β : Type) where
  bytes : Bytes
  count : Nat
  deriving DecidableEq

section records
variable {β γ : Type} [Record β]

/-- What comes of reading `n` records one after the other; nothing comes after the first failure. -/
def readings (n : Nat) (bs : Bytes) : List (Except Error β) :=
  match n with
  | 0 => []
  | n + 1 =>
    match Record.decoder.on bs with
    | (.ok b, rest) => .ok b :: readings n rest
    | (.error e, _) => [.error e]

/-- What going through the records gives. -/
def Records.items (r : Records β) : List (Except Error β) := readings r.count r.bytes

/-- What `f` makes of every record. -/
def Records.collect (f : β → Except Error γ) (r : Records β) : Except Error (List γ) :=
  r.items.mapM fun item => item >>= f

/-- The first record with a property. -/
def firstWhere (p : β → Bool) (missing : Error) : List (Except Error β) → Except Error β
  | [] => .error missing
  | item :: items => do
    let b ← item
    if p b then return b
    firstWhere p missing items

/-- Fails if `b` clashes with one of the first `seen` records. -/
def Records.checkAgainst (clash : β → β → Bool) (e : Error) (r : Records β) (seen : Nat) (b : β) :
    Except Error Unit :=
  ({ r with count := seen } : Records β).items.forM fun earlier => do
    let a ← earlier
    if clash a b then throw e

/-- Fails at the first record that clashes with one before it. -/
def Records.checkApart (clash : β → β → Bool) (e : Error) (r : Records β) : Except Error Unit :=
  r.items.zipIdx.forM fun (item, seen) => do
    let b ← item
    r.checkAgainst clash e seen b

/-- A record that passes a check. -/
def readChecked (check : β → Except Error Unit) : Decoder Error β := do
  let b ← Record.decoder
  lift (check b)
  return b

/-- Reads and checks `n` records, and finds the bytes that they span. -/
def walk (check : β → Except Error Unit) (n : Nat) : Decoder Error (List β × Bytes) := fun start =>
  match (times n (readChecked check)).on start with
  | (.ok bs, rest) => (.ok (bs, start.take (start.length - rest.length)), rest)
  | (.error e, rest) => (.error e, rest)

end records

instance : Record RwRegion := ⟨RwRegion.decoder⟩
instance : Record Region := ⟨Image.readRegion⟩
instance : Record SmbusRule := ⟨SmbusRule.decoder⟩

/-! ### Images -/

/-- An image; its regions are kept as bytes. -/
structure Image where
  algorithm : Hash.Algorithm
  flags : UInt8
  check : ImageCheck
  regionCount : UInt8
  regionBytes : Bytes
  deriving DecidableEq

namespace Image

def validateOnBoot (i : Image) : Bool := i.flags &&& ImageFlag.validateOnBoot.bit != 0

def isSigned (i : Image) : Bool := i.flags &&& ImageFlag.signed.bit != 0

def regions (i : Image) : Records Region := ⟨i.regionBytes, i.regionCount.toNat⟩

def decoder : Decoder Error Image := do
  let hashType ← u8
  let count ← u8
  let flags ← u8
  let _ ← u8
  let algorithm : Hash.Algorithm ←
    some? (Coded.ofNumber? hashType.toNat) (.unsupportedHashType hashType)
  require (flags &&& ~~~(ImageFlag.validateOnBoot.bit ||| ImageFlag.signed.bit) == 0) .badFlags
  require (count != 0) .badLength
  let check ←
    if flags &&& ImageFlag.signed.bit != 0 then Manifest.Image.readSignature
    else ImageCheck.hash <$> take algorithm.size
  let block ← take (8 * count.toNat)
  lift (Records.checkApart Region.overlaps .overlappingRegions ⟨block, count.toNat⟩)
  return { algorithm, flags, check, regionCount := count, regionBytes := block }

instance : Record Image := ⟨decoder⟩

/-- The draft of the image. -/
def draft (i : Image) : Except Error Draft.Image := do
  let regions ← i.regions.collect fun r => .ok (Draft.Bounds.ofRegion r)
  let (hash, signature, key) :=
    match i.check with
    | .hash digest => (digest, [], [])
    | .signature signature key => ([], signature, key.toBlob)
  return { algorithm := i.algorithm, validateOnBoot := i.validateOnBoot, hash, signature, key, regions }

end Image

/-! ### Versions -/

/-- A version; its regions and images are kept as bytes. -/
structure Version where
  address : UInt32
  version : Bytes
  rwCount : UInt8
  rwBytes : Bytes
  imageCount : UInt8
  imageBytes : Bytes
  hasSigned : Bool
  deriving DecidableEq

namespace Version

def rwRegions (v : Version) : Records RwRegion := ⟨v.rwBytes, v.rwCount.toNat⟩

def images (v : Version) : Records Image := ⟨v.imageBytes, v.imageCount.toNat⟩

def decoder : Decoder Error Version := do
  let imageCount ← u8
  let rwCount ← u8
  let length ← u8
  let _ ← u8
  require (length != 0) .badLength
  let address ← le32
  let version ← take length.toNat
  skipPad length.toNat
  let (_, rwBytes) ← walk (fun (_ : RwRegion) => .ok ()) rwCount.toNat
  let (images, imageBytes) ← walk (fun (_ : Image) => .ok ()) imageCount.toNat
  let hasSigned := images.any Image.isSigned
  return { address, version, rwCount, rwBytes, imageCount, imageBytes, hasSigned }

instance : Record Version := ⟨decoder⟩

/-- The draft of the version. -/
def draft (v : Version) : Except Error Draft.Version := do
  let rwRegions ← v.rwRegions.collect fun r => .ok (Draft.RwRegion.ofRecord r)
  let images ← v.images.collect Image.draft
  return { version := v.version, address := v.address, rwRegions, images }

end Version

/-! ### Firmware -/

/-- A firmware component; its versions are kept as bytes. -/
structure Firmware where
  id : Option Bytes
  flags : UInt8
  versionCount : UInt8
  versionBytes : Bytes
  deriving DecidableEq

namespace Firmware

def versions (f : Firmware) : Records Version := ⟨f.versionBytes, f.versionCount.toNat⟩

def decoder : Decoder Error Firmware := do
  let count ← u8
  let length ← u8
  let flags ← u8
  let _ ← u8
  let id ← readId length.toNat
  skipPad length.toNat
  let (versions, versionBytes) ← walk (fun (_ : Version) => .ok ()) count.toNat
  require ((flags &&& signedImagesFlag != 0) == versions.any Version.hasSigned) .badFlags
  return { id := some id, flags, versionCount := count, versionBytes }

instance : Record Firmware := ⟨decoder⟩

/-- The one firmware of a legacy manifest. -/
def implicit (versionCount : UInt8) (versionBytes : Bytes) : Firmware :=
  { id := none, flags := 0, versionCount, versionBytes }

/-- The first version with the given name. -/
def findVersion (f : Firmware) (version : Bytes) : Except Error Version :=
  firstWhere (fun v => v.version == version) .unknownVersion f.versions.items

/-- The draft of the firmware. -/
def draft (f : Firmware) : Except Error Draft.Firmware := do
  let versions ← f.versions.collect Version.draft
  return { id := f.id.map Draft.textOfPrintable, flags := f.flags, versions }

end Firmware

/-! ### Bodies -/

/-- What follows the platform id. -/
inductive Body where
  | legacy (versionCount : UInt8) (versionBytes : Bytes)
  | v2 (blank firmwareCount : UInt8) (firmwareBytes : Bytes) (ruleCount : UInt8) (ruleBytes : Bytes)
  deriving DecidableEq

namespace Body

/-- No version may have a signed image. -/
def checkUnsigned (v : Version) : Except Error Unit :=
  if v.hasSigned then .error .signedImageInLegacy else .ok ()

def readLegacy : Decoder Error Body := do
  let count ← u8
  skip 3
  let (_, versionBytes) ← walk checkUnsigned count.toNat
  return .legacy count versionBytes

def readV2 : Decoder Error Body := do
  let blank ← u8
  let firmwareCount ← u8
  skip 2
  let (_, firmwareBytes) ← walk (fun (_ : Firmware) => .ok ()) firmwareCount.toNat
  lift (Records.checkApart (fun (f g : Firmware) => f.id == g.id) .badId
    ⟨firmwareBytes, firmwareCount.toNat⟩)
  let ruleCount ← u8
  skip 3
  let (_, ruleBytes) ← walk (fun (_ : SmbusRule) => .ok ()) ruleCount.toNat
  return .v2 blank firmwareCount firmwareBytes ruleCount ruleBytes

def decoder : Format → Decoder Error Body
  | .legacy => readLegacy
  | .v2 => readV2

end Body

end View

/-- A manifest that is used where it lies. -/
structure View where
  envelope : Envelope
  platformId : Bytes
  body : View.Body
  deriving DecidableEq

namespace View

open Decoder

/-! ### Parsing -/

/-- The platform id and the body of a manifest. -/
def contents (format : Format) : Decoder Error (Bytes × Body) := do
  let length ← u8
  let _ ← u8
  let platformId ← readId length.toNat
  skipPad (2 + length.toNat)
  let body ← Body.decoder format
  return (platformId, body)

/-- A view of the manifest that fills a byte string; its signature is not checked. -/
def parse (bytes : Bytes) : Except Error View := do
  let envelope ← Envelope.parse bytes
  match (contents envelope.header.format).on envelope.body with
  | (.ok (platformId, body), []) => return { envelope, platformId, body }
  | (.ok _, _ :: _) => throw .trailingBytes
  | (.error e, _) => throw e

/-! ### Parts -/

def format (v : View) : Format :=
  match v.body with
  | .legacy _ _ => .legacy
  | .v2 _ _ _ _ _ => .v2

/-- The value of an erased byte on the protected flash. -/
def blank (v : View) : UInt8 :=
  match v.body with
  | .legacy _ _ => Flash.erasedByte
  | .v2 blank _ _ _ _ => blank

/-- How many firmware components there are; a legacy manifest has one. -/
def firmwareCount (v : View) : Nat :=
  match v.body with
  | .legacy _ _ => 1
  | .v2 _ count _ _ _ => count.toNat

/-- What going through the firmware gives; that of a legacy manifest has no id. -/
def firmware (v : View) : List (Except Error Firmware) :=
  match v.body with
  | .legacy count bytes => [.ok (.implicit count bytes)]
  | .v2 _ count bytes _ _ => (⟨bytes, count.toNat⟩ : Records Firmware).items

def smbusRules (v : View) : Records SmbusRule :=
  match v.body with
  | .legacy _ _ => ⟨[], 0⟩
  | .v2 _ _ _ count bytes => ⟨bytes, count.toNat⟩

/-- The draft of the manifest: a copy of all its records. -/
def draft (v : View) : Except Error Draft := do
  let firmware ← v.firmware.mapM fun item => item >>= Firmware.draft
  let rules ← v.smbusRules.collect fun r => .ok (Draft.SmbusRule.ofRecord r)
  return {
    format := v.format
    id := v.envelope.header.id
    platformId := v.platformId
    blank := v.blank
    firmware
    rules }

/-! ### Queries -/

/-- The firmware with an id; a legacy manifest has the same answer for every id. -/
def findFirmware (v : View) (id : Option Bytes) : Except Error Firmware :=
  match v.body, id with
  | .legacy count bytes, _ => .ok (.implicit count bytes)
  | .v2 _ _ _ _ _, none => .error .invalidArgument
  | .v2 _ _ _ _ _, some id => firstWhere (fun f => f.id == some id) .unknownFirmware v.firmware

def supportedVersions (v : View) (id : Option Bytes) : Except Error (Records Version) :=
  (v.findFirmware id).map Firmware.versions

def findVersion (v : View) (id : Option Bytes) (version : Bytes) : Except Error Version := do
  let f ← v.findFirmware id
  f.findVersion version

def rwRegions (v : View) (id : Option Bytes) (version : Bytes) : Except Error (Records RwRegion) :=
  (v.findVersion id version).map Version.rwRegions

def images (v : View) (id : Option Bytes) (version : Bytes) : Except Error (Records Image) :=
  (v.findVersion id version).map Version.images

end View

end PlatformGuard.Manifest
