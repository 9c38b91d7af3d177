import PlatformGuard.Hash
import PlatformGuard.Manifest.Error

/-!
# Records

The records below the envelope, from the regions of an image up to a firmware component.  Every
reader checks a record before it gives it, so that a record that was read is well formed.
-/

namespace PlatformGuard.Manifest

open Decoder

/-! ### Layout -/

/-- How many bytes pad a field of `n` bytes to a multiple of four. -/
def padLength (n : Nat) : Nat := (4 - n % 4) % 4

/-- Skips the bytes that pad a field of `n` bytes. -/
def skipPad (n : Nat) : Decoder Error Unit := skip (padLength n)

/-- An id of `n` bytes, all of them printable and at least one. -/
def readId (n : Nat) : Decoder Error Bytes := do
  let id ← take n
  require (!id.isEmpty && id.all Bytes.isPrintable) .badId
  return id

/-! ### Regions that the host may write -/

/-- What to do with a region that fails validation. -/
inductive FailurePolicy where
  | doNothing | restoreFromRecovery | erase
  deriving DecidableEq, Repr

instance : Coded FailurePolicy where
  all := [.doNothing, .restoreFromRecovery, .erase]
  number
    | .doNothing => 0
    | .restoreFromRecovery => 1
    | .erase => 2
  name
    | .doNothing => "DoNothing"
    | .restoreFromRecovery => "RestoreFromRecovery"
    | .erase => "Erase"

/-- The flag of a region that may be written only during an update. -/
def updateOnlyFlag : UInt8 := 0b100

/-- A region that the host may write. -/
structure RwRegion where
  policy : FailurePolicy
  updateOnly : Bool
  region : Region
  deriving DecidableEq, Repr

def RwRegion.decoder : Decoder Error RwRegion := do
  let flags ← u8
  skip 3
  let first ← le32
  let last ← le32
  require (flags &&& ~~~0b111 == 0) .badFlags
  let policy ← some? (Coded.ofNumber? (flags &&& 0b11).toNat) .badFlags
  let region ← some? (Region.ofBounds? first last) .badRange
  return { policy, updateOnly := flags &&& updateOnlyFlag != 0, region }

/-! ### Images -/

/-- The flags of an image. -/
inductive ImageFlag where
  | validateOnBoot | signed
  deriving DecidableEq, Repr

instance : Coded ImageFlag where
  all := [.validateOnBoot, .signed]
  number
    | .validateOnBoot => 1
    | .signed => 2
  name
    | .validateOnBoot => "ValidateOnBoot"
    | .signed => "Signed"

def ImageFlag.bit (f : ImageFlag) : UInt8 := UInt8.ofNat (Coded.number f)

/-- How an image is checked. -/
inductive ImageCheck where
  /-- The digest of the image is the given one. -/
  | hash (digest : Bytes)
  /-- The digest of the image is signed with the key. -/
  | signature (signature : Bytes) (key : PublicKey)
  deriving DecidableEq

/-- Regions of the flash that are checked as a unit. -/
structure Image where
  algorithm : Hash.Algorithm
  validateOnBoot : Bool
  check : ImageCheck
  regions : List Region
  deriving DecidableEq

namespace Image

def isSigned (i : Image) : Bool :=
  match i.check with
  | .hash _ => false
  | .signature _ _ => true

/-- The flags as they are stored. -/
def flags (i : Image) : UInt8 :=
  (if i.validateOnBoot then ImageFlag.validateOnBoot.bit else 0)
    ||| (if i.isSigned then ImageFlag.signed.bit else 0)

/-- The region of an image: its bounds with the highest byte first. -/
def readRegion : Decoder Error Region := do
  let first ← UInt32.ofNat <$> big 4
  let last ← UInt32.ofNat <$> big 4
  some? (Region.ofBounds? first last) .badRange

/-- Reads `n` regions of which none overlaps another or one of those seen before. -/
def readRegions : (n : Nat) → (seen : List Region) → Decoder Error (List Region)
  | 0, _ => pure []
  | n + 1, seen => do
    let region ← readRegion
    require (seen.all fun r => !r.overlaps region) .overlappingRegions
    let regions ← readRegions n (seen ++ [region])
    return region :: regions

/-- The signature field and the key field of a signed image. -/
def readSignature : Decoder Error ImageCheck := do
  let signature ← take PublicKey.imageSignatureSize
  let field ← take PublicKey.imageFieldSize
  let key ← lift ((PublicKey.ofBlob field).mapError Error.ofKey)
  require (key.modulus.length == PublicKey.imageSignatureSize) .badKey
  return .signature signature key

def decoder : Decoder Error Image := do
  let hashType ← u8
  let count ← u8
  let flags ← u8
  let _ ← u8
  let algorithm : Hash.Algorithm ←
    some? (Coded.ofNumber? hashType.toNat) (.unsupportedHashType hashType)
  require (flags &&& ~~~(ImageFlag.validateOnBoot.bit ||| ImageFlag.signed.bit) == 0) .badFlags
  require (count != 0) .badLength
  let check ←
    if flags &&& ImageFlag.signed.bit != 0 then readSignature
    else ImageCheck.hash <$> take algorithm.size
  let block ← take (8 * count.toNat)
  let regions ← lift ((readRegions count.toNat []).read block)
  return { algorithm, validateOnBoot := flags &&& ImageFlag.validateOnBoot.bit != 0, check, regions }

end Image

/-! ### Versions -/

/-- A version that a firmware may have. -/
structure Version where
  /-- Where the running firmware reports its version. -/
  address : UInt32
  version : Bytes
  rwRegions : List RwRegion
  images : List Image
  deriving DecidableEq

namespace Version

/-- Whether an image of the version is checked by its signature. -/
def hasSigned (v : Version) : Bool := v.images.any Image.isSigned

def decoder : Decoder Error Version := do
  let imageCount ← u8
  let rwCount ← u8
  let length ← u8
  let _ ← u8
  require (length != 0) .badLength
  let address ← le32
  let version ← take length.toNat
  skipPad length.toNat
  let rwRegions ← times rwCount.toNat RwRegion.decoder
  let images ← times imageCount.toNat Image.decoder
  return { address, version, rwRegions, images }

end Version

/-! ### Firmware -/

/-- The flag of a firmware with an image that is checked by its signature.  The other flags belong to
the vendor. -/
def signedImagesFlag : UInt8 := 0b1

/-- A firmware component; that of a legacy manifest has no id. -/
structure Firmware where
  id : Option Bytes
  flags : UInt8
  versions : List Version
  deriving DecidableEq

namespace Firmware

def hasSigned (f : Firmware) : Bool := f.versions.any Version.hasSigned

def decoder : Decoder Error Firmware := do
  let count ← u8
  let length ← u8
  let flags ← u8
  let _ ← u8
  let id ← readId length.toNat
  skipPad length.toNat
  let versions ← times count.toNat Version.decoder
  require ((flags &&& signedImagesFlag != 0) == versions.any Version.hasSigned) .badFlags
  return { id := some id, flags, versions }

/-- The first version with the given name. -/
def findVersion (f : Firmware) (version : Bytes) : Except Error Version :=
  match f.versions.find? fun v => v.version == version with
  | some v => .ok v
  | none => .error .unknownVersion

end Firmware

/-! ### SMBus rules -/

/-- The only kind of rule. -/
def ruleDefinition : UInt8 := 2

/-- Which register offsets of one device the host may write. -/
structure SmbusRule where
  bus : UInt8
  /-- The slot of the filter that the rule takes. -/
  rule : UInt8
  /-- The address of the device as it stands on the bus before a write. -/
  device : UInt8
  /-- One bit for each offset, lowest bit first. -/
  passlist : Bytes
  deriving DecidableEq, Repr

namespace SmbusRule

def decoder : Decoder Error SmbusRule := do
  let definition ← u8
  skip 4
  let bus ← u8
  let rule ← u8
  let device ← u8
  let passlist ← take 32
  require (definition == ruleDefinition) .badSmbusRule
  require (device &&& 1 == 0) .badSmbusRule
  return { bus, rule, device, passlist }

/-- Whether the passlist has the bit of an offset. -/
def permits (r : SmbusRule) (offset : UInt8) : Bool :=
  (r.passlist.getD (offset.toNat / 8) 0 >>> (offset % 8)) &&& 1 != 0

/-- The offsets that the passlist has. -/
def permitted (r : SmbusRule) : List Nat :=
  (List.range 256).filter fun i => r.permits (UInt8.ofNat i)

/-- The eight words of the passlist, lowest byte first. -/
def words (r : SmbusRule) : Vector UInt32 8 :=
  Vector.ofFn fun i => UInt32.ofNat (Bytes.toNatLE ((r.passlist.drop (4 * i.val)).take 4))

end SmbusRule

end PlatformGuard.Manifest
