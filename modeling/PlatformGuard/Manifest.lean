import PlatformGuard.Manifest.Envelope
import PlatformGuard.Manifest.Record

/-!
# Platform firmware manifests

A manifest lists the firmware that a platform may run, where its images lie in flash, which regions
the host may write and which SMBus registers it may reach.  `Manifest.parse` checks all of it.
-/

namespace PlatformGuard

namespace Manifest

/-- What follows the platform id. -/
inductive Body where
  | legacy (versions : List Version)
  | v2 (blank : UInt8) (firmware : List Firmware) (rules : List SmbusRule)
  deriving DecidableEq

end Manifest

/-- A manifest, which was parsed as a whole. -/
structure Manifest where
  envelope : Manifest.Envelope
  platformId : Bytes
  body : Manifest.Body
  deriving DecidableEq

namespace Manifest

open Decoder

/-! ### Parsing -/

/-- Versions of which none has a signed image. -/
def readUnsigned : (n : Nat) → Decoder Error (List Version)
  | 0 => pure []
  | n + 1 => do
    let v ← Version.decoder
    require (!v.hasSigned) .signedImageInLegacy
    let vs ← readUnsigned n
    return v :: vs

def Body.readLegacy : Decoder Error Body := do
  let count ← u8
  skip 3
  let versions ← readUnsigned count.toNat
  return .legacy versions

/-- Whether no two firmware components share an id. -/
def distinctIds : List Firmware → Bool
  | [] => true
  | f :: fs => fs.all (fun g => g.id != f.id) && distinctIds fs

def Body.readV2 : Decoder Error Body := do
  let blank ← u8
  let firmwareCount ← u8
  skip 2
  let firmware ← times firmwareCount.toNat Firmware.decoder
  require (distinctIds firmware) .badId
  let ruleCount ← u8
  skip 3
  let rules ← times ruleCount.toNat SmbusRule.decoder
  return .v2 blank firmware rules

def Body.decoder : Format → Decoder Error Body
  | .legacy => readLegacy
  | .v2 => readV2

/-- The platform id and the body of a manifest. -/
def contents (format : Format) : Decoder Error (Bytes × Body) := do
  let length ← u8
  let _ ← u8
  let platformId ← readId length.toNat
  skipPad (2 + length.toNat)
  let body ← Body.decoder format
  return (platformId, body)

/-- The manifest that fills a byte string; its signature is not checked. -/
def parse (bytes : Bytes) : Except Error Manifest := do
  let envelope ← Envelope.parse bytes
  match (contents envelope.header.format).on envelope.body with
  | (.ok (platformId, body), []) => return { envelope, platformId, body }
  | (.ok _, _ :: _) => throw .trailingBytes
  | (.error e, _) => throw e

/-! ### Parts -/

def format (m : Manifest) : Format :=
  match m.body with
  | .legacy _ => .legacy
  | .v2 _ _ _ => .v2

def id (m : Manifest) : UInt32 := m.envelope.header.id

def signature (m : Manifest) : Bytes := m.envelope.signature

/-- The value of an erased byte on the protected flash. -/
def blank (m : Manifest) : UInt8 :=
  match m.body with
  | .legacy _ => Flash.erasedByte
  | .v2 blank _ _ => blank

/-- Whether the manifest authorises nothing. -/
def isEmpty (m : Manifest) : Bool :=
  match m.body with
  | .legacy versions => versions.isEmpty
  | .v2 _ firmware _ => firmware.isEmpty

/-- The firmware of the manifest; a legacy manifest has one, without an id. -/
def firmware (m : Manifest) : List Firmware :=
  match m.body with
  | .legacy versions => [{ id := none, flags := 0, versions }]
  | .v2 _ firmware _ => firmware

def smbusRules (m : Manifest) : List SmbusRule :=
  match m.body with
  | .legacy _ => []
  | .v2 _ _ rules => rules

/-! ### Queries -/

/-- The firmware with an id; a legacy manifest has the same answer for every id. -/
def findFirmware (m : Manifest) (id : Option Bytes) : Except Error Firmware :=
  match m.body, id with
  | .legacy versions, _ => .ok { id := none, flags := 0, versions }
  | .v2 _ _ _, none => .error .invalidArgument
  | .v2 _ firmware _, some id =>
    match firmware.find? fun f => f.id == some id with
    | some f => .ok f
    | none => .error .unknownFirmware

def supportedVersions (m : Manifest) (id : Option Bytes) : Except Error (List Version) :=
  (m.findFirmware id).map Firmware.versions

def findVersion (m : Manifest) (id : Option Bytes) (version : Bytes) : Except Error Version := do
  let f ← m.findFirmware id
  f.findVersion version

def rwRegions (m : Manifest) (id : Option Bytes) (version : Bytes) : Except Error (List RwRegion) :=
  (m.findVersion id version).map Version.rwRegions

def images (m : Manifest) (id : Option Bytes) (version : Bytes) : Except Error (List Image) :=
  (m.findVersion id version).map Version.images

end Manifest

end PlatformGuard
