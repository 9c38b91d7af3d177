import PlatformGuard.Manifest
import PlatformGuard.Manifest.Trust

/-!
# Manifests in flash

A stored manifest is loaded from flash into caches, verified against an anchor, and then asked about
its contents.  What is verified is what was cached, and every answer comes from the caches, so that
the flash may change after loading.  The key that signed a manifest of the second format lies behind
the manifest in flash.
-/

namespace PlatformGuard

namespace Manifest

/-- How far a stored manifest has come. -/
inductive Stage where
  /-- Nothing is cached. -/
  | empty
  /-- The manifest is cached, but not verified. -/
  | loaded
  /-- The cached manifest was verified. -/
  | valid
  /-- There is no manifest, or it was refused. -/
  | invalid
  deriving DecidableEq, Repr

def Stage.name : Stage → String
  | empty => "Empty"
  | loaded => "Loaded"
  | valid => "Valid"
  | invalid => "Invalid"

/-- Room for the parts of a manifest; the size of each part stays the same. -/
structure Caches where
  manifest : Bytes
  /-- Holds the platform id and a zero. -/
  platformId : Bytes
  signature : Bytes
  /-- Holds the blob of the signing key. -/
  key : Bytes
  deriving DecidableEq, Repr

/-- The cache with `bs` at its front, if it has the room. -/
def fillFront? (cache bs : Bytes) : Option Bytes :=
  if bs.length ≤ cache.length then some (bs ++ cache.drop bs.length) else none

/-- The caches filled with zeros. -/
def Caches.clear (c : Caches) : Caches :=
  { manifest := Bytes.zeros c.manifest.length
    platformId := Bytes.zeros c.platformId.length
    signature := Bytes.zeros c.signature.length
    key := Bytes.zeros c.key.length }

end Manifest

/-- A manifest at the address `base` of a flash device. -/
structure StoredManifest (φ : Type) where
  flash : φ
  base : UInt32
  caches : Manifest.Caches
  header : Option Manifest.Header := none
  /-- The length of the cached platform id. -/
  idLength : Nat := 0
  stage : Manifest.Stage := .empty
  deriving Repr

namespace StoredManifest

open Manifest

variable {φ : Type}

/-- Forgets the cached manifest. -/
def reset (s : StoredManifest φ) : StoredManifest φ :=
  { s with
    caches := s.caches.clear
    header := none
    idLength := 0
    stage := .empty }

/-- A step of a stored manifest. -/
abbrev Step (φ α : Type) := ExceptT Error (StateM (StoredManifest φ)) α

section flash
variable [Flash φ]

/-! ### Loading -/

/-- The `n` bytes of the flash that lie `offset` bytes behind the base. -/
def readAt (s : StoredManifest φ) (offset n : Nat) : Except Error Bytes :=
  if s.base.toNat + offset < addressLimit then
    (Flash.read s.flash (s.base + UInt32.ofNat offset) n).mapError .flash
  else
    .error (.flash .outOfRange)

/-- Reads the header; without the magic number of a format there is no manifest. -/
def readHeader : Step φ Header := fun s =>
  match s.readAt 0 headerLength with
  | .error e => (.error e, s)
  | .ok raw =>
    match Header.decoder.read raw with
    | .ok h => (.ok h, s)
    | .error (.badMagic _) => (.error .noManifest, { s with stage := .invalid })
    | .error e => (.error e, s)

/-- Reads the whole manifest into its cache. -/
def cacheManifest (length : Nat) : Step φ Bytes := fun s =>
  if s.caches.manifest.length < length then (.error .bufferTooSmall, s)
  else
    match s.readAt 0 length with
    | .error e => (.error e, s)
    | .ok bs =>
      let cache := bs ++ s.caches.manifest.drop length
      (.ok bs, { s with caches := { s.caches with manifest := cache } })

/-- The platform id at the front of a body; its bytes are not checked. -/
def platformIdOf (body : Bytes) : Except Error Bytes :=
  match body with
  | [] => .error .truncated
  | length :: _ =>
    if 2 + length.toNat ≤ body.length then .ok ((body.drop 2).take length.toNat)
    else .error .truncated

/-- Keeps the platform id, followed by a zero. -/
def cachePlatformId (id : Bytes) : Step φ Unit := fun s =>
  match fillFront? s.caches.platformId (id ++ [0]) with
  | some cache => (.ok (), { s with caches := { s.caches with platformId := cache } })
  | none => (.error .bufferTooSmall, s)

def cacheSignature (signature : Bytes) : Step φ Unit := fun s =>
  match fillFront? s.caches.signature signature with
  | some cache => (.ok (), { s with caches := { s.caches with signature := cache } })
  | none => (.error .bufferTooSmall, s)

/-- Reads the manifest from flash; whatever was cached before is forgotten first. -/
def load : Step φ Unit := do
  modify reset
  let header ← readHeader
  let bytes ← cacheManifest header.length.toNat
  let envelope : Envelope := ⟨header, bytes⟩
  let id ← MonadExcept.ofExcept (platformIdOf envelope.body)
  cachePlatformId id
  cacheSignature envelope.signature
  modify fun s =>
    { s with
      header := some header
      idLength := id.length
      stage := .loaded }

/-! ### The signing key -/

/-- The length of the key blob behind a manifest of the given length. -/
def keyBlobLength (s : StoredManifest φ) (length : Nat) : Except Error Nat := do
  let modulusLength := Bytes.toNatLE (← s.readAt length 2)
  if PublicKey.maxSignatureSize < modulusLength then throw .badKey
  let exponentLength := Bytes.toNatLE (← s.readAt (length + 2 + modulusLength) 1)
  return 2 + modulusLength + 1 + exponentLength

/-- Reads the key blob behind a manifest of the given length into its cache. -/
def cacheKey (length : Nat) : Step φ Bytes := fun s =>
  match s.keyBlobLength length with
  | .error e => (.error e, s)
  | .ok n =>
    if s.caches.key.length < n then (.error .bufferTooSmall, s)
    else
      match s.readAt length n with
      | .error e => (.error e, s)
      | .ok blob =>
        (.ok blob, { s with caches := { s.caches with key := blob ++ s.caches.key.drop n } })

/-- The key behind the manifest; a legacy manifest has none. -/
def storedKey (header : Header) : Step φ (Option PublicKey) := do
  match header.format with
  | .legacy => return none
  | .v2 =>
    let blob ← cacheKey header.length.toNat
    match PublicKey.ofBlob blob with
    | .ok key => return some key
    | .error e => throw (.ofKey e)

/-! ### Verification -/

section verifying
variable {η ν : Type} [Hash.Engine η] [Signature.Verifier ν]

/-- The cached bytes under a header. -/
def cached (s : StoredManifest φ) (header : Header) : Envelope :=
  ⟨header, s.caches.manifest.take header.length.toNat⟩

/-- Judges the cached bytes: they are signed by a key that the anchor vouches for, have the expected
digest if there is one, and are a manifest. -/
def judge (envelope : Envelope) (key : Except Error (Option PublicKey)) (anchor : Anchor)
    (expected : Option Bytes) : ExceptT Error (StateM (Engines η ν)) Unit := do
  let key ← MonadExcept.ofExcept key
  let key ← Engines.onHash (fun e => e) (anchor.signer key)
  Engines.verifySigned .verifyFailed key envelope.signed envelope.signature expected
  let _ ← MonadExcept.ofExcept (Manifest.parse envelope.bytes)

/-- Verifies a manifest that was loaded. -/
def verify (anchor : Anchor) (expected : Option Bytes) (s : StoredManifest φ) (e : Engines η ν) :
    Except Error Unit × StoredManifest φ × Engines η ν :=
  match s.stage, s.header with
  | .loaded, some header =>
    let (key, s) := storedKey header s
    let (r, e) := judge (s.cached header) key anchor expected e
    (r, { s with stage := if r.isOk then .valid else .invalid }, e)
  | _, _ => (.error .noManifest, s, e)

end verifying

end flash

/-! ### Queries -/

/-- The header, once the manifest is loaded and until it is refused. -/
def loadedHeader (s : StoredManifest φ) : Except Error Header :=
  match s.stage, s.header with
  | .loaded, some h | .valid, some h => .ok h
  | _, _ => .error .noManifest

def id (s : StoredManifest φ) : Except Error UInt32 := s.loadedHeader.map Header.id

def platformId (s : StoredManifest φ) : Except Error Bytes :=
  s.loadedHeader.map fun _ => s.caches.platformId.take s.idLength

def signature (s : StoredManifest φ) : Except Error Bytes :=
  s.loadedHeader.map fun h => s.caches.signature.take h.signatureLength.toNat

/-- The digest of what the signature covers, in a buffer of the given size. -/
def digest {η : Type} [Hash.Engine η] (s : StoredManifest φ) (size : Nat) :
    ExceptT Error (StateM η) Bytes :=
  match s.header with
  | none => throw .noManifest
  | some h =>
    ExceptT.adapt (fun _ => .invalidArgument)
      (Hash.contiguous .sha256 (s.caches.manifest.take h.signedLength) size)

/-- The verified manifest. -/
def manifest (s : StoredManifest φ) : Except Error Manifest :=
  match s.stage, s.header with
  | .valid, some h => Manifest.parse (s.caches.manifest.take h.length.toNat)
  | _, _ => .error .noManifest

/-- Whether the verified manifest authorises nothing. -/
def isEmpty (s : StoredManifest φ) : Except Error Bool := s.manifest.map Manifest.isEmpty

def firmware (s : StoredManifest φ) : Except Error (List Firmware) :=
  s.manifest.map Manifest.firmware

def supportedVersions (s : StoredManifest φ) (id : Option Bytes) : Except Error (List Version) :=
  s.manifest.bind fun m => m.supportedVersions id

def rwRegions (s : StoredManifest φ) (id : Option Bytes) (version : Bytes) :
    Except Error (List RwRegion) :=
  s.manifest.bind fun m => m.rwRegions id version

def images (s : StoredManifest φ) (id : Option Bytes) (version : Bytes) :
    Except Error (List Image) :=
  s.manifest.bind fun m => m.images id version

end StoredManifest

end PlatformGuard
