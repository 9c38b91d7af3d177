import PlatformGuard.Bytes.Sink
import PlatformGuard.Manifest.Error

/-!
# Envelopes

Every manifest is a header of twelve bytes, a body and a signature over everything before it.
-/

namespace PlatformGuard.Manifest

/-- The formats of a manifest, numbered by the magic number in the header. -/
inductive Format where
  /-- One firmware without a name. -/
  | legacy
  /-- Any number of named firmware components, and SMBus rules. -/
  | v2
  deriving DecidableEq, Repr

instance : Coded Format where
  all := [.legacy, .v2]
  number
    | .legacy => 0x504d
    | .v2 => 0x706d
  name
    | .legacy => "Legacy"
    | .v2 => "V2"

/-- The signature schemes of a manifest. -/
inductive Scheme where
  | rsaPkcs1Sha256
  deriving DecidableEq, Repr

instance : Coded Scheme where
  all := [.rsaPkcs1Sha256]
  number _ := 0
  name _ := "RsaPkcs1Sha256"

/-! ### Headers -/

/-- The length of an encoded header. -/
def headerLength : Nat := 12

structure Header where
  /-- The length of the whole manifest. -/
  length : UInt16
  format : Format
  id : UInt32
  signatureLength : UInt16
  scheme : Scheme
  deriving DecidableEq, Repr

namespace Header

/-- How many bytes the signature covers. -/
def signedLength (h : Header) : Nat := h.length.toNat - h.signatureLength.toNat

/-- The fields, each of which is written as a whole. -/
def fields (h : Header) : List Bytes :=
  [Bytes.le16 h.length, Bytes.ofNatLE 2 (Coded.number h.format), Bytes.le32 h.id,
    Bytes.le16 h.signatureLength, Bytes.ofNatLE 1 (Coded.number h.scheme), [0]]

def encode (h : Header) : Bytes := h.fields.flatten

def write (h : Header) : Sink.Writer Unit := Sink.writeAll h.fields

/-- Reads a header, which is long enough for itself and its signature. -/
def decoder : Decoder Error Header := do
  let length ← Decoder.le16
  let magic ← Decoder.le16
  let id ← Decoder.le32
  let signatureLength ← Decoder.le16
  let scheme ← Decoder.u8
  let _ ← Decoder.u8
  let format ← Decoder.some? (Coded.ofNumber? magic.toNat) (.badMagic magic)
  let scheme ← Decoder.some? (Coded.ofNumber? scheme.toNat) (.unsupportedSignature scheme)
  Decoder.require (ModulusSize.ofBytes? signatureLength.toNat).isSome .badSignatureLen
  Decoder.require (decide (headerLength + signatureLength.toNat ≤ length.toNat)) .badLength
  return { length, format, id, signatureLength, scheme }

end Header

/-! ### Envelopes -/

/-- A header together with the whole manifest that it heads. -/
structure Envelope where
  header : Header
  bytes : Bytes
  deriving DecidableEq, Repr

namespace Envelope

/-- The bytes that the signature covers. -/
def signed (e : Envelope) : Bytes := e.bytes.take e.header.signedLength

def signature (e : Envelope) : Bytes := e.bytes.drop e.header.signedLength

/-- The bytes between the header and the signature. -/
def body (e : Envelope) : Bytes := e.signed.drop headerLength

/-- The envelope that fills a byte string. -/
def parse (bytes : Bytes) : Except Error Envelope := do
  let header ← Header.decoder.read bytes
  if bytes.length < header.length.toNat then throw .truncated
  if header.length.toNat < bytes.length then throw .trailingBytes
  return { header, bytes }

end Envelope

end PlatformGuard.Manifest
