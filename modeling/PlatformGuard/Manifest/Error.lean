import PlatformGuard.Bytes.Decoder
import PlatformGuard.Flash
import PlatformGuard.Signature.Key

/-!
# Failures of manifest operations
-/

namespace PlatformGuard

namespace Manifest

/-- Why a manifest operation fails. -/
inductive Error where
  /-- There is no verified manifest to answer from. -/
  | noManifest
  | invalidArgument
  | unknownFirmware
  | unknownVersion
  /-- A cache is too small for what it should hold. -/
  | bufferTooSmall
  | flash (cause : Flash.Error)
  | badMagic (found : UInt16)
  /-- A record claims more bytes than there are. -/
  | truncated
  | badLength
  /-- A region does not start before its end. -/
  | badRange
  /-- Two regions of one image overlap. -/
  | overlappingRegions
  | unsupportedSignature (found : UInt8)
  | unsupportedHashType (found : UInt8)
  | badSignatureLen
  /-- A platform or firmware id is empty, not printable, or given twice. -/
  | badId
  | badKey
  /-- Flags are unknown or disagree with the contents. -/
  | badFlags
  | badSmbusRule
  /-- The legacy format has no signed images. -/
  | signedImageInLegacy
  /-- Bytes are left after the last record. -/
  | trailingBytes
  /-- A hash or a signature does not match; which of the two is not told. -/
  | verifyFailed
  deriving DecidableEq, Repr

namespace Error

/-- The causes without a payload. -/
def plain : List Error :=
  [noManifest, invalidArgument, unknownFirmware, unknownVersion, bufferTooSmall, truncated, badLength,
    badRange, overlappingRegions, badSignatureLen, badId, badKey, badFlags, badSmbusRule,
    signedImageInLegacy, trailingBytes, verifyFailed]

def label : Error → String
  | noManifest => "NoManifest"
  | invalidArgument => "InvalidArgument"
  | unknownFirmware => "UnknownFirmware"
  | unknownVersion => "UnknownVersion"
  | bufferTooSmall => "BufferTooSmall"
  | flash e => Status.withPayload "Flash" (Status.label e)
  | badMagic n => Status.withPayload "BadMagic" (toString n.toNat)
  | truncated => "Truncated"
  | badLength => "BadLength"
  | badRange => "BadRange"
  | overlappingRegions => "OverlappingRegions"
  | unsupportedSignature n => Status.withPayload "UnsupportedSignature" (toString n.toNat)
  | unsupportedHashType n => Status.withPayload "UnsupportedHashType" (toString n.toNat)
  | badSignatureLen => "BadSignatureLen"
  | badId => "BadId"
  | badKey => "BadKey"
  | badFlags => "BadFlags"
  | badSmbusRule => "BadSmbusRule"
  | signedImageInLegacy => "SignedImageInLegacy"
  | trailingBytes => "TrailingBytes"
  | verifyFailed => "VerifyFailed"

instance : Status Error where
  subsystem
    | invalidArgument | unknownFirmware | unknownVersion | bufferTooSmall => .pfm
    | _ => .manifest
  localCode
    | noManifest => 0x00
    | flash _ => 0x01
    | badMagic _ => 0x02
    | truncated => 0x03
    | badLength => 0x04
    | badRange => 0x05
    | overlappingRegions => 0x06
    | unsupportedSignature _ => 0x07
    | unsupportedHashType _ => 0x08
    | badSignatureLen => 0x09
    | badId => 0x0a
    | badKey => 0x0b
    | badFlags => 0x0c
    | badSmbusRule => 0x0d
    | signedImageInLegacy => 0x0e
    | trailingBytes => 0x0f
    | verifyFailed => 0x10
    | invalidArgument => 0x00
    | unknownFirmware => 0x01
    | unknownVersion => 0x02
    | bufferTooSmall => 0x03
  label := label
  ofLabel? s :=
    Status.find? label plain s
      <|> Status.wrapped? "Flash" flash s
      <|> Status.numbered? "BadMagic" (fun n => badMagic (UInt16.ofNat n)) s
      <|> Status.numbered? "UnsupportedSignature" (fun n => unsupportedSignature (UInt8.ofNat n)) s
      <|> Status.numbered? "UnsupportedHashType" (fun n => unsupportedHashType (UInt8.ofNat n)) s

instance : Truncation Error := ⟨truncated⟩

def ofBytes (_ : Bytes.Error) : Error := truncated

def ofKey (_ : PublicKey.Error) : Error := badKey

end Error

end Manifest

end PlatformGuard
