import PlatformGuard.Bytes.Sink

/-!
# RSA public keys and their blobs

A key blob is the length of the modulus in two bytes, the modulus, the length of the exponent in one
byte, and the exponent.  Inside an image record the blob is followed by zeros up to a fixed size, so
decoding ignores what follows a blob.
-/

namespace PlatformGuard

/-- The sizes that a modulus may have. -/
inductive ModulusSize where
  | bits2048 | bits3072 | bits4096
  deriving DecidableEq, Repr

namespace ModulusSize

/-- The number of bytes of a modulus, and of a signature made with it. -/
def bytes : ModulusSize → Nat
  | bits2048 => 256
  | bits3072 => 384
  | bits4096 => 512

instance : Coded ModulusSize where
  all := [bits2048, bits3072, bits4096]
  number := bytes
  name
    | bits2048 => "Bits2048"
    | bits3072 => "Bits3072"
    | bits4096 => "Bits4096"

/-- The size of a modulus of `n` bytes. -/
def ofBytes? (n : Nat) : Option ModulusSize := Coded.ofNumber? n

end ModulusSize

/-- An RSA public key: modulus and exponent, both with the highest byte first. -/
structure PublicKey where
  modulus : Bytes
  exponent : Bytes
  modulus_sized : (ModulusSize.ofBytes? modulus.length).isSome
  exponent_sized : 0 < exponent.length ∧ exponent.length ≤ 255
  deriving DecidableEq

namespace PublicKey

/-- Why a key is refused. -/
inductive Error where
  | truncated
  | badLength
  deriving DecidableEq, Repr

namespace Error

def all : List Error := [truncated, badLength]

instance : Status Error :=
  let label : Error → String
    | truncated => "Truncated"
    | badLength => "BadLength"
  { subsystem := fun _ => .crypto
    localCode := fun
      | truncated => 0x20
      | badLength => 0x21
    label
    ofLabel? := Status.find? label all }

instance : Truncation Error := ⟨truncated⟩

def ofBytes (_ : Bytes.Error) : Error := truncated

end Error

/-- The key with the given parts, if their lengths are sanctioned. -/
def make (modulus exponent : Bytes) : Except Error PublicKey :=
  if h : (ModulusSize.ofBytes? modulus.length).isSome
      ∧ 0 < exponent.length ∧ exponent.length ≤ 255 then
    .ok ⟨modulus, exponent, h.1, h.2⟩
  else
    .error .badLength

/-- The size of the modulus. -/
def size (k : PublicKey) : ModulusSize :=
  (ModulusSize.ofBytes? k.modulus.length).get k.modulus_sized

/-! ### Blobs -/

/-- The fields of a blob, each of which is written as a whole. -/
def fields (k : PublicKey) : List Bytes :=
  [Bytes.ofNatLE 2 k.modulus.length, k.modulus, Bytes.ofNatLE 1 k.exponent.length, k.exponent]

def toBlob (k : PublicKey) : Bytes := k.fields.flatten

/-- The length of the blob. -/
def blobLength (k : PublicKey) : Nat := 2 + k.modulus.length + 1 + k.exponent.length

/-- Writes the blob. -/
def write (k : PublicKey) : Sink.Writer Unit := Sink.writeAll k.fields

/-- Reads a blob from the front of a byte string. -/
def decoder : Decoder Error PublicKey := do
  let modulusLength ← Decoder.little 2
  let modulus ← Decoder.take modulusLength
  let exponentLength ← Decoder.little 1
  let exponent ← Decoder.take exponentLength
  Decoder.lift (make modulus exponent)

/-- The key whose blob stands at the front of `bs`. -/
def ofBlob (bs : Bytes) : Except Error PublicKey := decoder.read bs

/-- Equality of keys, decided from all bytes of both parts. -/
def ctEq (k l : PublicKey) : Bool :=
  Bool.and (Bytes.ctEq k.modulus l.modulus) (Bytes.ctEq k.exponent l.exponent)

/-! ### Sizes of the fields that hold keys and signatures -/

/-- The size of the key field of an image record. -/
def imageFieldSize : Nat := 450

/-- The size of the signature field of an image record. -/
def imageSignatureSize : Nat := 256

/-- The largest signature, and the largest modulus. -/
def maxSignatureSize : Nat := 512

end PublicKey

end PlatformGuard
