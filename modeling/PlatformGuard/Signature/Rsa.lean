import PlatformGuard.Hash.Sha2
import PlatformGuard.Signature

/-!
# RSASSA-PKCS1-v1_5 with SHA-256

Verification and signing of RFC 8017, section 8.2, with the limits that the engines of this library
put on keys.
-/

namespace PlatformGuard.Rsa

/-! ### Arithmetic -/

/-- The number of bits of a number. -/
def bitLength (n : Nat) : Nat := if n = 0 then 0 else n.log2 + 1

/-- `b ^ e` modulo `n`, times `acc`, by squaring, for exponents of at most `bits` bits. -/
def powModFrom (n : Nat) : (bits b e acc : Nat) → Nat
  | 0, _, _, acc => acc
  | bits + 1, b, e, acc =>
    powModFrom n bits (b * b % n) (e / 2) (if e % 2 = 1 then acc * b % n else acc)

/-- `b ^ e` modulo `n`. -/
def powMod (b e n : Nat) : Nat := powModFrom n (bitLength e) (b % n) e (1 % n)

/-! ### Encoding of messages -/

/-- The DER form of a digest's header: SHA-256 without parameters, 32 bytes. -/
def digestInfo : Bytes :=
  [0x30, 0x31, 0x30, 0x0d, 0x06, 0x09, 0x60, 0x86, 0x48, 0x01, 0x65, 0x03, 0x04, 0x02, 0x01, 0x05,
    0x00, 0x04, 0x20]

/-- The encoded message of `size` bytes. -/
def encodeMessage (size : Nat) (message : Bytes) : Bytes :=
  let t := digestInfo ++ Sha2.sha256 message
  0x00 :: 0x01 :: (List.replicate (size - t.length - 3) 0xff ++ 0x00 :: t)

/-! ### Limits on public keys -/

/-- The largest public exponent. -/
def maxExponent : Nat := 0x1ffffffff

/-- Whether the byte string is a number without leading zeros. -/
def isMinimal (bs : Bytes) : Bool := bs.headD 0 != 0

/-- Whether a modulus is odd, of minimal form, and has whole bytes for at least 2048 bits and at most
`maxBits` bits. -/
def modulusFits (maxBits : Nat) (modulus : Bytes) : Bool :=
  let n := Bytes.toNatBE modulus
  isMinimal modulus && n % 2 == 1 && decide (2048 ≤ 8 * modulus.length)
    && decide (bitLength n ≤ maxBits)

/-- Whether an exponent is odd, of minimal form, and between `least` and `maxExponent`. -/
def exponentFits (least : Nat) (exponent : Bytes) : Bool :=
  let e := Bytes.toNatBE exponent
  isMinimal exponent && decide (exponent.length ≤ 5) && decide (least ≤ e)
    && decide (e ≤ maxExponent) && e % 2 == 1

/-! ### Verification -/

/-- Whether a signature is valid. -/
def isSignature (q : Signature.Question) : Bool :=
  let n := Bytes.toNatBE q.key.modulus
  let s := Bytes.toNatBE q.signature
  modulusFits 8192 q.key.modulus && exponentFits 3 q.key.exponent
    && q.signature.length == q.key.modulus.length && decide (0 < s) && decide (s < n)
    && Bytes.ofNatBE q.key.modulus.length (powMod s (Bytes.toNatBE q.key.exponent) n)
      == encodeMessage q.key.modulus.length q.message

/-- The verifier of this library keeps no state. -/
structure SoftVerifier where
  deriving DecidableEq, Repr

instance : Signature.Verifier SoftVerifier where
  verify q v := (if isSignature q then .ok () else .error .badSignature, v)

/-! ### Signing -/

/-- A private key: the public parts and what the Chinese remainder theorem needs, with `p` the larger
prime. -/
structure PrivateKey where
  modulus : Bytes
  exponent : Bytes
  p : Nat
  q : Nat
  exponentP : Nat
  exponentQ : Nat
  /-- The inverse of `q` modulo `p`. -/
  coefficient : Nat
  deriving DecidableEq, Repr

namespace PrivateKey

/-- The public half as a key blob. -/
def publicBlob (k : PrivateKey) : Bytes :=
  Bytes.ofNatLE 2 k.modulus.length ++ k.modulus
    ++ Bytes.ofNatLE 1 k.exponent.length ++ k.exponent

/-- The root of `c` modulo the modulus, put together from its remainders modulo the two primes. -/
def root (k : PrivateKey) (c : Nat) : Nat :=
  let m := powMod c k.exponentP k.p
  let l := powMod c k.exponentQ k.q
  (l + k.q * (k.coefficient * (m + k.p - l % k.p) % k.p)) % Bytes.toNatBE k.modulus

/-- The signature of a message; a key whose parts do not belong together gives none. -/
def sign? (k : PrivateKey) (message : Bytes) : Option Bytes :=
  let n := Bytes.toNatBE k.modulus
  let c := Bytes.toNatBE (encodeMessage k.modulus.length message)
  let s := k.root c
  if powMod s (Bytes.toNatBE k.exponent) n = c then some (Bytes.ofNatBE k.modulus.length s)
  else none

end PrivateKey

instance : Signature.Signer PrivateKey where
  size k := k.modulus.length
  sign message k :=
    match k.sign? message with
    | some s => (.ok s, k)
    | none => (.error .unspecified, k)

end PlatformGuard.Rsa
