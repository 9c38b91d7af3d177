import PlatformGuard.Signature.Der
import PlatformGuard.Signature.Rsa

/-!
# PKCS#8 private keys

Reading of RFC 5208 keys that hold an RFC 8017 RSA private key, with the consistency checks that a
key has to pass before it may sign.
-/

namespace PlatformGuard.Rsa

/-- The algorithm identifier of RSA keys: its object identifier and the null parameter. -/
def algorithmIdentifier : Bytes :=
  [0x06, 0x09, 0x2a, 0x86, 0x48, 0x86, 0xf7, 0x0d, 0x01, 0x01, 0x01, 0x05, 0x00]

/-- The integers of an RSA private key, in their order. -/
structure KeyParts where
  modulus : Bytes
  publicExponent : Bytes
  privateExponent : Bytes
  prime1 : Bytes
  prime2 : Bytes
  exponent1 : Bytes
  exponent2 : Bytes
  coefficient : Bytes

/-- The content of an RSA private key of version 0. -/
def keyParts : Der.Reader KeyParts := do
  let version ← Der.small
  if version ≠ 0 then failure
  let modulus ← Der.positive
  let publicExponent ← Der.positive
  let privateExponent ← Der.positive
  let prime1 ← Der.positive
  let prime2 ← Der.positive
  let exponent1 ← Der.positive
  let exponent2 ← Der.positive
  let coefficient ← Der.positive
  return { modulus, publicExponent, privateExponent, prime1, prime2, exponent1, exponent2,
           coefficient }

/-- The private key inside a PKCS#8 key of version 0; attributes are passed over. -/
def privateKeyOctets : Der.Reader Bytes := do
  let version ← Der.small
  if version ≠ 0 then failure
  let algorithm ← Der.element Der.Tag.sequence
  if algorithm ≠ algorithmIdentifier then failure
  let octets ← Der.element Der.Tag.octetString
  if (← get).head? = some Der.Tag.context0 then
    let _ ← Der.element Der.Tag.context0
  return octets

/-- Whether an exponent of the Chinese remainder theorem is odd and below its prime. -/
def exponentBelow (prime exponent : Nat) : Bool := decide (exponent < prime) && exponent % 2 == 1

/-- Whether a prime is odd and its length in bits is a multiple of 512. -/
def primeFits (prime : Nat) : Bool := prime % 2 == 1 && bitLength prime % 512 == 0

/-- The key with the given parts, if they are consistent.  The larger prime comes first; where that
swaps the two, their coefficient is computed anew.  The product of the primes has to be a multiple of the
modulus, and the square of the smaller one has to have an odd remainder. -/
def KeyParts.toPrivateKey? (k : KeyParts) : Option PrivateKey :=
  let n := Bytes.toNatBE k.modulus
  let d := Bytes.toNatBE k.privateExponent
  let p₁ := Bytes.toNatBE k.prime1
  let p₂ := Bytes.toNatBE k.prime2
  let e₁ := Bytes.toNatBE k.exponent1
  let e₂ := Bytes.toNatBE k.exponent2
  let half := (bitLength n + 1) / 2
  let swapped := !decide (p₂ < p₁)
  let p := if swapped then p₂ else p₁
  let q := if swapped then p₁ else p₂
  let exponentP := if swapped then e₂ else e₁
  let exponentQ := if swapped then e₁ else e₂
  let coefficient :=
    if swapped then powMod q (p - 2) p else Bytes.toNatBE k.coefficient
  if modulusFits 4096 k.modulus && exponentFits 65537 k.publicExponent
      && bitLength p == half && bitLength q == half
      && decide (p < n) && decide (q < n) && p * q % n == 0 && q * q % n % 2 == 1
      && decide (half < bitLength d) && decide (d < n) && d % 2 == 1
      && primeFits p && primeFits q
      && exponentBelow p exponentP && exponentBelow q exponentQ
      && decide (coefficient < p) && coefficient * q % p == 1 then
    some { modulus := k.modulus, exponent := k.publicExponent, p, q, exponentP, exponentQ,
           coefficient }
  else
    none

/-- The private key that a PKCS#8 byte string holds, if its modulus has a sanctioned size. -/
def PrivateKey.ofPkcs8? (bs : Bytes) : Option PrivateKey := do
  let content ← Der.whole (Der.element Der.Tag.sequence) bs
  let octets ← Der.whole privateKeyOctets content
  let inner ← Der.whole (Der.element Der.Tag.sequence) octets
  let parts ← Der.whole keyParts inner
  let key ← parts.toPrivateKey?
  let _ ← ModulusSize.ofBytes? key.modulus.length
  return key

end PlatformGuard.Rsa
