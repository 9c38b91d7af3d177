/-!
# Byte strings

Numbers of a fixed width in both byte orders, hexadecimal text, and equality that looks at every
byte.
-/

namespace PlatformGuard

/-- A string of bytes, first byte first. -/
abbrev Bytes := List UInt8

namespace Bytes

/-! ### Numbers -/

/-- The number that the bytes spell, lowest byte first. -/
def toNatLE : Bytes → Nat
  | [] => 0
  | b :: bs => b.toNat + 256 * toNatLE bs

/-- The lowest `k` bytes of a number, lowest byte first. -/
def ofNatLE : (k n : Nat) → Bytes
  | 0, _ => []
  | k + 1, n => UInt8.ofNat n :: ofNatLE k (n / 256)

/-- The number that the bytes spell, highest byte first. -/
def toNatBE (bs : Bytes) : Nat := bs.foldl (fun n b => 256 * n + b.toNat) 0

/-- The lowest `k` bytes of a number, highest byte first. -/
def ofNatBE (k n : Nat) : Bytes := (ofNatLE k n).reverse

def le16 (x : UInt16) : Bytes := ofNatLE 2 x.toNat
def le32 (x : UInt32) : Bytes := ofNatLE 4 x.toNat
def be32 (x : UInt32) : Bytes := ofNatBE 4 x.toNat

def zeros (n : Nat) : Bytes := List.replicate n 0

@[simp]
theorem length_ofNatLE (k n : Nat) : (ofNatLE k n).length = k := by
  induction k generalizing n with
  | zero => rfl
  | succ k ih => simp [ofNatLE, ih]

@[simp]
theorem length_ofNatBE (k n : Nat) : (ofNatBE k n).length = k := by simp [ofNatBE]

theorem ofNatLE_toNatLE (bs : Bytes) : ofNatLE bs.length (toNatLE bs) = bs := by
  induction bs with
  | nil => rfl
  | cons b bs ih =>
    have hb := b.toNat_lt
    have h1 : (b.toNat + 256 * toNatLE bs) / 256 = toNatLE bs := by omega
    have h2 : UInt8.ofNat (b.toNat + 256 * toNatLE bs) = b := by
      apply UInt8.toNat_inj.1
      rw [UInt8.toNat_ofNat']
      omega
    simp [toNatLE, ofNatLE, h1, h2, ih]

/-! ### Equality that looks at every byte -/

/-- Whether two byte strings of one length agree, decided from the union of all their differing
bits rather than at the first difference. -/
def ctEq (a b : Bytes) : Bool :=
  a.length == b.length && (List.zipWith (· ^^^ ·) a b).foldl (· ||| ·) 0 == 0

/-! ### Hexadecimal text -/

/-- A digit of base 16 or less, in lower case. -/
def digitChar (n : Nat) : Char :=
  if n < 10 then Char.ofNat ('0'.toNat + n) else Char.ofNat ('a'.toNat + (n - 10))

/-- Two lower-case digits for each byte. -/
def toHexChars (bs : Bytes) : List Char :=
  bs.flatMap fun b => [digitChar (b.toNat / 16), digitChar (b.toNat % 16)]

def toHex (bs : Bytes) : String := String.ofList bs.toHexChars

/-! ### Text -/

/-- The UTF-8 form of a text. -/
def ofText (s : String) : Bytes := s.toList.flatMap String.utf8EncodeChar

/-- The text that the bytes are the UTF-8 form of. -/
def toText? (bs : Bytes) : Option String := String.fromUTF8? (ByteArray.mk bs.toArray)

/-- Printable ASCII: a blank or a visible character. -/
def isPrintable (b : UInt8) : Bool := 0x20 ≤ b && b ≤ 0x7e

end Bytes

end PlatformGuard
