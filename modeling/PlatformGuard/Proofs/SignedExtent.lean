import PlatformGuard.Manifest
import PlatformGuard.Proofs.Reading

/-!
# What a signed extent says

A manifest is read from all of its bytes, but only those in front of the signature decide what it says.
`Manifest.ofSigned` reads these alone, and every manifest that is accepted is the one that its signed
extent says, with the signature put behind it.
-/

namespace PlatformGuard.Manifest

open Decoder

/-! ### Headers -/

theorem Header.isLocal_decoder : Header.decoder.IsLocal := by
  have hn : ∀ n, IsLocal (little n : Decoder Error Nat) := fun n => (isLocal_take n).map _
  refine ((hn 2).map _).bind fun length => ((hn 2).map _).bind fun magic =>
    ((hn 4).map _).bind fun id => ((hn 2).map _).bind fun signatureLength =>
    ((hn 1).map _).bind fun scheme => ((hn 1).map _).bind fun _ => ?_
  refine (isLocal_some? _ _).bind fun format => (isLocal_some? _ _).bind fun scheme =>
    (isLocal_require _ _).bind fun _ => (isLocal_require _ _).bind fun _ => ?_
  exact isLocal_pure _

theorem Header.sized_decoder : Sized headerLength Header.decoder := by
  have hn : ∀ n, Sized n (little n : Decoder Error Nat) := fun n => (sized_take n).map _
  refine ((hn 2).map _).bind (n := 10) (fun length => ?_) rfl
  refine ((hn 2).map _).bind (n := 8) (fun magic => ?_) rfl
  refine ((hn 4).map _).bind (n := 4) (fun id => ?_) rfl
  refine ((hn 2).map _).bind (n := 2) (fun signatureLength => ?_) rfl
  refine ((hn 1).map _).bind (n := 1) (fun scheme => ?_) rfl
  refine ((hn 1).map _).bind (n := 0) (fun _ => ?_) rfl
  refine (sized_some? _ _).bind (n := 0) (fun format => ?_) rfl
  refine (sized_some? _ _).bind (n := 0) (fun scheme => ?_) rfl
  refine (sized_require _ _).bind (n := 0) (fun _ => ?_) rfl
  refine (sized_require _ _).bind (n := 0) (fun _ => ?_) rfl
  exact sized_pure _

/-- A header is read from its own twelve bytes. -/
theorem Header.read_ok {bytes : Bytes} {h : Header} (hr : Header.decoder.read bytes = .ok h) :
    headerLength ≤ bytes.length ∧ Reads Header.decoder (bytes.take headerLength) h := by
  obtain ⟨front, hb, hf⟩ := Header.isLocal_decoder (show Header.decoder.on bytes = (.ok h, _) from
    Prod.ext hr rfl)
  have hs := Header.sized_decoder (show Header.decoder.on bytes = (.ok h, _) from Prod.ext hr rfl)
  have hl : front.length = headerLength := by
    have := congrArg List.length hb
    rw [List.length_append] at this
    omega
  refine ⟨by omega, ?_⟩
  rw [hb, ← hl, List.take_left]
  exact hf

/-- Byte strings that agree on the first twelve bytes have the same header. -/
theorem Header.read_of_take {bytes other : Bytes} {h : Header}
    (hr : Header.decoder.read bytes = .ok h)
    (ho : other.take headerLength = bytes.take headerLength) :
    Header.decoder.read other = .ok h := by
  have : Header.decoder.on (bytes.take headerLength ++ other.drop headerLength) = (.ok h, _) :=
    (Header.read_ok hr).2 (other.drop headerLength)
  rw [← ho, List.take_append_drop] at this
  exact congrArg Prod.fst this

/-- A header that was read is long enough for itself and its signature. -/
theorem Header.length_le {bytes : Bytes} {h : Header} (hr : Header.decoder.read bytes = .ok h) :
    headerLength + h.signatureLength.toNat ≤ h.length.toNat := by
  have hd : Header.decoder.Ensures fun h => headerLength + h.signatureLength.toNat ≤ h.length.toNat := by
    refine ensures_bind fun length => ensures_bind fun magic => ensures_bind fun id =>
      ensures_bind fun signatureLength => ensures_bind fun scheme => ensures_bind fun _ =>
      ensures_bind fun format => ensures_bind fun scheme => ensures_bind fun _ => ?_
    refine (ensures_require _ _).bind fun _ hle => ensures_pure ?_
    simpa using hle
  exact hd (show Header.decoder.on bytes = (.ok h, _) from Prod.ext hr rfl)

theorem Header.le_signedLength {bytes : Bytes} {h : Header}
    (hr : Header.decoder.read bytes = .ok h) : headerLength ≤ h.signedLength := by
  have := Header.length_le hr
  unfold Header.signedLength
  omega

/-! ### Manifests -/

theorem Envelope.parse_eq_ok {bytes : Bytes} {e : Envelope} :
    Envelope.parse bytes = .ok e ↔
      Header.decoder.read bytes = .ok e.header ∧ bytes.length = e.header.length.toNat ∧
        e.bytes = bytes := by
  unfold Envelope.parse
  rw [Steps.exceptBind_eq_ok]
  constructor
  · rintro ⟨h, hr, hp⟩
    by_cases h₁ : bytes.length < h.length.toNat
    · rw [if_pos h₁] at hp
      cases hp
    · by_cases h₂ : h.length.toNat < bytes.length
      · rw [if_neg h₁, if_pos h₂] at hp
        cases hp
      · rw [if_neg h₁, if_neg h₂] at hp
        cases hp
        exact ⟨hr, by simp only; omega, rfl⟩
  · rintro ⟨hr, hl, rfl⟩
    refine ⟨e.header, hr, ?_⟩
    rw [if_neg (by omega), if_neg (by omega)]
    rfl

/-- A manifest is accepted if its bytes have the length that the header says and its contents fill the
signed extent. -/
theorem parse_eq_ok {bytes : Bytes} {m : Manifest} :
    parse bytes = .ok m ↔
      Header.decoder.read bytes = .ok m.envelope.header ∧
        bytes.length = m.envelope.header.length.toNat ∧ m.envelope.bytes = bytes ∧
        (contents m.envelope.header.format).on m.envelope.body = (.ok (m.platformId, m.body), []) := by
  unfold parse
  rw [Steps.exceptBind_eq_ok]
  constructor
  · rintro ⟨e, he, hm⟩
    obtain ⟨hr, hl, hb⟩ := Envelope.parse_eq_ok.1 he
    split at hm
    · rename_i hc
      cases hm
      exact ⟨hr, hl, hb, hc⟩
    · cases hm
    · cases hm
  · rintro ⟨hr, hl, hb, hc⟩
    refine ⟨m.envelope, Envelope.parse_eq_ok.2 ⟨hr, hl, hb⟩, ?_⟩
    rw [hc]
    rfl

/-- The manifest that a signed extent says; its envelope holds the extent alone. -/
def ofSigned (signed : Bytes) : Except Error Manifest := do
  let header ← Header.decoder.read signed
  match (contents header.format).on (signed.drop headerLength) with
  | (.ok (platformId, body), []) => return { envelope := ⟨header, signed⟩, platformId, body }
  | (.ok _, _ :: _) => throw .trailingBytes
  | (.error e, _) => throw e

/-- An accepted manifest is what its signed extent says. -/
theorem ofSigned_of_parse {bytes : Bytes} {m : Manifest} (h : parse bytes = .ok m) :
    ofSigned m.envelope.signed =
      .ok { m with envelope := ⟨m.envelope.header, m.envelope.signed⟩ } := by
  obtain ⟨hr, -, hb, hc⟩ := parse_eq_ok.1 h
  have hs : Header.decoder.read m.envelope.signed = .ok m.envelope.header := by
    refine Header.read_of_take hr ?_
    rw [Envelope.signed, List.take_take, hb, Nat.min_eq_left (Header.le_signedLength hr)]
  unfold ofSigned
  rw [Steps.exceptBind_eq_ok]
  refine ⟨_, hs, ?_⟩
  rw [← Envelope.body, hc]
  rfl

end PlatformGuard.Manifest
