import PlatformGuard.Proofs.Sections
import PlatformGuard.Proofs.Verdicts

/-!
# What a recovery image exposes

The header of a recovery image says how long the image is and how long its signature.  These lengths come
from outside, and everything else is cut out with them.  Two byte strings that agree on the bytes that the
signature covers are nevertheless parsed alike: neither what lies behind an image nor its signature reaches
the parts that are restored, and what is verified is a digest of all of the bytes that do.

The core lemma is `IsImage.congr`: being an image is a property of the covered bytes.
-/

namespace PlatformGuard.RecoveryImage

open Recovery Signature

/-! ### Images that agree -/

/-- How many bytes an image has. -/
def length (i : RecoveryImage) : Nat := i.header.imageLength.toNat

/-- How many bytes its signature covers. -/
def coveredLength (i : RecoveryImage) : Nat := i.length - i.header.signatureLength.toNat

theorem length_encode_header {h : Header} (hh : h.WellFormed) : h.encode.length = headerLength := by
  simp [Header.encode, Bytes.le16, Bytes.le32, hh.version, headerLength]

/-- An image stays an image if the bytes change that its signature does not cover. -/
theorem IsImage.congr {b b₂ id : Bytes} {h : Header} {ss : List Section} (hb : IsImage b h id ss)
    (hl : h.imageLength.toNat ≤ b₂.length)
    (ht : b₂.take (h.imageLength.toNat - h.signatureLength.toNat) =
      b.take (h.imageLength.toNat - h.signatureLength.toNat)) : IsImage b₂ h id ss where
  header := by
    have hroom := hb.room
    have hfits : h.encode.length ≤ h.imageLength.toNat - h.signatureLength.toNat := by
      rw [length_encode_header hb.wellFormed, headerLength]
      omega
    have hcovered : h.encode <+: b.take (h.imageLength.toNat - h.signatureLength.toNat) :=
      List.prefix_take_iff.2 ⟨hb.header, hfits⟩
    rw [← ht] at hcovered
    exact hcovered.trans (List.take_prefix _ _)
  wellFormed := hb.wellFormed
  signatureLength := hb.signatureLength
  complete := hl
  room := hb.room
  idLength := hb.idLength
  sections := hb.sections
  body := by
    rw [ht]
    exact hb.body

/-- What agrees with an image on the covered bytes is parsed to the same image, but for the signature. -/
theorem parse_of_covered {b b₂ : Bytes} {i : RecoveryImage} (hi : parse b = .ok i)
    (hl : i.length ≤ b₂.length) (ht : b₂.take i.coveredLength = b.take i.coveredLength) :
    parse b₂ = .ok { i with signature := (b₂.take i.length).drop i.coveredLength } := by
  obtain ⟨ss, hb, hbytes, hsigned, -⟩ := parse_eq_ok.1 hi
  exact parse_eq_ok.2 ⟨ss, hb.congr hl ht, hbytes, hsigned.trans ht.symm, rfl⟩

/-- What agrees with an image on all of its bytes is parsed to the same image. -/
theorem parse_of_take {b b₂ : Bytes} {i : RecoveryImage} (hi : parse b = .ok i)
    (ht : b₂.take i.length = b.take i.length) : parse b₂ = .ok i := by
  obtain ⟨ss, hb, -, -, hsignature⟩ := parse_eq_ok.1 hi
  have hcomplete : i.length ≤ b.length := hb.complete
  have hl : i.length ≤ b₂.length := by
    have := congrArg List.length ht
    rw [List.length_take, List.length_take] at this
    omega
  have hle : i.coveredLength ≤ i.length := Nat.sub_le _ _
  have hcovered : b₂.take i.coveredLength = b.take i.coveredLength := by
    have := congrArg (List.take i.coveredLength) ht
    rwa [List.take_take, List.take_take, Nat.min_eq_left hle] at this
  rw [parse_of_covered hi hl hcovered, ht]
  exact congrArg Except.ok (congrArg (fun s => { i with signature := s }) hsignature.symm)

/-! ### Verification -/

/-- The question that decides about the image at the front of `b`: whether its last bytes are a signature of
the SHA-256 digest of all bytes before them. -/
def question (i : RecoveryImage) (b : Bytes) (key : PublicKey) : Question :=
  ⟨key, (b.take i.length).drop i.coveredLength,
    Hash.Algorithm.sha256.digest (b.take i.coveredLength)⟩

section verifying
variable {η ν : Type} [Hash.Engine η] [Hash.Lawful η] [Verifier ν]

/-- How the verification of the image at the front of `b` ends. -/
structure Judged (i : RecoveryImage) (b : Bytes) (key : PublicKey) (e : Engines η (Transcript ν)) :
    Prop where
  /-- A working engine computes the digest of the covered bytes. -/
  computes : Hash.Working e.hash → ∃ h, Hash.Computes [b.take i.coveredLength] e.hash h
  /-- With the digest, the verifier is asked the one question and says how the verification ends. -/
  asked : ∀ h, Hash.Computes [b.take i.coveredLength] e.hash h →
    let answer := Verifier.verify (i.question b key) e.signature.verifier
    i.verify key e =
      (answer.1.mapError fun _ => .verifyFailed,
        ⟨h, ⟨answer.2, e.signature.asked ++ [i.question b key]⟩⟩)
  /-- Without the digest, the verifier is not asked. -/
  fault : (∀ h, ¬Hash.Computes [b.take i.coveredLength] e.hash h) →
    ∃ h, i.verify key e = (.error .verifyFailed, ⟨h, e.signature⟩)

theorem judged_of_parse {b : Bytes} {i : RecoveryImage} (hi : parse b = .ok i) (key : PublicKey)
    (e : Engines η (Transcript ν)) : i.Judged b key e := by
  obtain ⟨ss, -, -, hsigned, hsignature⟩ := parse_eq_ok.1 hi
  have hcovered : i.signed = b.take i.coveredLength := hsigned
  have hquestion : (⟨key, i.signature, Hash.Algorithm.sha256.digest i.signed⟩ : Question) =
      i.question b key := by
    rw [question, ← hcovered, hsignature]
    rfl
  refine ⟨fun hw => hw.computes _, fun h hc => ?_, fun hf => ?_⟩
  · rw [← hcovered] at hc
    unfold verify
    rw [Engines.verifySigned_of_computes hc, hquestion]
    rfl
  · rw [← hcovered] at hf
    exact Engines.verifySigned_of_fault hf

end verifying

/-- **Only signed data is exposed.**  Of a byte string that starts with an image, only the bytes of the image
matter, and all parts but the signature are a function of the covered bytes.  A verification asks one question,
about the signature and the digest of the covered bytes, and ends as it is answered; every failure is the same. -/
theorem parse_exposes_covered {b : Bytes} {i : RecoveryImage} (hi : parse b = .ok i) :
    (∀ b₂ : Bytes, b₂.take i.length = b.take i.length → parse b₂ = .ok i) ∧
    (∀ b₂ : Bytes, i.length ≤ b₂.length → b₂.take i.coveredLength = b.take i.coveredLength →
      parse b₂ = .ok { i with signature := (b₂.take i.length).drop i.coveredLength }) ∧
    ∀ {η ν : Type} [Hash.Engine η] [Hash.Lawful η] [Verifier ν] (key : PublicKey)
      (e : Engines η (Transcript ν)), i.Judged b key e :=
  ⟨fun _ ht => parse_of_take hi ht, fun _ hl ht => parse_of_covered hi hl ht,
    fun key e => judged_of_parse hi key e⟩

/-- The image without what lies behind it, and with another signature. -/
def resignedImage : Bytes := boardImage.take 85 ++ List.replicate 256 7

/-- Another tail changes nothing, another signature only the signature; the verifier has the last word. -/
theorem boardImage_exposed : ∃ i, parse boardImage = .ok i ∧ i.sections = boardSections ∧
    parse (boardImage.take 341) = .ok i ∧
    parse resignedImage = .ok { i with signature := List.replicate 256 7 } ∧
    (i.verify StoredManifest.idleKey (.deciding (.ok ()))).1 = .ok () ∧
    (i.verify StoredManifest.idleKey (.deciding (.error .badSignature))).1 = .error .verifyFailed ∧
    (i.verify StoredManifest.idleKey (.deciding (.ok ()))).2.signature.asked =
      [i.question boardImage StoredManifest.idleKey] := by
  obtain ⟨i, hi, hheader, -, hsections⟩ := parse_of_isImage boardImage_isImage
  obtain ⟨htail, hcovered, hverify⟩ := parse_exposes_covered hi
  have hlength : i.length = 341 := by rw [length, hheader]; rfl
  have hcut : i.coveredLength = 85 := by rw [coveredLength, hlength, hheader]; rfl
  have hresigned : parse resignedImage =
      .ok { i with signature := (resignedImage.take i.length).drop i.coveredLength } := by
    refine hcovered resignedImage ?_ ?_
    · rw [hlength]
      decide +kernel
    · rw [hcut]
      decide +kernel
  have hsignature : (resignedImage.take i.length).drop i.coveredLength = List.replicate 256 7 := by
    rw [hlength, hcut]
    decide +kernel
  have haccepted := hverify StoredManifest.idleKey (Engines.deciding (.ok ()))
  have hrefused := hverify StoredManifest.idleKey (Engines.deciding (.error .badSignature))
  obtain ⟨h, hc⟩ := haccepted.computes Hash.working_idle
  rw [hsignature] at hresigned
  refine ⟨i, hi, hsections, htail _ ?_, hresigned, ?_, ?_, ?_⟩
  · rw [hlength, List.take_take, Nat.min_self]
  · exact congrArg Prod.fst (haccepted.asked h hc)
  · exact congrArg Prod.fst (hrefused.asked h hc)
  · exact congrArg (fun r => r.2.signature.asked) (haccepted.asked h hc)

end PlatformGuard.RecoveryImage
