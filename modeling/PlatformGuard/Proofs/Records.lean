import PlatformGuard.Proofs.Views

/-!
# The bytes of records

Every record of a manifest can be told from its own bytes: it needs at least one byte, what follows it does
not matter, and without its last byte it is truncated.  Lists of records need no separators, then.  What a
walk over a list keeps is the bytes of its records one behind the other, and whoever reads the list again
from there finds the same records and nothing else.

Both kinds of readers are treated: those that leave lists where they lie, and those that copy them.
-/

namespace PlatformGuard.Manifest

open Decoder

/-! ### Records that are copied at once -/

theorem Image.isDelimited_decoder : Image.decoder.IsDelimited := by
  refine isDelimited_u8.bind fun _ => isDelimited_u8.bind fun _ => isDelimited_u8.bind fun _ =>
    isDelimited_u8.bind fun _ => ?_
  refine (isDelimited_some? _ _).bind fun _ => (isDelimited_require _ _).bind fun _ =>
    (isDelimited_require _ _).bind fun _ => ?_
  rw [ite_bind]
  refine IsDelimited.bind ?_ fun _ => (isDelimited_take _).bind fun _ => (isDelimited_lift _).bind fun _ =>
    isDelimited_pure _
  split
  · exact View.isDelimited_readSignature
  · exact (isDelimited_take _).map _

theorem Version.isDelimited_decoder : Version.decoder.IsDelimited := by
  refine isDelimited_u8.bind fun _ => isDelimited_u8.bind fun _ => isDelimited_u8.bind fun _ =>
    isDelimited_u8.bind fun _ => ?_
  refine (isDelimited_require _ _).bind fun _ => isDelimited_le32.bind fun _ =>
    (isDelimited_take _).bind fun _ => (isDelimited_skip _).bind fun _ => ?_
  exact (View.isDelimited_rwRegion.times _).bind fun _ => (Image.isDelimited_decoder.times _).bind fun _ =>
    isDelimited_pure _

theorem Firmware.isDelimited_decoder : Firmware.decoder.IsDelimited := by
  refine isDelimited_u8.bind fun _ => isDelimited_u8.bind fun _ => isDelimited_u8.bind fun _ =>
    isDelimited_u8.bind fun _ => ?_
  refine (View.isDelimited_readId _).bind fun _ => (isDelimited_skip _).bind fun _ => ?_
  exact (Version.isDelimited_decoder.times _).bind fun _ => (isDelimited_require _ _).bind fun _ =>
    isDelimited_pure _

theorem isDelimited_readRegion : Image.readRegion.IsDelimited :=
  ((isDelimited_big 4).map _).bind fun _ => ((isDelimited_big 4).map _).bind fun _ => isDelimited_some? _ _

namespace View

instance : Record Manifest.Image := ⟨Manifest.Image.decoder⟩
instance : Record Manifest.Version := ⟨Manifest.Version.decoder⟩
instance : Record Manifest.Firmware := ⟨Manifest.Firmware.decoder⟩

/-! ### Lists of records -/

/-- Records of a kind show where they end, one by one and in lists. -/
structure Delimited (β : Type) [Record β] : Prop where
  /-- Whatever is read is read from the bytes of a record. -/
  record {s rest : Bytes} {b : β} : Record.decoder.on s = (.ok b, rest) ↔
    ∃ front, s = front ++ rest ∧ Record.decoder.Spans front b
  /-- A walk sees as many records as it should, all of which pass, and keeps the bytes of these. -/
  walk {check : β → Except Error Unit} {n : Nat} {s span rest : Bytes} {bs : List β} :
    (walk check n).on s = (.ok (bs, span), rest) ↔
      s = span ++ rest ∧ bs.length = n ∧ (∀ b ∈ bs, check b = .ok ()) ∧
        ∃ fronts, List.Forall₂ Record.decoder.Spans fronts bs ∧ span = fronts.flatten
  /-- The same records are read again from what a walk kept, and no byte is left. -/
  again {check : β → Except Error Unit} {n : Nat} {s span rest : Bytes} {bs : List β} :
    (View.walk check n).on s = (.ok (bs, span), rest) →
      (times n Record.decoder).on span = (.ok bs, []) ∧ (⟨span, n⟩ : Records β).items = bs.map .ok

/-- Delimited readers that need some byte read delimited records. -/
theorem delimited_of_isDelimited {β : Type} [Record β] (hd : IsDelimited (Record.decoder (β := β)))
    (hempty : (Record.decoder (β := β)).read [] = .error .truncated) : Delimited β := by
  have hwalk : ∀ {check : β → Except Error Unit} {n : Nat} {s span rest : Bytes} {bs : List β},
      (View.walk check n).on s = (.ok (bs, span), rest) ↔ s = span ++ rest ∧
        (times n Record.decoder).on span = (.ok bs, []) ∧ ∀ b ∈ bs, check b = .ok () := by
    intro check n s span rest bs
    rw [on_walk_ok hd, ((isDelimited_checked β hd).times n).isLocal.reads_iff, on_times_checked_ok]
  refine ⟨hd.on_ok hempty, ?_, fun h => ?_⟩
  · intro check n s span rest bs
    rw [hwalk, hd.on_times_ok hempty]
    simp only [List.append_nil]
    constructor
    · rintro ⟨hs, ⟨hlength, hspan⟩, hchecks⟩
      exact ⟨hs, hlength, hchecks, hspan⟩
    · rintro ⟨hs, hlength, hchecks, hspan⟩
      exact ⟨hs, ⟨hlength, hspan⟩, hchecks⟩
  · have hread := (hwalk.1 h).2.1
    exact ⟨hread, readings_of_times hread⟩

/-- **Records are self-delimiting**, whether their lists are left where they lie or copied. -/
theorem records_delimited :
    (Delimited Firmware ∧ Delimited Version ∧ Delimited RwRegion ∧ Delimited Image ∧ Delimited Region ∧
      Delimited SmbusRule) ∧
    Delimited Manifest.Firmware ∧ Delimited Manifest.Version ∧ Delimited Manifest.Image := by
  refine ⟨⟨?_, ?_, ?_, ?_, ?_, ?_⟩, ?_, ?_, ?_⟩
  · exact delimited_of_isDelimited Firmware.isDelimited_decoder rfl
  · exact delimited_of_isDelimited Version.isDelimited_decoder rfl
  · exact delimited_of_isDelimited isDelimited_rwRegion rfl
  · exact delimited_of_isDelimited Image.isDelimited_decoder rfl
  · exact delimited_of_isDelimited isDelimited_readRegion rfl
  · exact delimited_of_isDelimited isDelimited_smbusRule rfl
  · exact delimited_of_isDelimited Manifest.Firmware.isDelimited_decoder rfl
  · exact delimited_of_isDelimited Manifest.Version.isDelimited_decoder rfl
  · exact delimited_of_isDelimited Manifest.Image.isDelimited_decoder rfl

/-- A firmware component whose one version has a region that may be written and an image. -/
def nested : Bytes :=
  [1, 1, 0, 0, 0x66, 0, 0, 0] ++ [1, 1, 1, 0, 1, 0, 0, 0, 0x76, 0, 0, 0] ++
    [2, 0, 0, 0, 0x00, 0x40, 0, 0, 0x00, 0x80, 0, 0] ++
    ([0, 1, 0, 0] ++ List.replicate 32 0x77 ++ [0, 0, 0x10, 0, 0, 0, 0x20, 0])

/-- Cut within the last region of its image it is truncated, and doubled it is a list of two. -/
theorem nested_delimited : ∃ f, Firmware.decoder.on (nested ++ [0xff]) = (.ok f, [0xff]) ∧
    Firmware.decoder.read (nested.take 72) = .error .truncated ∧
    (walk (fun _ => .ok ()) 2).on (nested ++ nested ++ [0xff]) = (.ok ([f, f], nested ++ nested), [0xff]) ∧
    (⟨nested ++ nested, 2⟩ : Records Firmware).items = [.ok f, .ok f] := by
  obtain ⟨⟨hfirmware, -⟩, -⟩ := records_delimited
  obtain ⟨f, hf⟩ : ∃ f, (Firmware.decoder.on (nested ++ [0xff])).1 = .ok f := by
    have hsome : (Firmware.decoder.on (nested ++ [0xff])).1.toOption.isSome = true := by decide +kernel
    obtain ⟨f, hf⟩ := Option.isSome_iff_exists.1 hsome
    exact ⟨f, Steps.toOption_eq_some.1 hf⟩
  have hleft : (Firmware.decoder.on (nested ++ [0xff])).2 = [0xff] := by decide +kernel
  have hread : Firmware.decoder.on (nested ++ [0xff]) = (.ok f, [0xff]) := Prod.ext hf hleft
  obtain ⟨front, hfront, hspans⟩ := hfirmware.record.1 hread
  obtain rfl := List.append_cancel_right hfront
  have hwalk : (walk (fun _ : Firmware => .ok ()) 2).on (nested ++ nested ++ [0xff]) =
      (.ok ([f, f], nested ++ nested), [0xff]) :=
    hfirmware.walk.2 ⟨rfl, rfl, fun _ _ => rfl, [nested, nested], .cons hspans (.cons hspans .nil), rfl⟩
  exact ⟨f, hread, hspans.short 72 (by decide), hwalk, (hfirmware.again hwalk).2⟩

end View

end PlatformGuard.Manifest
