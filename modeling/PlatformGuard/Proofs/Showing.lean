import PlatformGuard.Cli.Memory
import PlatformGuard.Proofs.Forms
import PlatformGuard.Proofs.Reencoding
import PlatformGuard.Proofs.Signing

/-!
# Showing a manifest and signing it again

A manifest is shown as the text of its draft, and the command that signs takes such a text.  Every field of a
draft is read back from what was written of it, with one exception: a byte string that holds a zero is
written but not read.  No id holds one, so it is the version strings that decide whether a manifest that is
shown can be signed again (`sign_shown`).
-/

namespace PlatformGuard.Manifest

open Decoder Draft Json Json.Form Json.Fields

namespace Draft

/-! ### The forms of drafts -/

theorem Bounds.faithful_form : Bounds.form.Faithful := by
  refine Fields.Faithful.record ?_ fun _ => rfl
  exact (readsBack_required faithful_radix32).both (readsBack_required faithful_radix32) (by decide)

theorem RwRegion.faithful_form : RwRegion.form.Faithful := by
  have hpolicy : (Form.variant : Form FailurePolicy).Faithful :=
    faithful_variant (by rintro (_ | _ | _) <;> rfl)
  refine Fields.Faithful.record ?_ fun _ => rfl
  refine Fields.Faithful.both (readsBack_defaulted hpolicy _) ?_ (by decide)
  refine Fields.Faithful.both (readsBack_defaulted faithful_bool _) ?_ (by decide)
  exact (readsBack_required faithful_radix32).both (readsBack_required faithful_radix32) (by decide)

theorem Image.faithful_form : Image.form.Faithful := by
  have halgorithm : (Form.variant : Form Hash.Algorithm).Faithful :=
    faithful_variant (by rintro (_ | _ | _) <;> rfl)
  refine Fields.Faithful.record ?_ fun _ => rfl
  refine Fields.Faithful.both (readsBack_required halgorithm) ?_ (by decide)
  refine Fields.Faithful.both (readsBack_defaulted faithful_bool _) ?_ (by decide)
  refine Fields.Faithful.both (faithful_omissible faithful_hex _) ?_ (by decide)
  refine Fields.Faithful.both (faithful_omissible faithful_hex _) ?_ (by decide)
  refine Fields.Faithful.both (faithful_omissible faithful_hex _) ?_ (by decide)
  exact readsBack_required Bounds.faithful_form.list

theorem SmbusRule.faithful_form : SmbusRule.form.Faithful := by
  refine Fields.Faithful.record ?_ fun _ => rfl
  refine Fields.Faithful.both (readsBack_required faithful_radix8) ?_ (by decide)
  refine Fields.Faithful.both (readsBack_required faithful_radix8) ?_ (by decide)
  exact (readsBack_required faithful_radix8).both (readsBack_required faithful_hex) (by decide)

/-- Whether the version string holds no zero. -/
def Version.isZeroFree (v : Version) : Bool := v.version.all (· != 0)

def Firmware.isZeroFree (f : Firmware) : Bool := f.versions.all Version.isZeroFree

/-- Whether no byte string of the draft holds a zero. -/
def isZeroFree (d : Draft) : Bool :=
  d.platformId.all (· != 0) && d.firmware.all Firmware.isZeroFree

theorem Version.readsBack_form : Version.form.ReadsBack Version.isZeroFree := by
  refine ReadsBack.record (p := fun a => a.1.all (· != 0)) ?_ (fun _ => rfl) fun _ => rfl
  refine ReadsBack.both_faithful (readsBack_required readsBack_byteString) ?_ (by decide)
  refine Fields.Faithful.both (readsBack_required faithful_radix32) ?_ (by decide)
  exact Fields.Faithful.both (readsBack_defaulted RwRegion.faithful_form.list _)
    (readsBack_defaulted Image.faithful_form.list _) (by decide)

theorem Firmware.readsBack_form : Firmware.form.ReadsBack Firmware.isZeroFree := by
  have hid : (Form.text.option).Faithful := faithful_text.option fun _ => nofun
  refine ReadsBack.record (p := fun a => a.2.2.all Version.isZeroFree) ?_ (fun _ => rfl) fun _ => rfl
  refine Fields.Faithful.both_readsBack (q := fun a : UInt8 × List Version => a.2.all Version.isZeroFree)
    (faithful_omissible hid _) ?_ (by decide)
  exact Fields.Faithful.both_readsBack (q := fun vs : List Version => vs.all Version.isZeroFree)
    (readsBack_defaulted faithful_radix8 _)
    (readsBack_defaulted (readsBack_list Version.readsBack_form) _) (by decide)

theorem readsBack_form : form.ReadsBack isZeroFree := by
  have hformat : (Form.variant : Form Format).Faithful :=
    faithful_variant (by rintro (_ | _) <;> rfl)
  refine ReadsBack.record
    (p := fun a => a.2.2.1.all (· != 0) && a.2.2.2.2.1.all Firmware.isZeroFree) ?_ (fun _ => rfl)
    fun _ => rfl
  refine Fields.Faithful.both_readsBack
    (q := fun a : UInt32 × Bytes × UInt8 × List Firmware × List SmbusRule =>
      a.2.1.all (· != 0) && a.2.2.2.1.all Firmware.isZeroFree)
    (readsBack_required hformat) ?_ (by decide)
  refine Fields.Faithful.both_readsBack
    (q := fun a : Bytes × UInt8 × List Firmware × List SmbusRule =>
      a.1.all (· != 0) && a.2.2.1.all Firmware.isZeroFree)
    (readsBack_required faithful_radix32) ?_ (by decide)
  refine ReadsBack.both
    (q := fun a : UInt8 × List Firmware × List SmbusRule => a.2.1.all Firmware.isZeroFree)
    (readsBack_required readsBack_byteString) ?_ (by decide)
  refine Fields.Faithful.both_readsBack
    (q := fun a : List Firmware × List SmbusRule => a.1.all Firmware.isZeroFree)
    (readsBack_defaulted faithful_radix8 _) ?_ (by decide)
  exact ReadsBack.both_faithful
    (readsBack_defaulted (readsBack_list Firmware.readsBack_form) _)
    (readsBack_defaulted SmbusRule.faithful_form.list _) (by decide)

end Draft

/-! ### Encoding what was shown -/

/-- The free bytes of what a signature covers. -/
def signedMask (m : Manifest) : Mask := used 11 ++ free 1 ++ m.contentsMask

/-- The draft of a manifest is encoded as what the signature of the manifest covers, with zeros in the
free places. -/
theorem encodeSigned_of_parse {bytes : Bytes} {m : Manifest} (h : Manifest.parse bytes = .ok m) :
    ∃ covered, (ofManifest m).encodeSigned m.signature.length = .ok covered ∧
      Restores m.signedMask m.envelope.signed covered := by
  obtain ⟨hr, hl, hb, hc⟩ := parse_eq_ok.1 h
  obtain ⟨-, front, rest, hbytes, hhead⟩ := header_ok hr
  obtain ⟨hformat, body, back, hbody, hback, hrestores, -⟩ := contents_ok hc
  rw [List.append_nil] at hbody
  subst hbody
  have hfront : front.length = headerLength := by
    rw [← hhead.length_mask]
    rfl
  obtain ⟨hparts, hsignature⟩ := parts_of_parse h hfront hbytes
  have hsigned : m.envelope.signed = front ++ m.envelope.body := by
    have hcut : m.envelope.signed ++ m.signature = bytes := by
      rw [Envelope.signed, Manifest.signature, Envelope.signature, List.take_append_drop, hb]
    exact List.append_cancel_right (hcut.trans hparts)
  have hheader : (ofManifest m).header back.length m.signature.length = .ok m.envelope.header := by
    have hlength : headerLength + back.length + m.signature.length =
        m.envelope.header.length.toNat := by
      rw [← hl, hrestores.length_eq, ← hfront, hparts, List.length_append, List.length_append]
    have hlt := m.envelope.header.length.toNat_lt
    rw [Draft.header, hlength, if_neg (by omega), hsignature, UInt16.ofNat_toNat, UInt16.ofNat_toNat]
    change Except.ok (Header.mk _ m.format m.envelope.header.id _ _) = _
    rw [hformat]
  refine ⟨m.envelope.header.encode ++ back, ?_, ?_⟩
  · rw [encodeSigned, hback]
    change ((ofManifest m).header back.length m.signature.length >>= _ : Except _ Bytes) = _
    rw [hheader]
    rfl
  · rw [hsigned]
    exact hhead.append hrestores

/-- No version string of the manifest holds a zero. -/
def ZeroFree (m : Manifest) : Prop := ∀ f ∈ m.firmware, ∀ v ∈ f.versions, (0 : UInt8) ∉ v.version

/-- A byte string of the draft of a manifest that holds a zero is a version string. -/
theorem isZeroFree_ofManifest {bytes : Bytes} {m : Manifest} (h : Manifest.parse bytes = .ok m) :
    (ofManifest m).isZeroFree = true ↔ m.ZeroFree := by
  obtain ⟨-, -, -, hc⟩ := parse_eq_ok.1 h
  obtain ⟨-, -, -, -, -, -, hrecord⟩ := contents_ok hc
  have hid : ∀ b ∈ m.platformId, (b != 0) = true := by
    intro b hb
    have hlow := ((contents?_eq_some.1 hrecord).1.2 b hb).1
    rw [bne_iff_ne]
    rintro rfl
    exact absurd hlow (by decide)
  have hversion : ∀ v : Manifest.Version,
      (Draft.Version.ofRecord v).isZeroFree = true ↔ (0 : UInt8) ∉ v.version := by
    intro v
    rw [Version.isZeroFree, List.all_eq_true]
    constructor
    · intro hall hzero
      exact absurd (hall 0 hzero) (by decide)
    · intro hzero b hb
      rw [bne_iff_ne]
      rintro rfl
      exact hzero hb
  have hfirmware : ∀ f : Manifest.Firmware, (Draft.Firmware.ofRecord f).isZeroFree = true ↔
      ∀ v ∈ f.versions, (0 : UInt8) ∉ v.version := by
    intro f
    rw [Firmware.isZeroFree, Draft.Firmware.ofRecord, List.all_map, List.all_eq_true]
    exact forall₂_congr fun v _ => hversion v
  have hplatform : (ofManifest m).platformId.all (· != 0) = true := List.all_eq_true.2 hid
  rw [isZeroFree, hplatform, Bool.true_and, ofManifest, List.all_map, List.all_eq_true]
  exact forall₂_congr fun f _ => hfirmware f

end PlatformGuard.Manifest

namespace PlatformGuard.Der

/-! ### Writing keys -/

/-- An element with its tag and its length. -/
def encode (tag : UInt8) (content : Bytes) : Bytes :=
  let n := content.length
  let length :=
    if n < 0x80 then [UInt8.ofNat n]
    else if n < 0x100 then [0x81, UInt8.ofNat n]
    else 0x82 :: Bytes.ofNatBE 2 n
  tag :: length ++ content

/-- A number of at most `size` bytes of which the highest is not zero. -/
def encodeNatural (size n : Nat) : Bytes :=
  let digits := Bytes.ofNatBE size n
  encode Tag.integer (if digits.headD 0 < 0x80 then digits else 0 :: digits)

end PlatformGuard.Der

namespace PlatformGuard.Cli

open Manifest

/-! ### Running the commands -/

/-- The text in which a manifest is shown. -/
def shown (pretty : Bool) (m : Manifest) : Bytes :=
  let value := Draft.form.write (.ofManifest m)
  Bytes.ofText (if pretty then value.renderIndented else value.render)

/-- The command that goes from standard input to standard output. -/
def Action.command (action : Action) : Command := { action, input := none, output := none }

/-- What such a command does in memory. -/
def Action.piped (action : Action) : Program (StateM Memory) Unit := action.command.run

/-- What is printed for an input, among the given files, unless the command fails. -/
def printed (files : List (String × Bytes)) (action : Action) (input : Bytes) : Except Failure Bytes :=
  let (r, s) := action.piped (Memory.ofFiles files input)
  r.map fun _ => s.output

/-- A shown manifest is read as its draft, unless a version string holds a zero. -/
theorem read_shown {bytes : Bytes} {m : Manifest} (h : Manifest.parse bytes = .ok m) (pretty : Bool) :
    (m.ZeroFree → Json.read Draft.form (shown pretty m) = .ok (.ofManifest m)) ∧
      (¬m.ZeroFree → Json.read Draft.form (shown pretty m) = .error .malformed) := by
  have hread : Json.read Draft.form (shown pretty m) =
      if (Draft.ofManifest m).isZeroFree then .ok (.ofManifest m) else .error .malformed := by
    cases pretty with
    | false => exact Draft.readsBack_form.read_render _
    | true => exact Draft.readsBack_form.read_renderIndented _
  rw [hread, ← isZeroFree_ofManifest h]
  constructor
  · exact fun hz => if_pos hz
  · exact fun hz => if_neg hz

section memory
variable {files : List (String × Bytes)} {s : Memory} {α : Type}

/-- An operation that succeeds is a part of a command that succeeds. -/
theorem use_run {message : String} {operation : StateM Memory (Except String α)} {a : α} {t : Memory}
    (h : operation s = (.ok a, t)) :
    (use message operation : Program (StateM Memory) α) s = (.ok a, t) := by
  change (orFail message id (operation s).1 : Program (StateM Memory) α) (operation s).2 = _
  rw [h]
  rfl

theorem openStreams_run (a : Action) :
    (openStreams a.command : Program (StateM Memory) Unit) s = (.ok (), s) := rfl

theorem readAll_run (a : Action) :
    (readAll a.command : Program (StateM Memory) Bytes) s = (.ok s.input, s) := rfl

theorem writeAll_run (message : String) (a : Action) (bytes : Bytes) :
    (writeAll message a.command bytes : Program (StateM Memory) Unit) s =
      (.ok (), { s with output := s.output ++ bytes }) := rfl

/-- Whatever the check of a signature finds, it only warns. -/
theorem checkSignature_run {bytes : Bytes} {e : Envelope} (h : Envelope.parse bytes = .ok e)
    (blob : Bytes) : ∃ reports,
      (checkSignature bytes blob : Program (StateM Memory) Unit) s = (.ok (), { s with reports }) := by
  unfold checkSignature
  cases PublicKey.ofBlob blob with
  | error e => exact ⟨_, rfl⟩
  | ok key =>
    have hrun : (do
        let envelope ← orFail "failed to parse envelope" Status.label (Envelope.parse bytes)
        if !isSignedBy key envelope then warn "signature verification failed"
        : Program (StateM Memory) Unit) s =
        (if !isSignedBy key e then warn "signature verification failed" else pure () :
          Program (StateM Memory) Unit) s := by
      rw [h]
      rfl
    simp only [hrun]
    split
    · exact ⟨_, rfl⟩
    · exact ⟨_, rfl⟩

/-- Among the files is a private key under the path. -/
def HasKey (files : List (String × Bytes)) (path : String) (key : Rsa.PrivateKey) : Prop :=
  ∃ file, files.lookup path = some file ∧ Rsa.PrivateKey.ofPkcs8? file = some key

theorem readKey_run {path : String} {key : Rsa.PrivateKey} (h : HasKey s.files path key) :
    (readKey path : Program (StateM Memory) Rsa.PrivateKey) s = (.ok key, s) := by
  obtain ⟨file, hf, hk⟩ := h
  have hread : (Console.readFile path : StateM Memory (Except String Bytes)) s = (.ok file, s) := by
    change Memory.read path s = _
    rw [Memory.read, hf]
  refine Steps.bind_eq_ok.2 ⟨file, s, use_run hread, ?_⟩
  rw [hk]
  rfl

theorem checkingBlob_run {viewer : Option String} (hv : ∀ path ∈ viewer, ∃ key, HasKey s.files path key)
    (format : Format) (trailer : Bytes) : ∃ blob,
      (checkingBlob viewer format trailer : Program (StateM Memory) (Option Bytes)) s = (.ok blob, s) := by
  cases viewer with
  | none => cases format <;> exact ⟨_, rfl⟩
  | some path =>
    obtain ⟨key, hkey⟩ := hv path rfl
    exact ⟨some key.publicBlob, Steps.bind_eq_ok.2 ⟨key, s, readKey_run hkey, rfl⟩⟩

/-- A manifest is shown as the text of its draft, whatever stands behind it in the input and whichever key
its signature is checked with. -/
theorem present_run {bytes trailer : Bytes} {m : Manifest} {viewer : Option String}
    (h : Manifest.parse bytes = .ok m) (hs : s.input = bytes ++ trailer)
    (hv : ∀ path ∈ viewer, ∃ key, HasKey s.files path key) (pretty : Bool) : ∃ reports,
      (Action.present viewer pretty).piped s =
        (.ok (), { s with output := s.output ++ shown pretty m, reports }) := by
  obtain ⟨hr, hl, hb, -⟩ := parse_eq_ok.1 h
  have henvelope : Envelope.parse bytes = .ok m.envelope := Envelope.parse_eq_ok.2 ⟨hr, hl, hb⟩
  have hheader : Header.decoder.read (bytes ++ trailer) = .ok m.envelope.header := by
    have hle := Header.length_le hr
    refine Header.read_of_take hr (List.take_append_of_le_length ?_)
    omega
  have hlong : ¬(bytes ++ trailer).length < m.envelope.header.length.toNat := by
    rw [List.length_append]
    omega
  have htake : (bytes ++ trailer).take m.envelope.header.length.toNat = bytes := by
    rw [← hl, List.take_left]
  have hall : (readAll (Action.present viewer pretty).command : Program (StateM Memory) Bytes) s =
      (.ok (bytes ++ trailer), s) := by
    rw [← hs, readAll_run]
  obtain ⟨blob, hblob⟩ := checkingBlob_run hv m.envelope.header.format
    ((bytes ++ trailer).drop m.envelope.header.length.toNat)
  change ∃ reports, (present (Action.present viewer pretty).command viewer pretty :
    Program (StateM Memory) Unit) s = _
  rw [present, Steps.bind_apply, openStreams_run]
  simp only
  rw [Steps.bind_apply, hall]
  simp only [hheader]
  change ∃ reports, (if (bytes ++ trailer).length < m.envelope.header.length.toNat then _ else _ :
    Program (StateM Memory) Unit) s = _
  rw [if_neg hlong, htake, Steps.bind_apply, hblob]
  cases blob with
  | none =>
    simp only [h]
    exact ⟨_, rfl⟩
  | some blob =>
    obtain ⟨reports, hcheck⟩ := checkSignature_run (s := s) henvelope blob
    refine ⟨reports, ?_⟩
    simp only
    rw [Steps.bind_apply, hcheck]
    simp only [h]
    rfl

/-- What is signed is the draft that the input says. -/
theorem sign_run {path : String} {key : Rsa.PrivateKey} (h : HasKey s.files path key) :
    (Action.sign path false).piped s =
      match Json.read Draft.form s.input with
      | .error e => (.error ⟨"failed to parse PFM", jsonReason e⟩, s)
      | .ok d =>
        match signDraft key d with
        | .error e => (.error ⟨"failed to sign PFM", Status.label e⟩, s)
        | .ok signed => (.ok (), { s with output := s.output ++ signed }) := by
  change (sign (Action.sign path false).command path false : Program (StateM Memory) Unit) s = _
  rw [sign, Steps.bind_apply, openStreams_run]
  simp only
  rw [Steps.bind_apply, readKey_run h]
  simp only
  rw [Steps.bind_apply, readAll_run]
  simp only
  cases Json.read Draft.form s.input with
  | error e => rfl
  | ok d =>
    change (orFail "failed to sign PFM" Status.label (signDraft key d) >>= _ :
      Program (StateM Memory) Unit) s = match signDraft key d with
        | .error e => (.error ⟨"failed to sign PFM", Status.label e⟩, s)
        | .ok signed => (.ok (), { s with output := s.output ++ signed })
    rw [Steps.bind_apply]
    cases signDraft key d with
    | error e => rfl
    | ok signed =>
      change (writeAll "failed to write manifest" (Action.sign path false).command (signed ++ []) :
        Program (StateM Memory) Unit) s = _
      rw [List.append_nil, writeAll_run]

theorem HasKey.ofFiles {path : String} {key : Rsa.PrivateKey} (h : HasKey files path key)
    (input : Bytes) : HasKey (Memory.ofFiles files input).files path key := by
  obtain ⟨file, hf, hk⟩ := h
  refine ⟨file, ?_, hk⟩
  change (files ++ _).lookup path = some file
  rw [List.lookup_append, hf]
  rfl

theorem printed_present {bytes : Bytes} {m : Manifest} {viewer : Option String}
    (h : Manifest.parse bytes = .ok m) (hv : ∀ path ∈ viewer, ∃ key, HasKey files path key)
    (trailer : Bytes) (pretty : Bool) :
    printed files (.present viewer pretty) (bytes ++ trailer) = .ok (shown pretty m) := by
  have hinput : (Memory.ofFiles files (bytes ++ trailer)).input = bytes ++ trailer := rfl
  have hkeys : ∀ path ∈ viewer,
      ∃ key, HasKey (Memory.ofFiles files (bytes ++ trailer)).files path key := by
    intro path hpath
    obtain ⟨key, hkey⟩ := hv path hpath
    exact ⟨key, hkey.ofFiles _⟩
  obtain ⟨reports, hrun⟩ := present_run h hinput hkeys pretty
  rw [printed, hrun]
  rfl

theorem printed_sign {path : String} {key : Rsa.PrivateKey} (h : HasKey files path key) (text : Bytes) :
    printed files (.sign path false) text =
      match Json.read Draft.form text with
      | .error e => .error ⟨"failed to parse PFM", jsonReason e⟩
      | .ok d => (signDraft key d).mapError fun e => ⟨"failed to sign PFM", Status.label e⟩ := by
  have hinput : (Memory.ofFiles files text).input = text := rfl
  rw [printed, sign_run (h.ofFiles text), hinput]
  cases Json.read Draft.form text with
  | error e => rfl
  | ok d =>
    simp only
    cases signDraft key d <;> rfl

/-- A draft that can be encoded is signed, unless the key makes no signature. -/
theorem signDraft_eq {key : Rsa.PrivateKey} {d : Draft} {covered : Bytes}
    (h : d.encodeSigned key.modulus.length = .ok covered) :
    signDraft key d = match key.sign? (Hash.Algorithm.sha256.digest covered) with
      | some signature => .ok (covered ++ signature)
      | none => .error (.signature .unspecified) := by
  have hsign : Signature.Signer.sign (Hash.Algorithm.sha256.digest covered) key =
      match key.sign? (Hash.Algorithm.sha256.digest covered) with
      | some signature => (.ok signature, key)
      | none => (.error .unspecified, key) := rfl
  let e : Engines Hash.SoftEngine Rsa.PrivateKey := ⟨.idle, key⟩
  cases hs : key.sign? (Hash.Algorithm.sha256.digest covered) with
  | some signature =>
    rw [hs] at hsign
    obtain ⟨e', hrun⟩ := Draft.sign_of_ok (e := e) Hash.working_idle h hsign
    rw [signDraft, hrun]
  | none =>
    rw [hs] at hsign
    obtain ⟨e', hdigest, -⟩ := Hash.working_idle.contiguous .sha256 covered
    have hrun : d.sign e = (.error (.signature .unspecified), ⟨e', key⟩) := by
      refine Steps.bind_eq_error.2 (.inr ⟨e, e, rfl, ?_⟩)
      rw [show d.encodeSigned (Signature.Signer.size e.signature) = .ok covered from h]
      refine Steps.bind_eq_error.2 (.inr ⟨_, ⟨e', key⟩, Engines.onHash_ok.2 ⟨hdigest, rfl⟩, ?_⟩)
      refine Steps.bind_eq_error.2 (.inl ?_)
      simp only [Engines.onSignature, hsign]
      rfl
    rw [signDraft, hrun]

/-- **Showing and signing again.**  A manifest that was accepted is shown as the text of its draft.  That text
is read as the very draft if no version string holds a zero, and signing it gives back what the signature of
the manifest covers, with zeros in the free places.  If a version string holds a zero, the text is refused. -/
theorem sign_shown {bytes : Bytes} {m : Manifest} {viewer : Option String}
    (h : Manifest.parse bytes = .ok m) (hv : ∀ path ∈ viewer, ∃ key, HasKey files path key)
    (trailer : Bytes) (pretty : Bool) :
    ∃ text, printed files (.present viewer pretty) (bytes ++ trailer) = .ok text ∧
      (m.ZeroFree → Json.read Draft.form text = .ok (.ofManifest m) ∧
        ∃ covered, Restores m.signedMask m.envelope.signed covered ∧
          ∀ path key, HasKey files path key → key.modulus.length = m.signature.length →
            printed files (.sign path false) text =
              match key.sign? (Hash.Algorithm.sha256.digest covered) with
              | some signature => .ok (covered ++ signature)
              | none => .error ⟨"failed to sign PFM", "Sig(Unspecified)"⟩) ∧
      (¬m.ZeroFree → Json.read Draft.form text = .error .malformed ∧
        ∀ path key, HasKey files path key →
          printed files (.sign path false) text = .error ⟨"failed to parse PFM", "malformed JSON"⟩) := by
  obtain ⟨hread, hrefuse⟩ := read_shown h pretty
  obtain ⟨covered, hcovered, hrestores⟩ := encodeSigned_of_parse h
  refine ⟨shown pretty m, printed_present h hv trailer pretty, ?_, ?_⟩
  · intro hz
    refine ⟨hread hz, covered, hrestores, ?_⟩
    intro path key hkey hlength
    rw [← hlength] at hcovered
    rw [printed_sign hkey, hread hz]
    simp only [signDraft_eq hcovered]
    cases key.sign? (Hash.Algorithm.sha256.digest covered) <;> rfl
  · intro hz
    refine ⟨hrefuse hz, ?_⟩
    intro path key hkey
    rw [printed_sign hkey, hrefuse hz]
    rfl

end memory

/-! ### A manifest that is shown and signed again -/

/-- A private key whose primes are the two largest below `2 ^ 1024`. -/
def keyFile : Bytes :=
  let p := 2 ^ 1024 - 105
  let q := 2 ^ 1024 - 179
  let parts := Der.encodeNatural 1 0 ++ Der.encodeNatural 256 (p * q) ++ Der.encodeNatural 3 65537 ++
    Der.encodeNatural 256 ((1 + 42579 * ((p - 1) * (q - 1) / 2)) / 65537) ++
    Der.encodeNatural 128 p ++ Der.encodeNatural 128 q ++
    Der.encodeNatural 128 ((1 + 23094 * (p - 1)) / 65537) ++
    Der.encodeNatural 128 ((1 + 25629 * (q - 1)) / 65537) ++
    Der.encodeNatural 128 ((5 * p - 1) / 74)
  Der.encode Der.Tag.sequence (Der.encodeNatural 1 0 ++
    Der.encode Der.Tag.sequence Rsa.algorithmIdentifier ++
    Der.encode Der.Tag.octetString (Der.encode Der.Tag.sequence parts))

def keyFiles : List (String × Bytes) := [("key", keyFile)]

/-- A manifest without a zero in its version, the key, and the signature that the key makes for it. -/
def resigned? : Option (Manifest × Rsa.PrivateKey × Bytes) := do
  let m ← (Manifest.parse cluttered).toOption
  let key ← Rsa.PrivateKey.ofPkcs8? keyFile
  let signature ← key.sign? (Hash.Algorithm.sha256.digest (clear m.signedMask m.envelope.signed))
  if (Draft.ofManifest m).isZeroFree ∧ key.modulus.length = m.signature.length then
    return (m, key, signature)
  else
    none

theorem cluttered_shown : ∃ m key signature text covered, Manifest.parse cluttered = .ok m ∧
    m.ZeroFree ∧ HasKey keyFiles "key" key ∧ key.modulus.length = m.signature.length ∧
    printed keyFiles (.present (some "key") true) (cluttered ++ []) = .ok text ∧
    Json.read Draft.form text = .ok (.ofManifest m) ∧
    Restores m.signedMask m.envelope.signed covered ∧
    printed keyFiles (.sign "key" false) text = .ok (covered ++ signature) := by
  have hsome : resigned?.isSome = true := by decide +kernel
  obtain ⟨⟨m, key, signature⟩, hresigned⟩ := Option.isSome_iff_exists.1 hsome
  simp only [resigned?, Option.bind_eq_bind, Option.bind_eq_some_iff] at hresigned
  obtain ⟨_, hm, _, hkey, _, hsignature, hresigned⟩ := hresigned
  obtain ⟨⟨hz, hlength⟩, hresigned⟩ := Option.ite_none_right_eq_some.1 hresigned
  cases hresigned
  replace hm : Manifest.parse cluttered = .ok m := Steps.toOption_eq_some.1 hm
  have hz : m.ZeroFree := (isZeroFree_ofManifest hm).1 hz
  have hkey : HasKey keyFiles "key" key := ⟨keyFile, rfl, hkey⟩
  have hviewer : ∀ path ∈ some "key", ∃ key, HasKey keyFiles path key := by
    rintro _ ⟨⟩
    exact ⟨key, hkey⟩
  obtain ⟨text, htext, haccept, -⟩ := sign_shown hm hviewer [] true
  obtain ⟨hread, covered, hrestores, hsign⟩ := haccept hz
  refine ⟨m, key, signature, text, covered, hm, hz, hkey, hlength, htext, hread, hrestores, ?_⟩
  have hsigned := hsign "key" key hkey hlength
  rw [hrestores.eq_clear] at hsigned ⊢
  rw [hsigned, hsignature]

/-! ### A manifest that is shown and refused -/

/-- A legacy manifest whose only version is a letter and a zero. -/
def zeroVersion : Bytes :=
  [0x20, 0x01, 0x4d, 0x50, 7, 0, 0, 0, 0x00, 0x01, 0, 0] ++ [1, 0, 0x41, 0] ++ [1, 0, 0, 0] ++
    [0, 0, 2, 0, 0, 0, 0, 0, 0x76, 0x00, 0, 0] ++ List.replicate 256 0x99

theorem zeroVersion_refused : ∃ m, Manifest.parse zeroVersion = .ok m ∧
    ∀ pretty, printed [] (.present none pretty) zeroVersion = .ok (shown pretty m) ∧
      Json.read Draft.form (shown pretty m) = .error .malformed := by
  have hsome : ((Manifest.parse zeroVersion).toOption.any fun m => !(Draft.ofManifest m).isZeroFree) =
      true := by decide +kernel
  obtain ⟨m, hm, hz⟩ := (Option.any_eq_true _ _).1 hsome
  replace hm : Manifest.parse zeroVersion = .ok m := Steps.toOption_eq_some.1 hm
  have hz : ¬m.ZeroFree := by
    rw [← isZeroFree_ofManifest hm]
    simpa using hz
  have hviewer : ∀ path ∈ (none : Option String), ∃ key, HasKey [] path key := nofun
  refine ⟨m, hm, fun pretty => ⟨?_, (read_shown hm pretty).2 hz⟩⟩
  have hprinted := printed_present hm hviewer [] pretty
  rwa [List.append_nil] at hprinted

end PlatformGuard.Cli
