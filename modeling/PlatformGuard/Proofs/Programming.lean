import PlatformGuard.Proofs.Policies
import PlatformGuard.Proofs.SignedExtent

/-!
# What the filters hold

Programming a policy overwrites whatever the registers held before.  So a policy that was derived from
a manifest and programmed leaves filters that grant what the manifest says and nothing else, however
its regions overlap and whatever was programmed earlier.
-/

namespace PlatformGuard.Filter

/-! ### Single registers -/

namespace SoftFilter

variable {α : Type} {f g : SoftFilter}

/-- The registers of a monitor, if there is such a one. -/
def monitor? (f : SoftFilter) (device : UInt8) : Option SpiMonitor := f.monitors[device.toNat]?

/-- The registers of the filter of a bus, if there is such a one. -/
def bus? (f : SoftFilter) (bus : UInt8) : Option I2cFilter := f.buses[bus.toNat]?

theorem onMonitor_ok {device : UInt8} {step : ExceptT Error (StateM SpiMonitor) α} {a : α}
    (h : onMonitor device step f = (.ok a, g)) :
    ∃ m n, f.monitor? device = some m ∧ step m = (.ok a, n) ∧ g.monitor? device = some n := by
  unfold onMonitor at h
  split at h
  · rename_i hd
    obtain ⟨hr, rfl⟩ := Prod.mk.inj h
    refine ⟨f.monitors[device.toNat], _, Vector.getElem?_eq_getElem hd, Prod.ext hr rfl, ?_⟩
    exact Vector.getElem?_set_self hd
  · cases h

theorem onBus_ok {bus : UInt8} {step : ExceptT Error (StateM I2cFilter) α} {a : α}
    (h : onBus bus step f = (.ok a, g)) :
    g.monitors = f.monitors ∧
      ∃ b c, f.bus? bus = some b ∧ step b = (.ok a, c) ∧ g.bus? bus = some c := by
  unfold onBus at h
  split at h
  · rename_i hb
    obtain ⟨hr, rfl⟩ := Prod.mk.inj h
    refine ⟨rfl, f.buses[bus.toNat], _, Vector.getElem?_eq_getElem hb, Prod.ext hr rfl, ?_⟩
    exact Vector.getElem?_set_self hb
  · cases h

theorem change_ok {bus : UInt8} {step : I2cFilter → Except Error I2cFilter}
    (h : change bus step f = (.ok (), g)) :
    g.monitors = f.monitors ∧
      ∃ b c, f.bus? bus = some b ∧ step b = .ok c ∧ g.bus? bus = some c := by
  obtain ⟨hm, b, c, hb, hs, hc⟩ := onBus_ok h
  refine ⟨hm, b, c, hb, ?_, hc⟩
  split at hs
  · cases hs
  · split at hs
    · rename_i hstep
      cases hs
      exact hstep
    · cases hs

end SoftFilter

open SoftFilter

/-! ### The SPI monitor -/

/-- The words that are programmed, with locks if asked for. -/
def programmedWords (words : CommandWords) (lock : Bool) : CommandWords :=
  if lock then words.map (· ||| lockBit) else words

/-- Programming a monitor leaves the tables of the policy. -/
theorem SpiPolicy.apply_ok {p : SpiPolicy} {lock : Bool} {f g : SoftFilter}
    (h : p.apply lock f = (.ok (), g)) :
    ∃ m, g.monitor? p.device = some m ∧ m.commands = programmedWords p.commands.words lock ∧
      m.read = p.privileges.readTable ∧ m.write = p.privileges.writeTable := by
  obtain ⟨locked, f₁, -, h⟩ := Steps.bind_eq_ok.1 h
  cases locked with
  | true => cases h
  | false =>
    obtain ⟨_, f₂, hcommands, h⟩ := Steps.bind_eq_ok.1 h
    obtain ⟨m₁, m₂, -, hm₂, hf₂⟩ := onMonitor_ok hcommands
    obtain ⟨_, f₃, hprivileges, h⟩ := Steps.bind_eq_ok.1 h
    obtain ⟨m₂', m₃, hf₂', hm₃, hf₃⟩ := onMonitor_ok hprivileges
    -- the second step finds the monitor as the first left it
    obtain rfl : m₂ = m₂' := Option.some.inj (hf₂.symm.trans hf₂')
    have hw₂ : m₂.commands = p.commands.words := by
      split at hm₂
      · cases hm₂
      · cases hm₂
        rfl
    have hw₃ : m₃.commands = m₂.commands ∧ m₃.read = p.privileges.readTable ∧
        m₃.write = p.privileges.writeTable := by
      split at hm₃
      · cases hm₃
      · cases hm₃
        exact ⟨rfl, rfl, rfl⟩
    obtain ⟨hc, hr, hw⟩ := hw₃
    cases lock with
    | false =>
      cases h
      exact ⟨m₃, hf₃, hc.trans hw₂, hr, hw⟩
    | true =>
      rw [if_pos rfl] at h
      obtain ⟨m₃', m₄, hf₃', hm₄, hf₄⟩ := onMonitor_ok h
      obtain rfl : m₃ = m₃' := Option.some.inj (hf₃.symm.trans hf₃')
      cases hm₄
      refine ⟨_, hf₄, ?_, hr, hw⟩
      simp only [hc, hw₂, programmedWords, if_true]

/-! ### The filter of a bus -/

/-- The registers of a slot that is not used. -/
def unusedSlot : Slot := ⟨0, .denyAll⟩

/-- Slots are programmed in turn, and those before them stay. -/
theorem writeSlots_ok {bus : UInt8} {index : Nat} {ss : List (Option Slot)} {f g : SoftFilter}
    {b : I2cFilter} (hb : f.bus? bus = some b) (h : writeSlots bus index ss f = (.ok (), g)) :
    g.monitors = f.monitors ∧ ∃ c, g.bus? bus = some c ∧
      (∀ j (hj : j < busSlots), j < index → c.slots[j] = b.slots[j]) ∧
      ∀ k (hk : k < ss.length) (hj : index + k < busSlots),
        c.slots[index + k] = ss[k].getD unusedSlot := by
  induction ss generalizing index f b with
  | nil =>
    cases h
    exact ⟨rfl, b, hb, fun j hj _ => rfl, fun k hk => absurd hk (Nat.not_lt_zero k)⟩
  | cons s ss ih =>
    obtain ⟨_, f₁, hwrite, h⟩ := Steps.bind_eq_ok.1 h
    obtain ⟨hm, b', b₁, hb', hstep, hb₁⟩ := change_ok hwrite
    obtain rfl : b = b' := Option.some.inj (hb.symm.trans hb')
    split at hstep
    · rename_i hi
      cases hstep
      obtain ⟨hm', c, hc, hbefore, hafter⟩ := ih hb₁ h
      refine ⟨hm'.trans hm, c, hc, fun j hj hlt => ?_, fun k hk hj => ?_⟩
      · -- the rest is programmed behind this slot
        rw [hbefore j hj (by omega)]
        exact Vector.getElem_set_ne hi hj (by omega)
      · cases k with
        | zero =>
          refine (hbefore index hi (by omega)).trans ?_
          exact Vector.getElem_set_self hi
        | succ k =>
          have hjk : index + (k + 1) = index + 1 + k := by omega
          have := hafter k (Nat.lt_of_succ_lt_succ hk) (by omega)
          simpa [hjk] using this
    · cases hstep

/-- Programming the filter of a bus leaves the slots of the policy, and leaves the monitors alone. -/
theorem BusPolicy.apply_ok {p : BusPolicy} {lock : Bool} {f g : SoftFilter}
    (h : p.apply lock f = (.ok (), g)) :
    g.monitors = f.monitors ∧ ∃ c, g.bus? p.bus = some c ∧
      ∀ i : Fin busSlots, c.slots.get i = (p.slots.get i).getD unusedSlot := by
  obtain ⟨locked, f₁, hlocked, h⟩ := Steps.bind_eq_ok.1 h
  obtain ⟨hm₁, b, b₁, -, hb₁, hf₁⟩ := onBus_ok hlocked
  cases locked with
  | true => cases h
  | false =>
    obtain ⟨_, f₂, hwrite, h⟩ := Steps.bind_eq_ok.1 h
    obtain ⟨hm₂, c, hc, -, hslots⟩ := writeSlots_ok hf₁ hwrite
    have hslots' : ∀ i : Fin busSlots, c.slots.get i = (p.slots.get i).getD unusedSlot := by
      intro i
      have hi : c.slots[i.val] = (p.slots[i.val]).getD unusedSlot := by
        simpa using hslots i.val (by simp) (by simp)
      exact hi
    obtain ⟨_, f₃, henable, h⟩ := Steps.bind_eq_ok.1 h
    obtain ⟨hm₃, c', d, hc', hd, hf₃⟩ := change_ok henable
    obtain rfl : c = c' := Option.some.inj (hc.symm.trans hc')
    cases hd
    have hm : f₃.monitors = f.monitors := hm₃.trans (hm₂.trans hm₁)
    cases lock with
    | false =>
      cases h
      exact ⟨hm, _, hf₃, hslots'⟩
    | true =>
      rw [if_pos rfl] at h
      obtain ⟨hm₄, d', e, hd', he, hf₄⟩ := change_ok h
      obtain rfl := Option.some.inj (hf₃.symm.trans hd')
      cases he
      exact ⟨hm₄.trans hm, _, hf₄, hslots'⟩

/-! ### Rules of a manifest -/

section rules
open Manifest Decoder

/-- The devices of a body's rules are addresses as they stand before a write. -/
def EvenDevices : Body → Prop
  | .legacy _ => True
  | .v2 _ _ rules => ∀ r ∈ rules, r.device &&& 1 = 0

theorem ensures_rule : SmbusRule.decoder.Ensures fun r => r.device &&& 1 = 0 := by
  refine ensures_bind fun definition => ensures_bind fun _ => ensures_bind fun bus =>
    ensures_bind fun rule => ensures_bind fun device => ensures_bind fun passlist =>
    ensures_bind fun _ => ?_
  refine (ensures_require _ _).bind fun _ heven => ensures_pure ?_
  simpa using heven

theorem ensures_body (format : Format) : (Body.decoder format).Ensures EvenDevices := by
  cases format with
  | legacy =>
    exact ensures_bind fun count => ensures_bind fun _ => ensures_bind fun versions =>
      ensures_pure trivial
  | v2 =>
    refine ensures_bind fun blank => ensures_bind fun firmwareCount => ensures_bind fun _ =>
      ensures_bind fun firmware => ensures_bind fun _ => ensures_bind fun ruleCount =>
      ensures_bind fun _ => ?_
    exact (Ensures.times ensures_rule _).bind fun rules hrules => ensures_pure hrules.2

theorem evenDevices_of_parse {bytes : Bytes} {m : Manifest} (h : Manifest.parse bytes = .ok m) :
    EvenDevices m.body := by
  have hc : (contents m.envelope.header.format).Ensures fun c => EvenDevices c.2 := by
    refine ensures_bind fun length => ensures_bind fun _ => ensures_bind fun platformId =>
      ensures_bind fun _ => ?_
    exact (ensures_body _).bind fun body hbody => ensures_pure hbody
  obtain ⟨-, -, -, hon⟩ := parse_eq_ok.1 h
  exact hc hon

theorem device_eq {bytes : Bytes} {m : Manifest} (h : Manifest.parse bytes = .ok m) {r : SmbusRule}
    (hr : r ∈ m.smbusRules) : r.device.toNat = 2 * (r.device >>> 1).toNat := by
  have heven : r.device &&& 1 = 0 := by
    have hbody := evenDevices_of_parse h
    unfold Manifest.smbusRules at hr
    cases hb : m.body with
    | legacy versions =>
      rw [hb] at hr
      cases hr
    | v2 blank firmware rules =>
      rw [hb] at hr hbody
      exact hbody r hr
  have hmod : r.device.toNat &&& 1 = 0 := congrArg UInt8.toNat heven
  have hdiv : (r.device >>> 1).toNat = r.device.toNat / 2 := UInt8.toNat_shiftRight _ _
  rw [Nat.and_one_is_mod] at hmod
  omega

end rules

/-! ### The whole pipeline -/

/-- The registers of a monitor and of the filter of a bus hold what a manifest says for a version. -/
structure Enforces (m : Manifest) (v : Manifest.Version) (bus : UInt8) (monitor : SpiMonitor)
    (filter : I2cFilter) : Prop where
  /-- An address may be written if read-write regions hold all of its block. -/
  writable : ∀ a, grants monitor.write a = true ↔
    a < addressSpace ∧ ∀ b, b / blockSize = a / blockSize → ∃ r ∈ v.rwRegions, b ∈ r.region
  /-- An address may be read if a region holds some of its block. -/
  readable : ∀ a, grants monitor.read a = true ↔ ∃ b, b / blockSize = a / blockSize ∧
    ((∃ r ∈ v.rwRegions, b ∈ r.region) ∨ ∃ i ∈ v.images, ∃ r ∈ i.regions, b ∈ r)
  commands : HasSafe monitor.commands
  enabled : ∀ opcode, (∃ i : Fin slotCount, Enables (monitor.commands.get i) opcode) ↔
    ∃ c ∈ safeCommands, c.opcode = opcode
  allowed : ∀ opcode, CommandTable.contains ⟨monitor.commands⟩ opcode = true ↔
    ∃ c ∈ safeCommands, c.opcode = opcode
  /-- What a slot permits on its device, a rule permits. -/
  slots : ∀ (i : Fin busSlots) (offset : UInt8), (filter.slots.get i).bitmap.permits offset = true →
    ∃ r ∈ m.smbusRules, r.bus = bus ∧ r.device.toNat = 2 * (filter.slots.get i).device.toNat ∧
      r.permits offset = true

theorem unusedSlot_permits (offset : UInt8) : unusedSlot.bitmap.permits offset = false := by
  have h : ∀ n : Fin 256, Bits.testIn unusedSlot.bitmap.words n.val = false := by decide +kernel
  exact h ⟨offset.toNat, offset.toNat_lt⟩

/-- A slot that permits anything stands for a rule that permits it. -/
theorem rule_of_permits {bytes : Bytes} {m : Manifest} {bus : UInt8} {o : Option Slot} {offset : UInt8}
    (hm : Manifest.parse bytes = .ok m)
    (ho : ∀ s, o = some s → Policy.SlotOf bus m.smbusRules s)
    (hp : (o.getD unusedSlot).bitmap.permits offset = true) :
    ∃ r ∈ m.smbusRules, r.bus = bus ∧ r.device.toNat = 2 * (o.getD unusedSlot).device.toNat ∧
      r.permits offset = true := by
  cases o with
  | none =>
    rw [Option.getD_none, unusedSlot_permits] at hp
    cases hp
  | some s =>
    obtain ⟨r, hr, hbus, hdevice, hbitmap⟩ := ho s rfl
    rw [Option.getD_some, hbitmap, Manifest.SmbusRule.permits_words] at hp
    refine ⟨r, hr, hbus, ?_, hp⟩
    rw [Option.getD_some, hdevice]
    exact device_eq hm hr

/-- **From the manifest to the hardware.**  When a policy that was derived from an accepted manifest is
programmed, the registers hold what the manifest says for the version that was selected, whatever they held
before. -/
theorem programmed_enforces {δ : Type} [Hardware δ] {bytes : Bytes} {m : Manifest}
    {firmware : Option Bytes} {version : Bytes} {t : Target} {d d' : δ} {p : Policy}
    {lockSpi lockI2c : Bool} {f₁ f₂ f₃ : SoftFilter} (hm : Manifest.parse bytes = .ok m)
    (hp : Policy.synthesize m firmware version t d = (.ok p, d'))
    (hspi : p.spi.apply lockSpi f₁ = (.ok (), f₂)) (hi2c : p.i2c.apply lockI2c f₂ = (.ok (), f₃)) :
    ∃ v monitor filter, (m.findVersion firmware version = .ok v ∧ m.Selects firmware version v) ∧
      f₃.monitor? t.spiDevice = some monitor ∧ f₃.bus? t.i2cBus = some filter ∧
      Enforces m v t.i2cBus monitor filter := by
  obtain ⟨hdevice, hcommands, ⟨v, hv, hprivileges⟩, hslots⟩ := Policy.ofManifest_ok
    (Policy.synthesize_ok hp)
  obtain ⟨monitor, hmonitor, hwords, hread, hwrite⟩ := SpiPolicy.apply_ok hspi
  obtain ⟨hkeep, filter, hfilter, hfilled⟩ := BusPolicy.apply_ok hi2c
  obtain ⟨hbus, hrules⟩ := Policy.ruleSlots_ok hslots
  obtain ⟨hwritable, hreadable⟩ := Policy.versionPrivileges_ok hprivileges
  have hsafe : HasSafe monitor.commands := by
    rw [hwords, programmedWords]
    cases lockSpi with
    | true => exact (hasSafe_safeTable hcommands).lock
    | false => exact hasSafe_safeTable hcommands
  have hselects := Manifest.findVersion_eq_ok.1 hv
  refine ⟨v, monitor, filter, ⟨hv, hselects⟩, ?_, hbus ▸ hfilter, ⟨fun a => ?_, fun a => ?_, hsafe,
    hsafe.enables_iff, hsafe.contains_iff, fun i offset hpermits => ?_⟩⟩
  · rw [← hdevice, ← hmonitor]
    unfold monitor?
    rw [hkeep]
  · rw [hwrite, grants_writeTable]
    simp only [hwritable]
  · rw [hread, grants_readTable]
    simp only [hreadable]
  · rw [hfilled i] at hpermits ⊢
    refine rule_of_permits hm (fun s hs => hrules s ?_) hpermits
    rw [← hs]
    exact Vector.getElem_mem i.isLt

/-- A manifest whose firmware `f` in version `v` has the block at `0x4000` to write, and one rule for
offset zero of the device `0x50` on bus one. -/
def blockManifest : Bytes :=
  [0x60, 0x01, 0x6d, 0x70, 0, 0, 0, 0, 0x00, 0x01, 0, 0] ++ [1, 0, 0x41, 0] ++ [0xff, 1, 0, 0] ++
    [1, 1, 0, 0, 0x66, 0, 0, 0] ++ [0, 1, 1, 0, 0, 0, 0, 0, 0x76, 0, 0, 0] ++
    [0, 0, 0, 0, 0x00, 0x40, 0, 0, 0x00, 0x80, 0, 0] ++ [1, 0, 0, 0] ++
    [2, 0, 0, 0, 0, 1, 0, 0xa0, 1] ++ Bytes.zeros 31 ++ Bytes.zeros 256

/-- Whether the policy for this version can be derived and programmed. -/
def blockPolicy? : Option (Manifest × Policy × SoftFilter × SoftFilter) :=
  match Manifest.parse blockManifest with
  | .error _ => none
  | .ok m =>
    match Policy.synthesize m (some [0x66]) [0x76] ⟨0, 1⟩ SoftFilter.reset with
    | (.error _, _) => none
    | (.ok p, _) =>
      match p.spi.apply true .reset with
      | (.error _, _) => none
      | (.ok (), f) =>
        match p.i2c.apply false f with
        | (.error _, _) => none
        | (.ok (), g) => some (m, p, f, g)

theorem blockPolicy_enforced : ∃ m p f g, blockPolicy? = some (m, p, f, g) ∧
    ∃ v monitor filter,
      (m.findVersion (some [0x66]) [0x76] = .ok v ∧ m.Selects (some [0x66]) [0x76] v) ∧
      g.monitor? 0 = some monitor ∧ g.bus? 1 = some filter ∧ Enforces m v 1 monitor filter := by
  have hsome : blockPolicy?.isSome = true := by decide +kernel
  obtain ⟨⟨m, p, f, g⟩, h⟩ := Option.isSome_iff_exists.1 hsome
  refine ⟨m, p, f, g, h, ?_⟩
  unfold blockPolicy? at h
  split at h
  · cases h
  · rename_i hm
    split at h
    · cases h
    · rename_i hp
      split at h
      · cases h
      · rename_i hspi
        split at h
        · cases h
        · rename_i hi2c
          cases h
          exact programmed_enforces hm hp hspi hi2c

end PlatformGuard.Filter
