import PlatformGuard.Filter.Faulty
import PlatformGuard.Proofs.Locking
import PlatformGuard.Proofs.Sessions

/-!
# Policies that are applied in part

Applying a policy is a row of driver calls, first to an SPI monitor and then to the filter of a bus, and
any of them may fail.  What a failure leaves behind depends on how far the row came.  As long as the half
of the monitor is not completed with its lock, no lock is set, and applying the policy again leads where
the first attempt would have led.  But the monitor is locked before the filter of the bus is looked at:
where the second half fails then, the lock stays, and the policy cannot be applied any more.

A driver (`Driver`) does what the registers do or fails and leaves them alone, so the registers after a
failure are those after some of the calls.
-/

namespace PlatformGuard.Filter

/-! ### Registers -/

namespace SoftFilter

/-- The hardware with other registers of a monitor, if there is such a one. -/
def setMonitor (f : SoftFilter) (device : UInt8) (m : SpiMonitor) : SoftFilter :=
  { f with monitors := f.monitors.setIfInBounds device.toNat m }

/-- The hardware with other registers of the filter of a bus, if there is such a one. -/
def setBus (f : SoftFilter) (bus : UInt8) (c : I2cFilter) : SoftFilter :=
  { f with buses := f.buses.setIfInBounds bus.toNat c }

theorem setIfInBounds_of_lt {α : Type} {n i : Nat} {v : Vector α n} {x : α} (h : i < n) :
    v.setIfInBounds i x = v.set i x h := by
  apply Vector.ext
  intro j hj
  rw [Vector.getElem_setIfInBounds, Vector.getElem_set]

section registers
variable {α : Type} {f : SoftFilter} {device bus : UInt8} {m n : SpiMonitor} {b c : I2cFilter}

@[simp]
theorem bus?_setMonitor (d : UInt8) : (f.setMonitor device m).bus? d = f.bus? d := rfl

@[simp]
theorem monitor?_setBus (d : UInt8) : (f.setBus bus c).monitor? d = f.monitor? d := rfl

theorem monitor?_setMonitor_self (h : f.monitor? device = some m) :
    (f.setMonitor device n).monitor? device = some n := by
  obtain ⟨hd, -⟩ := Vector.getElem?_eq_some_iff.1 h
  change (f.monitors.setIfInBounds device.toNat n)[device.toNat]? = _
  rw [Vector.getElem?_setIfInBounds_self, if_pos hd]

theorem monitor?_setMonitor_of_ne {d : UInt8} (h : d ≠ device) :
    (f.setMonitor device n).monitor? d = f.monitor? d := by
  change (f.monitors.setIfInBounds device.toNat n)[d.toNat]? = _
  exact Vector.getElem?_setIfInBounds_ne fun heq => h (UInt8.toNat_inj.1 heq).symm

theorem bus?_setBus_self (h : f.bus? bus = some b) : (f.setBus bus c).bus? bus = some c := by
  obtain ⟨hb, -⟩ := Vector.getElem?_eq_some_iff.1 h
  change (f.buses.setIfInBounds bus.toNat c)[bus.toNat]? = _
  rw [Vector.getElem?_setIfInBounds_self, if_pos hb]

theorem bus?_setBus_of_ne {d : UInt8} (h : d ≠ bus) : (f.setBus bus c).bus? d = f.bus? d := by
  change (f.buses.setIfInBounds bus.toNat c)[d.toNat]? = _
  exact Vector.getElem?_setIfInBounds_ne fun heq => h (UInt8.toNat_inj.1 heq).symm

@[simp]
theorem setMonitor_setMonitor : (f.setMonitor device m).setMonitor device n = f.setMonitor device n := by
  unfold setMonitor
  rw [Vector.setIfInBounds_setIfInBounds]

@[simp]
theorem setBus_setBus : (f.setBus bus b).setBus bus c = f.setBus bus c := by
  unfold setBus
  rw [Vector.setIfInBounds_setIfInBounds]

theorem setBus_setMonitor :
    (f.setBus bus c).setMonitor device m = (f.setMonitor device m).setBus bus c := rfl

theorem setBus_self (h : f.bus? bus = some c) : f.setBus bus c = f := by
  obtain ⟨hb, rfl⟩ := Vector.getElem?_eq_some_iff.1 h
  unfold setBus
  rw [setIfInBounds_of_lt hb, Vector.set_getElem_self]

theorem onMonitor_of_some {step : ExceptT Error (StateM SpiMonitor) α} (h : f.monitor? device = some m) :
    onMonitor device step f = ((step m).1, f.setMonitor device (step m).2) := by
  obtain ⟨hd, rfl⟩ := Vector.getElem?_eq_some_iff.1 h
  unfold onMonitor setMonitor
  simp only [dif_pos hd, setIfInBounds_of_lt hd]
  rfl

theorem onBus_of_some {step : ExceptT Error (StateM I2cFilter) α} (h : f.bus? bus = some c) :
    onBus bus step f = ((step c).1, f.setBus bus (step c).2) := by
  obtain ⟨hb, rfl⟩ := Vector.getElem?_eq_some_iff.1 h
  unfold onBus setBus
  simp only [dif_pos hb, setIfInBounds_of_lt hb]
  rfl

end registers

end SoftFilter

/-! ### Drivers -/

/-- A step that succeeds does what a step of the registers does, and one that fails leaves the registers
alone. -/
structure Attempts {δ α : Type} (registers : δ → SoftFilter) (x : ExceptT Error (StateM δ) α)
    (y : ExceptT Error (StateM SoftFilter) α) : Prop where
  ok : ∀ {d a d'}, x d = (.ok a, d') → y (registers d) = (.ok a, registers d')
  error : ∀ {d e d'}, x d = (.error e, d') → registers d' = registers d

/-- A driver of registers, each call of which may fail whenever it likes. -/
class Driver (δ : Type) [Hardware δ] where
  registers : δ → SoftFilter
  spiLocked : ∀ d, Attempts registers (Hardware.spiLocked d) (Hardware.spiLocked d)
  writeCommands : ∀ d ws, Attempts registers (Hardware.writeCommands d ws) (Hardware.writeCommands d ws)
  writePrivileges : ∀ d r w,
    Attempts registers (Hardware.writePrivileges d r w) (Hardware.writePrivileges d r w)
  lockSpi : ∀ d, Attempts registers (Hardware.lockSpi d) (Hardware.lockSpi d)
  i2cLocked : ∀ b, Attempts registers (Hardware.i2cLocked b) (Hardware.i2cLocked b)
  writeSlot : ∀ b i s, Attempts registers (Hardware.writeSlot b i s) (Hardware.writeSlot b i s)
  enable : ∀ b on, Attempts registers (Hardware.enable b on) (Hardware.enable b on)
  lockI2c : ∀ b, Attempts registers (Hardware.lockI2c b) (Hardware.lockI2c b)

namespace SoftFilter

/-- A step of a monitor that leaves it alone where it fails. -/
theorem attempts_onMonitor {α : Type} {device : UInt8} {step : ExceptT Error (StateM SpiMonitor) α}
    (h : ∀ m e, (step m).1 = .error e → (step m).2 = m) :
    Attempts id (onMonitor device step) (onMonitor device step) := by
  refine ⟨fun hx => hx, fun {f e g} hx => ?_⟩
  unfold onMonitor at hx
  by_cases hd : device.toNat < monitorCount
  · rw [dif_pos hd] at hx
    obtain ⟨hr, rfl⟩ := Prod.mk.inj hx
    simp only [id, h _ _ hr, Vector.set_getElem_self]
  · rw [dif_neg hd] at hx
    cases hx
    rfl

theorem attempts_onBus {α : Type} {bus : UInt8} {step : ExceptT Error (StateM I2cFilter) α}
    (h : ∀ c e, (step c).1 = .error e → (step c).2 = c) :
    Attempts id (onBus bus step) (onBus bus step) := by
  refine ⟨fun hx => hx, fun {f e g} hx => ?_⟩
  unfold onBus at hx
  by_cases hb : bus.toNat < busCount
  · rw [dif_pos hb] at hx
    obtain ⟨hr, rfl⟩ := Prod.mk.inj hx
    simp only [id, h _ _ hr, Vector.set_getElem_self]
  · rw [dif_neg hb] at hx
    cases hx
    rfl

theorem attempts_change {bus : UInt8} {step : I2cFilter → Except Error I2cFilter} :
    Attempts id (change bus step) (change bus step) := by
  refine attempts_onBus fun c e h => ?_
  by_cases hl : c.locked = true
  · rw [if_pos hl]
  · rw [if_neg hl] at h ⊢
    cases hs : step c with
    | ok c' =>
      rw [hs] at h
      cases h
    | error e' => rfl

/-- The registers themselves never fail without a reason. -/
instance : Driver SoftFilter where
  registers := id
  spiLocked _ := attempts_onMonitor nofun
  writeCommands _ ws := attempts_onMonitor fun m e h => by
    by_cases hl : m.hasLockedSlot = true
    · rw [if_pos hl]
    · rw [if_neg hl] at h
      cases h
  writePrivileges _ r w := attempts_onMonitor fun m e h => by
    by_cases hl : (m.lock &&& (readTableLock ||| writeTableLock) != 0) = true
    · rw [if_pos hl]
    · rw [if_neg hl] at h
      cases h
  lockSpi _ := attempts_onMonitor nofun
  i2cLocked _ := attempts_onBus nofun
  writeSlot _ _ _ := attempts_change
  enable _ _ := attempts_change
  lockI2c _ := attempts_change

end SoftFilter

section faulty
variable {δ α : Type} [Hardware δ]

omit [Hardware δ] in
theorem Faulty.attempts_call {registers : δ → SoftFilter} {c : Call} {x : ExceptT Error (StateM δ) α}
    {y : ExceptT Error (StateM SoftFilter) α} (h : Attempts registers x y) :
    Attempts (fun f : Faulty δ => registers f.hardware) (call c x) y := by
  constructor
  · intro f a g hx
    unfold call at hx
    dsimp only at hx
    split at hx
    · cases hx
    · obtain ⟨hr, rfl⟩ := Prod.mk.inj hx
      exact h.ok (Prod.ext hr rfl)
  · intro f e g hx
    unfold call at hx
    dsimp only at hx
    split at hx
    · cases hx
      rfl
    · obtain ⟨hr, rfl⟩ := Prod.mk.inj hx
      exact h.error (Prod.ext hr rfl)

/-- A driver with a fault is a driver. -/
instance [Driver δ] : Driver (Faulty δ) where
  registers f := Driver.registers f.hardware
  spiLocked d := Faulty.attempts_call (Driver.spiLocked d)
  writeCommands d ws := Faulty.attempts_call (Driver.writeCommands d ws)
  writePrivileges d r w := Faulty.attempts_call (Driver.writePrivileges d r w)
  lockSpi d := Faulty.attempts_call (Driver.lockSpi d)
  i2cLocked b := Faulty.attempts_call (Driver.i2cLocked b)
  writeSlot b i s := Faulty.attempts_call (Driver.writeSlot b i s)
  enable b on := Faulty.attempts_call (Driver.enable b on)
  lockI2c b := Faulty.attempts_call (Driver.lockI2c b)

end faulty

open SoftFilter

/-! ### The half of the monitor -/

/-- The registers of a monitor that holds a policy. -/
def SpiPolicy.programmed (p : SpiPolicy) (lock : Bool) : SpiMonitor where
  commands := programmedWords p.commands.words lock
  read := p.privileges.readTable
  write := p.privileges.writeTable
  lock := if lock then readTableLock ||| writeTableLock else 0

theorem SpiMonitor.isLocked_eq_false {m : SpiMonitor} :
    m.isLocked = false ↔ m.lock = 0 ∧ m.hasLockedSlot = false := by
  unfold isLocked
  rw [Bool.or_eq_false_iff, bne_eq_false_iff_eq]

section monitor
variable {f g : SoftFilter} {device : UInt8} {m : SpiMonitor}

theorem spiLocked_ok {locked : Bool} (h : Hardware.spiLocked device f = (.ok locked, g)) :
    g = f ∧ ∃ m, f.monitor? device = some m ∧ m.isLocked = locked := by
  cases hm : f.monitor? device with
  | none =>
    rw [spiLocked_of_none hm] at h
    cases h
  | some m =>
    rw [spiLocked_of_some hm] at h
    cases h
    exact ⟨rfl, m, rfl, rfl⟩

theorem writeCommands_unlocked (hm : f.monitor? device = some m) (hl : m.isLocked = false)
    (words : CommandWords) : Hardware.writeCommands device words f =
      (.ok (), f.setMonitor device { m with commands := words }) := by
  have hslot : ¬m.hasLockedSlot = true := by
    rw [(SpiMonitor.isLocked_eq_false.1 hl).2]
    exact Bool.false_ne_true
  change onMonitor device _ f = _
  rw [onMonitor_of_some hm, if_neg hslot]

theorem writePrivileges_unlocked (hm : f.monitor? device = some m) (hl : m.lock = 0)
    (read write : PrivilegeTable) : Hardware.writePrivileges device read write f =
      (.ok (), f.setMonitor device { m with read, write }) := by
  have hlock : ¬(m.lock &&& (readTableLock ||| writeTableLock) != 0) = true := by
    rw [hl]
    decide
  change onMonitor device _ f = _
  rw [onMonitor_of_some hm, if_neg hlock]

/-- A monitor that is not locked is programmed, whatever it held. -/
theorem SpiPolicy.apply_unlocked {p : SpiPolicy} (hm : f.monitor? p.device = some m)
    (hl : m.isLocked = false) (lock : Bool) :
    p.apply lock f = (.ok (), f.setMonitor p.device (p.programmed lock)) := by
  obtain ⟨hzero, -⟩ := SpiMonitor.isLocked_eq_false.1 hl
  have hasked : Hardware.spiLocked p.device f = (.ok false, f) := by rw [spiLocked_of_some hm, hl]
  have hcommands := writeCommands_unlocked hm hl p.commands.words
  have hstaged : (f.setMonitor p.device { m with commands := p.commands.words }).monitor? p.device =
      some { m with commands := p.commands.words } := monitor?_setMonitor_self hm
  have hprivileges := writePrivileges_unlocked hstaged hzero p.privileges.readTable
    p.privileges.writeTable
  rw [setMonitor_setMonitor] at hprivileges
  refine Steps.bind_eq_ok.2 ⟨false, f, hasked, Steps.bind_eq_ok.2 ⟨(), _, hcommands,
    Steps.bind_eq_ok.2 ⟨(), _, hprivileges, ?_⟩⟩⟩
  cases lock with
  | false =>
    change (Except.ok (), _) = _
    rw [SpiPolicy.programmed, programmedWords, ← hzero]
    rfl
  | true =>
    have hheld : (f.setMonitor p.device { m with
        commands := p.commands.words
        read := p.privileges.readTable
        write := p.privileges.writeTable }).monitor? p.device = some { m with
          commands := p.commands.words
          read := p.privileges.readTable
          write := p.privileges.writeTable } := monitor?_setMonitor_self hm
    rw [if_pos rfl]
    refine (onMonitor_of_some hheld).trans ?_
    rw [setMonitor_setMonitor, hzero]
    rfl

end monitor

section driver
variable {δ : Type} [Hardware δ] [Driver δ] {d d' : δ} {lock : Bool} {x : Error}

open Driver

/-- Where the half of the monitor succeeds, the monitor was not locked and holds the policy. -/
theorem SpiPolicy.apply_driver_ok {p : SpiPolicy} (h : p.apply lock d = (.ok (), d')) :
    ∃ m, (registers d).monitor? p.device = some m ∧ m.isLocked = false ∧
      registers d' = (registers d).setMonitor p.device (p.programmed lock) := by
  obtain ⟨locked, d₁, hasked, h⟩ := Steps.bind_eq_ok.1 h
  have hasked' := (spiLocked p.device).ok hasked
  obtain ⟨-, m, hm, rfl⟩ := spiLocked_ok hasked'
  cases hl : m.isLocked with
  | true =>
    rw [hl] at h
    cases h
  | false =>
    rw [hl] at h hasked'
    obtain ⟨_, d₂, hcommands, h⟩ := Steps.bind_eq_ok.1 h
    obtain ⟨_, d₃, hprivileges, h⟩ := Steps.bind_eq_ok.1 h
    have hfollow : p.apply lock (registers d) = (.ok (), registers d') := by
      refine Steps.bind_eq_ok.2 ⟨false, _, hasked', Steps.bind_eq_ok.2 ⟨(), _,
        (writeCommands _ _).ok hcommands, Steps.bind_eq_ok.2 ⟨(), _,
        (writePrivileges _ _ _).ok hprivileges, ?_⟩⟩⟩
      cases lock with
      | false =>
        cases h
        rfl
      | true => exact (lockSpi p.device).ok h
    rw [SpiPolicy.apply_unlocked hm hl] at hfollow
    exact ⟨m, hm, hl, (Prod.mk.inj hfollow).2.symm⟩

/-- Where the half of the monitor fails, nothing has changed, or the monitor was not locked, holds the
commands of the policy, and has the lock register that it had. -/
theorem SpiPolicy.apply_driver_error {p : SpiPolicy} (h : p.apply lock d = (.error x, d')) :
    registers d' = registers d ∨ ∃ m n, (registers d).monitor? p.device = some m ∧
      m.isLocked = false ∧ n.lock = 0 ∧ n.commands = p.commands.words ∧
      registers d' = (registers d).setMonitor p.device n := by
  rcases Steps.bind_eq_error.1 h with hfail | ⟨locked, d₁, hasked, h⟩
  · exact .inl ((spiLocked p.device).error hfail)
  obtain ⟨hd₁, m, hm, rfl⟩ := spiLocked_ok ((spiLocked p.device).ok hasked)
  cases hl : m.isLocked with
  | true =>
    rw [hl] at h
    cases h
    exact .inl hd₁
  | false =>
    obtain ⟨hzero, -⟩ := SpiMonitor.isLocked_eq_false.1 hl
    rw [hl] at h
    rcases Steps.bind_eq_error.1 h with hfail | ⟨_, d₂, hcommands, h⟩
    · exact .inl (((writeCommands _ _).error hfail).trans hd₁)
    have hcommands' := (writeCommands _ _).ok hcommands
    rw [hd₁, writeCommands_unlocked hm hl] at hcommands'
    have hd₂ := (Prod.mk.inj hcommands').2.symm
    have hstaged : (registers d₂).monitor? p.device = some { m with commands := p.commands.words } := by
      rw [hd₂]
      exact monitor?_setMonitor_self hm
    rcases Steps.bind_eq_error.1 h with hfail | ⟨_, d₃, hprivileges, h⟩
    · exact .inr ⟨m, { m with commands := p.commands.words }, hm, hl, hzero, rfl,
        ((writePrivileges _ _ _).error hfail).trans hd₂⟩
    have hprivileges' := (writePrivileges _ _ _).ok hprivileges
    rw [writePrivileges_unlocked hstaged hzero, hd₂, setMonitor_setMonitor] at hprivileges'
    have hd₃ := (Prod.mk.inj hprivileges').2.symm
    cases lock with
    | false => cases h
    | true =>
      exact .inr ⟨m, { m with
        commands := p.commands.words
        read := p.privileges.readTable
        write := p.privileges.writeTable }, hm, hl, hzero, rfl, ((lockSpi p.device).error h).trans hd₃⟩

/-! ### The half of the bus -/

/-- The registers of the filter of a bus that holds a policy. -/
def BusPolicy.programmed (p : BusPolicy) (lock : Bool) : I2cFilter where
  slots := p.slots.map (·.getD unusedSlot)
  enabled := true
  locked := lock

/-- Only the filter of a bus differs, and it is locked neither before nor after. -/
def Rewritten (bus : UInt8) (f g : SoftFilter) : Prop :=
  ∃ b c, f.bus? bus = some b ∧ b.locked = false ∧ c.locked = false ∧ g = f.setBus bus c

section bus
variable {f g h : SoftFilter} {bus : UInt8} {c : I2cFilter}

theorem rewritten_refl (hc : f.bus? bus = some c) (hl : c.locked = false) : Rewritten bus f f :=
  ⟨c, c, hc, hl, hl, (setBus_self hc).symm⟩

theorem Rewritten.bus? (hfg : Rewritten bus f g) : ∃ c, g.bus? bus = some c ∧ c.locked = false := by
  obtain ⟨b, c, hb, -, hc, rfl⟩ := hfg
  exact ⟨c, bus?_setBus_self hb, hc⟩

theorem Rewritten.trans (hfg : Rewritten bus f g) (hgh : Rewritten bus g h) : Rewritten bus f h := by
  obtain ⟨b, c, hb, hl, -, rfl⟩ := hfg
  obtain ⟨-, c', -, -, hl', rfl⟩ := hgh
  exact ⟨b, c', hb, hl, hl', setBus_setBus⟩

theorem change_unlocked {step : I2cFilter → Except Error I2cFilter} {c' : I2cFilter}
    (hc : f.bus? bus = some c) (hl : c.locked = false) (hs : step c = .ok c') :
    change bus step f = (.ok (), f.setBus bus c') := by
  unfold change
  rw [onBus_of_some hc, if_neg (by rw [hl]; exact Bool.false_ne_true), hs]

/-- A call that changes the filter of a bus, but not its lock. -/
theorem rewritten_of_change {step : I2cFilter → Except Error I2cFilter} (hc : f.bus? bus = some c)
    (hl : c.locked = false) (hs : ∀ c', step c = .ok c' → c'.locked = c.locked)
    (hx : change bus step f = (.ok (), g)) : Rewritten bus f g := by
  obtain ⟨-, b, c', hb, hstep, -⟩ := change_ok hx
  obtain rfl : c = b := Option.some.inj (hc.symm.trans hb)
  rw [change_unlocked hc hl hstep] at hx
  exact ⟨c, c', hc, hl, (hs c' hstep).trans hl, (Prod.mk.inj hx).2.symm⟩

theorem rewritten_of_writeSlot {index : Nat} {slot : Slot} (hc : f.bus? bus = some c)
    (hl : c.locked = false) (hx : Hardware.writeSlot bus index slot f = (.ok (), g)) :
    Rewritten bus f g := by
  refine rewritten_of_change hc hl (fun c' hs => ?_) hx
  by_cases hi : index < busSlots
  · rw [dif_pos hi] at hs
    cases hs
    rfl
  · rw [dif_neg hi] at hs
    cases hs

theorem i2cLocked_ok {locked : Bool} (h : Hardware.i2cLocked bus f = (.ok locked, g)) :
    g = f ∧ ∃ c, f.bus? bus = some c ∧ c.locked = locked := by
  cases hc : f.bus? bus with
  | none =>
    rw [i2cLocked_of_none hc] at h
    cases h
  | some c =>
    rw [i2cLocked_of_some hc] at h
    cases h
    exact ⟨rfl, c, rfl, rfl⟩

/-- Slots that exist are programmed on a bus that is not locked. -/
theorem writeSlots_unlocked {index : Nat} {ss : List (Option Slot)} (hc : f.bus? bus = some c)
    (hl : c.locked = false) (hroom : index + ss.length ≤ busSlots) :
    ∃ c' : I2cFilter, c'.locked = false ∧ writeSlots bus index ss f = (.ok (), f.setBus bus c') := by
  induction ss generalizing index f c with
  | nil => exact ⟨c, hl, by rw [setBus_self hc]; rfl⟩
  | cons s ss ih =>
    rw [List.length_cons] at hroom
    have hi : index < busSlots := by omega
    have hwrite : Hardware.writeSlot bus index (s.getD ⟨0, .denyAll⟩) f = (.ok (), f.setBus bus
        { c with slots := c.slots.set index (s.getD ⟨0, .denyAll⟩) }) :=
      change_unlocked hc hl (dif_pos hi)
    have hstaged : (f.setBus bus { c with slots := c.slots.set index (s.getD ⟨0, .denyAll⟩) }).bus? bus =
        some { c with slots := c.slots.set index (s.getD ⟨0, .denyAll⟩) } := bus?_setBus_self hc
    have hroom' : index + 1 + ss.length ≤ busSlots := by omega
    obtain ⟨c', hl', hrest⟩ := ih hstaged hl hroom'
    rw [setBus_setBus] at hrest
    exact ⟨c', hl', Steps.bind_eq_ok.2 ⟨(), _, hwrite, hrest⟩⟩

/-- The filter of a bus that is not locked is programmed, whatever it held. -/
theorem BusPolicy.apply_unlocked {p : BusPolicy} (hc : f.bus? p.bus = some c) (hl : c.locked = false)
    (lock : Bool) : p.apply lock f = (.ok (), f.setBus p.bus (p.programmed lock)) := by
  have hasked : Hardware.i2cLocked p.bus f = (.ok false, f) := by rw [i2cLocked_of_some hc, hl]
  have hroom : 0 + p.slots.toList.length ≤ busSlots := by simp
  obtain ⟨c', hl', hwrite⟩ := writeSlots_unlocked hc hl hroom
  obtain ⟨-, e, he, -, hslots⟩ := writeSlots_ok hc hwrite
  obtain rfl : c' = e := Option.some.inj ((bus?_setBus_self hc).symm.trans he)
  have hfilled : c'.slots = p.slots.map (·.getD unusedSlot) := by
    apply Vector.ext
    intro i hi
    have hslot := hslots i (by simpa using hi) (by simpa using hi)
    simpa using hslot
  have henable : Hardware.enable p.bus true (f.setBus p.bus c') =
      (.ok (), (f.setBus p.bus c').setBus p.bus { c' with enabled := true }) :=
    change_unlocked he hl' rfl
  rw [setBus_setBus] at henable
  refine Steps.bind_eq_ok.2 ⟨false, f, hasked, Steps.bind_eq_ok.2 ⟨(), _, hwrite,
    Steps.bind_eq_ok.2 ⟨(), _, henable, ?_⟩⟩⟩
  cases lock with
  | false =>
    change (Except.ok (), _) = _
    rw [BusPolicy.programmed, ← hfilled, ← hl']
  | true =>
    have hstaged : (f.setBus p.bus { c' with enabled := true }).bus? p.bus =
        some { c' with enabled := true } := bus?_setBus_self hc
    have hlock : Hardware.lockI2c p.bus (f.setBus p.bus { c' with enabled := true }) =
        (.ok (), (f.setBus p.bus { c' with enabled := true }).setBus p.bus
          { c' with enabled := true, locked := true }) := change_unlocked hstaged hl' rfl
    rw [setBus_setBus] at hlock
    rw [BusPolicy.programmed, ← hfilled]
    exact hlock

end bus

/-- However far the slots of a bus are programmed, it is not locked by that. -/
theorem writeSlots_rewritten {bus : UInt8} {index : Nat} {ss : List (Option Slot)} {c : I2cFilter}
    {r : Except Error Unit} (hc : (registers d).bus? bus = some c) (hl : c.locked = false)
    (h : writeSlots bus index ss d = (r, d')) : Rewritten bus (registers d) (registers d') := by
  induction ss generalizing index d c with
  | nil =>
    cases h
    exact rewritten_refl hc hl
  | cons s ss ih =>
    unfold writeSlots at h
    rw [Steps.bind_apply] at h
    rcases hw : Hardware.writeSlot bus index (s.getD ⟨0, .denyAll⟩) d with ⟨e | _, d₁⟩
    · rw [hw] at h
      cases h
      rw [(writeSlot _ _ _).error hw]
      exact rewritten_refl hc hl
    · rw [hw] at h
      have hfirst := rewritten_of_writeSlot hc hl ((writeSlot _ _ _).ok hw)
      obtain ⟨c₁, hc₁, hl₁⟩ := hfirst.bus?
      exact hfirst.trans (ih hc₁ hl₁ h)

/-- Where the half of the bus fails, nothing has changed, or the bus is locked neither before nor
after. -/
theorem BusPolicy.apply_driver_error {p : BusPolicy} (h : p.apply lock d = (.error x, d')) :
    registers d' = registers d ∨ Rewritten p.bus (registers d) (registers d') := by
  rcases Steps.bind_eq_error.1 h with hfail | ⟨locked, d₁, hasked, h⟩
  · exact .inl ((i2cLocked p.bus).error hfail)
  obtain ⟨hd₁, c, hc, rfl⟩ := i2cLocked_ok ((i2cLocked p.bus).ok hasked)
  cases hl : c.locked with
  | true =>
    rw [hl] at h
    cases h
    exact .inl hd₁
  | false =>
    rw [hl] at h
    rw [← hd₁] at hc ⊢
    rcases Steps.bind_eq_error.1 h with hfail | ⟨_, d₂, hwrite, h⟩
    · exact .inr (writeSlots_rewritten hc hl hfail)
    have hslots := writeSlots_rewritten hc hl hwrite
    obtain ⟨c₂, hc₂, hl₂⟩ := hslots.bus?
    rcases Steps.bind_eq_error.1 h with hfail | ⟨_, d₃, henable, h⟩
    · rw [(enable _ _).error hfail]
      exact .inr hslots
    have henabled : Rewritten p.bus (registers d₂) (registers d₃) :=
      rewritten_of_change hc₂ hl₂ (fun c' hs => by cases hs; rfl) ((enable _ _).ok henable)
    cases lock with
    | false => cases h
    | true =>
      rw [(lockI2c p.bus).error h]
      exact .inr (hslots.trans henabled)

/-! ### What a failure leaves behind -/

/-- No lock is set that was not set before, neither in a lock register nor in a slot of a command table
nor of a bus. -/
structure NoNewLock (f g : SoftFilter) : Prop where
  register : ∀ {d m n}, f.monitor? d = some m → g.monitor? d = some n → n.lock ||| m.lock = m.lock
  slots : ∀ {d m n}, f.monitor? d = some m → g.monitor? d = some n → ∀ i : Fin slotCount,
    isLockedWord (n.commands.get i) = true → isLockedWord (m.commands.get i) = true
  buses : ∀ {b c c'}, f.bus? b = some c → g.bus? b = some c' → c'.locked = true → c.locked = true

/-- Whatever differs is not locked. -/
structure Spares (f g : SoftFilter) : Prop where
  monitor : ∀ {d n}, g.monitor? d = some n → f.monitor? d = some n ∨ n.isLocked = false
  bus : ∀ {b c}, g.bus? b = some c → f.bus? b = some c ∨ c.locked = false

section spares
variable {f g h : SoftFilter}

theorem Spares.refl (f : SoftFilter) : Spares f f := ⟨.inl, .inl⟩

theorem Spares.trans (hfg : Spares f g) (hgh : Spares g h) : Spares f h := by
  constructor
  · intro d n hn
    rcases hgh.monitor hn with hn | hl
    · exact hfg.monitor hn
    · exact .inr hl
  · intro b c hc
    rcases hgh.bus hc with hc | hl
    · exact hfg.bus hc
    · exact .inr hl

theorem spares_setMonitor {device : UInt8} {m n : SpiMonitor} (hm : f.monitor? device = some m)
    (hn : n.isLocked = false) : Spares f (f.setMonitor device n) := by
  refine ⟨fun {d n'} hn' => ?_, .inl⟩
  by_cases hd : d = device
  · rw [hd, monitor?_setMonitor_self hm] at hn'
    cases hn'
    exact .inr hn
  · rw [monitor?_setMonitor_of_ne hd] at hn'
    exact .inl hn'

theorem Rewritten.spares {bus : UInt8} (hfg : Rewritten bus f g) : Spares f g := by
  obtain ⟨b, c, hb, -, hl, rfl⟩ := hfg
  refine ⟨.inl, fun {b' c'} hc' => ?_⟩
  by_cases heq : b' = bus
  · rw [heq, bus?_setBus_self hb] at hc'
    cases hc'
    exact .inr hl
  · rw [bus?_setBus_of_ne heq] at hc'
    exact .inl hc'

theorem Spares.noNewLock (hfg : Spares f g) : NoNewLock f g := by
  refine ⟨fun {d m n} hm hn => ?_, fun {d m n} hm hn i hi => ?_, fun {b c c'} hc hc' hl => ?_⟩
  · rcases hfg.monitor hn with hn | hl
    · rw [hm] at hn
      cases hn
      exact UInt32.or_self
    · rw [(SpiMonitor.isLocked_eq_false.1 hl).1]
      exact UInt32.zero_or
  · rcases hfg.monitor hn with hn | hl
    · rw [hm] at hn
      cases hn
      exact hi
    · have hslot : n.hasLockedSlot = true := Vector.any_eq_true.2 ⟨i.val, i.isLt, hi⟩
      rw [(SpiMonitor.isLocked_eq_false.1 hl).2] at hslot
      cases hslot
  · rcases hfg.bus hc' with hc' | hl'
    · rw [hc] at hc'
      cases hc'
      exact hl
    · rw [hl'] at hl
      cases hl

end spares

/-- A failure that does no harm: no lock is set, and where monitor or bus was locked, the registers of
both are as they were. -/
structure Harmless (p : Policy) (f g : SoftFilter) : Prop where
  noNewLock : NoNewLock f g
  untouched : f.IsSpiLocked p.spi.device ∨ f.IsI2cLocked p.i2c.bus →
    g.monitor? p.spi.device = f.monitor? p.spi.device ∧ g.bus? p.i2c.bus = f.bus? p.i2c.bus

/-- The half of the monitor is completed, its lock included. -/
def LocksMonitor (p : Policy) (lock : Bool) (d : δ) : Prop :=
  lock = true ∧ (p.spi.apply lock d).1 = .ok ()

/-- What a failure to apply a policy leaves behind. -/
structure Failure (p : Policy) (lock : Bool) (d d' : δ) : Prop where
  /-- It does no harm exactly if the monitor is not locked by it, and not programmed where the bus is
  locked already. -/
  harmless_iff : Harmless p (registers d) (registers d') ↔ ¬LocksMonitor p lock d ∧
    ((registers d).IsI2cLocked p.i2c.bus →
      (registers d').monitor? p.spi.device = (registers d).monitor? p.spi.device)
  spiLocked : (registers d).IsSpiLocked p.spi.device → registers d' = registers d
  i2cLocked : (registers d).IsI2cLocked p.i2c.bus →
    (registers d').bus? p.i2c.bus = (registers d).bus? p.i2c.bus
  monitor_frame : ∀ device, device ≠ p.spi.device →
    (registers d').monitor? device = (registers d).monitor? device
  bus_frame : ∀ bus, bus ≠ p.i2c.bus → (registers d').bus? bus = (registers d).bus? bus
  /-- Tried again, the registers become what they would have become. -/
  again : ∀ m c, (registers d).monitor? p.spi.device = some m → m.isLocked = false →
    (registers d).bus? p.i2c.bus = some c → c.locked = false → ¬LocksMonitor p lock d →
    ∃ g, p.apply lock (registers d) = (.ok (), g) ∧ p.apply lock (registers d') = (.ok (), g)
  /-- Behind the lock of the monitor nothing can be applied any more. -/
  stuck : LocksMonitor p lock d →
    ∀ lock', p.apply lock' (registers d') = (.error .locked, registers d')

/-- Hardware that is not locked takes a policy, whatever it held. -/
theorem Policy.apply_unlocked {p : Policy} {f : SoftFilter} {m : SpiMonitor} {c : I2cFilter}
    (hm : f.monitor? p.spi.device = some m) (hml : m.isLocked = false)
    (hc : f.bus? p.i2c.bus = some c) (hcl : c.locked = false) (lock : Bool) :
    p.apply lock f = (.ok (), (f.setMonitor p.spi.device (p.spi.programmed lock)).setBus p.i2c.bus
      (p.i2c.programmed lock)) := by
  have hspi := SpiPolicy.apply_unlocked hm hml lock
  have hi2c := BusPolicy.apply_unlocked (f := f.setMonitor p.spi.device (p.spi.programmed lock)) hc hcl
    lock
  exact Steps.bind_eq_ok.2 ⟨(), _, hspi, hi2c⟩

/-- A policy whose command words hold no lock of their own, as those of derived policies. -/
def Policy.Lockless (p : Policy) : Prop := p.spi.commands.words.any isLockedWord = false

theorem Policy.lockless_of_manifest {m : Manifest} {firmware : Option Bytes} {version : Bytes}
    {t : Target} {p : Policy} (h : ofManifest m firmware version t = .ok p) : p.Lockless := by
  have hall : (match safeTable with
      | .ok t => t.words.any isLockedWord
      | .error _ => true) = false := by decide +kernel
  obtain ⟨-, hcommands, -, -⟩ := ofManifest_ok h
  rw [hcommands] at hall
  exact hall

section failing
variable {p : Policy}

theorem isLocked_of_words {n : SpiMonitor} (hp : p.Lockless) (hzero : n.lock = 0)
    (hwords : n.commands = p.spi.commands.words) : n.isLocked = false := by
  refine SpiMonitor.isLocked_eq_false.2 ⟨hzero, ?_⟩
  unfold SpiMonitor.hasLockedSlot
  rw [hwords]
  exact hp

theorem isLocked_programmed (hp : p.Lockless) : (p.spi.programmed false).isLocked = false :=
  isLocked_of_words hp rfl rfl

theorem lock_programmed : (p.spi.programmed true).lock = readTableLock ||| writeTableLock := rfl

/-- The half of the monitor fails. -/
theorem failure_of_spi (hp : p.Lockless) (h : p.spi.apply lock d = (.error x, d')) :
    Failure p lock d d' := by
  have hnot : ¬LocksMonitor p lock d := by
    rintro ⟨-, hok⟩
    rw [h] at hok
    cases hok
  have hcases := SpiPolicy.apply_driver_error h
  have hbus : ∀ b, (registers d').bus? b = (registers d).bus? b := by
    intro b
    rcases hcases with heq | ⟨m, n, -, -, -, -, heq⟩
    · rw [heq]
    · rw [heq, bus?_setMonitor]
  have hspares : Spares (registers d) (registers d') := by
    rcases hcases with heq | ⟨m, n, hm, -, hzero, hwords, heq⟩
    · rw [heq]
      exact Spares.refl _
    · rw [heq]
      exact spares_setMonitor hm (isLocked_of_words hp hzero hwords)
  have hlocked : (registers d).IsSpiLocked p.spi.device → registers d' = registers d := by
    rintro ⟨m', hm', hl'⟩
    rcases hcases with heq | ⟨m, n, hm, hl, -, -, -⟩
    · exact heq
    · rw [hm] at hm'
      cases hm'
      rw [hl] at hl'
      cases hl'
  refine ⟨⟨fun hh => ⟨hnot, fun hb => (hh.untouched (.inr hb)).1⟩, fun hh => ⟨hspares.noNewLock, ?_⟩⟩,
    hlocked, fun _ => hbus _, ?_, fun b _ => hbus b, ?_, fun hlocks => absurd hlocks hnot⟩
  · rintro (hs | hb)
    · rw [hlocked hs]
      exact ⟨rfl, rfl⟩
    · exact ⟨hh.2 hb, hbus _⟩
  · intro device hne
    rcases hcases with heq | ⟨m, n, -, -, -, -, heq⟩
    · rw [heq]
    · rw [heq, monitor?_setMonitor_of_ne hne]
  · intro m c hm hml hc hcl _
    refine ⟨_, Policy.apply_unlocked hm hml hc hcl lock, ?_⟩
    rcases hcases with heq | ⟨m', n, -, -, hzero, hwords, heq⟩
    · rw [heq]
      exact Policy.apply_unlocked hm hml hc hcl lock
    · have hn : (registers d').monitor? p.spi.device = some n := by
        rw [heq]
        exact monitor?_setMonitor_self hm
      rw [Policy.apply_unlocked hn (isLocked_of_words hp hzero hwords) ((hbus _).trans hc) hcl, heq,
        setMonitor_setMonitor]

/-- The half of the bus fails, after that of the monitor. -/
theorem failure_of_i2c {d₁ : δ} (hp : p.Lockless) (hspi : p.spi.apply lock d = (.ok (), d₁))
    (h : p.i2c.apply lock d₁ = (.error x, d')) : Failure p lock d d' := by
  obtain ⟨m, hm, hml, hd₁⟩ := SpiPolicy.apply_driver_ok hspi
  have hcases := BusPolicy.apply_driver_error h
  have hlocks : LocksMonitor p lock d ↔ lock = true := by
    unfold LocksMonitor
    rw [hspi]
    simp
  -- the second half does not reach the monitors
  have hmonitors : ∀ device, (registers d').monitor? device = (registers d₁).monitor? device := by
    intro device
    rcases hcases with heq | ⟨b, c, -, -, -, heq⟩
    · rw [heq]
    · rw [heq, monitor?_setBus]
  have hmonitor : (registers d').monitor? p.spi.device = some (p.spi.programmed lock) := by
    rw [hmonitors, hd₁]
    exact monitor?_setMonitor_self hm
  have hi2c : (registers d).IsI2cLocked p.i2c.bus →
      (registers d').bus? p.i2c.bus = (registers d).bus? p.i2c.bus := by
    rintro ⟨c', hc', hl'⟩
    rcases hcases with heq | ⟨b, c, hb, hbl, -, -⟩
    · rw [heq, hd₁, bus?_setMonitor]
    · rw [hd₁, bus?_setMonitor, hc'] at hb
      cases hb
      rw [hbl] at hl'
      cases hl'
  have hnotLocked : ¬(registers d).IsSpiLocked p.spi.device := by
    rintro ⟨m', hm', hl'⟩
    rw [hm] at hm'
    cases hm'
    rw [hml] at hl'
    cases hl'
  refine ⟨⟨fun hh => ⟨fun hl => ?_, fun hb => (hh.untouched (.inr hb)).1⟩, fun ⟨hl, hkept⟩ => ⟨?_, ?_⟩⟩,
    fun hs => absurd hs hnotLocked, hi2c, ?_, ?_, ?_, ?_⟩
  · -- the lock register was clear, and now it is not
    have hregister := hh.noNewLock.register hm hmonitor
    obtain rfl := hlocks.1 hl
    rw [(SpiMonitor.isLocked_eq_false.1 hml).1, lock_programmed] at hregister
    exact absurd hregister (by decide)
  · have hfalse : lock = false := Bool.eq_false_iff.2 fun ht => hl (hlocks.2 ht)
    subst hfalse
    have hfirst : Spares (registers d) (registers d₁) := by
      rw [hd₁]
      exact spares_setMonitor hm (isLocked_programmed hp)
    rcases hcases with heq | hrewritten
    · rw [heq]
      exact hfirst.noNewLock
    · exact (hfirst.trans hrewritten.spares).noNewLock
  · rintro (hs | hb)
    · exact absurd hs hnotLocked
    · exact ⟨hkept hb, hi2c hb⟩
  · intro device hne
    rw [hmonitors, hd₁, monitor?_setMonitor_of_ne hne]
  · intro bus hne
    rcases hcases with heq | ⟨b, c, -, -, -, heq⟩
    · rw [heq, hd₁, bus?_setMonitor]
    · rw [heq, bus?_setBus_of_ne hne, hd₁, bus?_setMonitor]
  · intro m' c' _ _ hc' hcl' hl
    have hfalse : lock = false := Bool.eq_false_iff.2 fun ht => hl (hlocks.2 ht)
    subst hfalse
    refine ⟨_, Policy.apply_unlocked hm hml hc' hcl' false, ?_⟩
    rcases hcases with heq | ⟨b, c, hb, -, hcl, heq⟩
    · have hbus : (registers d').bus? p.i2c.bus = some c' := by rw [heq, hd₁, bus?_setMonitor, hc']
      rw [Policy.apply_unlocked hmonitor (isLocked_programmed hp) hbus hcl', heq, hd₁,
        setMonitor_setMonitor]
    · have hbus : (registers d').bus? p.i2c.bus = some c := by
        rw [heq]
        exact bus?_setBus_self hb
      rw [Policy.apply_unlocked hmonitor (isLocked_programmed hp) hbus hcl, heq, hd₁, setBus_setMonitor,
        setMonitor_setMonitor, setBus_setBus]
  · intro hl lock'
    obtain rfl := hlocks.1 hl
    have hlocked : (registers d').IsSpiLocked p.spi.device := by
      refine ⟨_, hmonitor, ?_⟩
      unfold SpiMonitor.isLocked
      rw [lock_programmed]
      rfl
    rw [Policy.apply, Steps.bind_apply, applySpi_of_locked hlocked]

/-- **A failure to apply a policy.** -/
theorem Policy.failure_of_error (hp : p.Lockless) (h : p.apply lock d = (.error x, d')) :
    Failure p lock d d' := by
  rcases Steps.bind_eq_error.1 h with hspi | ⟨_, d₁, hspi, hi2c⟩
  · exact failure_of_spi hp hspi
  · exact failure_of_i2c hp hspi hi2c

end failing

end driver

end PlatformGuard.Filter

/-! ### Stored policies -/

namespace PlatformGuard.Session

open PlatformGuard.Filter

section sessions
variable {σ υ η ν δ : Type} [Flash σ] [Flash υ] [Hash.Engine η] [Signature.Verifier ν]
  [Filter.Hardware δ]

/-- A policy that is stored was derived. -/
def PolicyDerived (s : Session σ υ) : Prop :=
  ∀ p ∈ s.policy, ∃ m firmware version t, Policy.ofManifest m firmware version t = .ok p

theorem PolicyDerived.next {s : Session σ υ} (hs : s.PolicyDerived) (e : Event σ υ η ν δ) :
    (s.next e).PolicyDerived := by
  cases e with
  | loadAndVerify anchor engines =>
    rcases loadAndVerify_cases s anchor engines with h | ⟨stored, h⟩
    · rw [Session.next, h]
      exact hs
    · rw [Session.next, h]
      rintro _ ⟨⟩
  | beginUpdate firmware version index n =>
    rw [Session.next, beginUpdate_eq]
    rcases hu : s.newUpdater firmware version index with x | u
    · exact hs
    · obtain ⟨c, hc⟩ := prepare_frame s n u
      simp only [hc]
      exact hs
  | update call =>
    rcases onUpdater_frame s call with h | ⟨u, -, h⟩
    · rw [Session.next, h]
      exact hs
    · rw [Session.next, h]
      exact hs
  | synthesize firmware version driver =>
    rw [Session.next]
    unfold synthesize
    split
    · exact hs
    · rename_i m hm
      split
      · rename_i p d' hp
        intro q hq
        cases hq
        exact ⟨m, firmware, version, s.options.target, Policy.synthesize_ok hp⟩
      · exact hs
  | reset => rintro _ ⟨⟩
  | endUpdate | apply lock driver | store device | host change => exact hs

theorem PolicyDerived.reach {s : Session σ υ} (hs : s.PolicyDerived) (es : List (Event σ υ η ν δ)) :
    (s.reach es).PolicyDerived := by
  induction es generalizing s with
  | nil => exact hs
  | cons e es ih => exact ih (hs.next e)

/-- **What a failed apply leaves behind.**  Whatever a session went through, and whichever call of the
driver fails, a policy that it stores and fails to apply leaves the registers as `Failure` says. -/
theorem apply_failure {κ : Type} [Filter.Hardware κ] [Driver κ] {options : Options} {store : σ}
    {host : υ} {caches : Manifest.Caches} {s : Session σ υ}
    (hs : make options store host caches = .ok s) (es : List (Event σ υ η ν δ)) {p : Policy}
    (hp : (s.reach es).policy = some p) {lock : Bool} {d d' : κ} {x : Error}
    (h : (s.reach es).apply lock d = (.error x, d')) : Failure p lock d d' := by
  have hmade : s.PolicyDerived := by
    unfold make at hs
    split at hs
    · cases hs
    · obtain ⟨_, -, rfl⟩ := Steps.map_eq_ok.1 hs
      exact nofun
  obtain ⟨m, firmware, version, t, hderived⟩ := hmade.reach es p hp
  unfold Session.apply at h
  rw [hp] at h
  rcases ha : p.apply lock d with ⟨y | _, d₁⟩
  · have hd : d₁ = d' := by
      simp only [Steps.adapt_apply, ha] at h
      exact (Prod.mk.inj h).2
    exact Policy.failure_of_error (Policy.lockless_of_manifest hderived) (hd ▸ ha)
  · simp only [Steps.adapt_apply, ha] at h
    cases (Prod.mk.inj h).1

end sessions

/-! ### A run -/

/-- Verifies the manifest of the small session and derives a policy from it. -/
def policyRun : List (Event Flash.Ram (Flash.Faulty Flash.Ram) Hash.SoftEngine
    (Signature.Transcript (Signature.Forced Rsa.SoftVerifier)) SoftFilter) :=
  smallRun.take 1 ++ [.synthesize none [0x76] .reset]

/-- Hardware after a reset, on which no filter of a bus can be turned on. -/
def brokenBus : Filter.Faulty SoftFilter where
  hardware := .reset
  fault := some ⟨"enable_i2c", 0, .driver⟩

/-- The lock register of the first monitor after an attempt to apply the policy, if that fails. -/
def attempted (s : Session Flash.Ram (Flash.Faulty Flash.Ram)) (lock : Bool) : Option UInt32 :=
  match s.policy, s.apply lock brokenBus with
  | some _, (.error (.filter .driver), d) => (d.hardware.monitor? 0).map SpiMonitor.lock
  | _, _ => none

theorem attempted_eq_some {s : Session Flash.Ram (Flash.Faulty Flash.Ram)} {lock : Bool} {l : UInt32}
    (h : s.attempted lock = some l) : ∃ p d m, s.policy = some p ∧
      s.apply lock brokenBus = (.error (.filter .driver), d) ∧ d.hardware.monitor? 0 = some m ∧
      m.lock = l := by
  unfold attempted at h
  split at h
  · rename_i p d hp ha
    obtain ⟨m, hm, hl⟩ := Option.map_eq_some_iff.1 h
    exact ⟨p, d, m, hp, ha, hm, hl⟩
  · cases h

/-- Without a lock the failure does no harm. -/
theorem policyRun_unlocked : ∃ s p d, plainSession = .ok s ∧ (s.reach policyRun).policy = some p ∧
    (s.reach policyRun).apply false brokenBus = (.error (.filter .driver), d) ∧
    Failure p false brokenBus d := by
  have hfails : (match plainSession with
      | .ok s => (s.reach policyRun).attempted false
      | .error _ => none) = some 0 := by decide +kernel
  rcases hs : plainSession with x | s
  · rw [hs] at hfails
    cases hfails
  · rw [hs] at hfails
    obtain ⟨p, d, -, hp, ha, -, -⟩ := attempted_eq_some hfails
    exact ⟨s, p, d, rfl, hp, ha, apply_failure hs policyRun hp ha⟩

/-- With a lock the failure sets one on hardware that had none. -/
theorem policyRun_locked : ∃ s p d, plainSession = .ok s ∧ (s.reach policyRun).policy = some p ∧
    (s.reach policyRun).apply true brokenBus = (.error (.filter .driver), d) ∧
    ¬NoNewLock brokenBus.hardware d.hardware := by
  have hfails : (match plainSession with
      | .ok s => (s.reach policyRun).attempted true
      | .error _ => none) = some (readTableLock ||| writeTableLock) := by decide +kernel
  rcases hs : plainSession with x | s
  · rw [hs] at hfails
    cases hfails
  · rw [hs] at hfails
    obtain ⟨p, d, m, hp, ha, hm, hl⟩ := attempted_eq_some hfails
    refine ⟨s, p, d, rfl, hp, ha, fun hnew => ?_⟩
    have hreset : brokenBus.hardware.monitor? 0 = some .reset := rfl
    have hregister := hnew.register hreset hm
    rw [hl] at hregister
    exact absurd hregister (by decide)

end PlatformGuard.Session
