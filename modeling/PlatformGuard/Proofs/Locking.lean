import PlatformGuard.Proofs.Programming

/-!
# Locks

A lock of the filter hardware is for good, and holds for one monitor or one bus.  Whatever is done with
the hardware later, by calls of its driver or by deriving and programming policies, the registers behind
a lock stay as they are, and nothing but what a step names is changed by it.

The three places that hold a lock, the words of the command table, the lock register and the flag of a
bus, come together in what a single call may do (`Respects`), which passes on to every composed step.
-/

namespace PlatformGuard.Filter

/-! ### Sealed monitors -/

namespace SpiMonitor

/-- The registers once every table is locked. -/
def locked (m : SpiMonitor) : SpiMonitor :=
  { m with
    lock := m.lock ||| readTableLock ||| writeTableLock
    commands := m.commands.map (· ||| lockBit) }

/-- Every table is locked, so that locking changes nothing. -/
def Sealed (m : SpiMonitor) : Prop := m.locked = m

theorem sealed_locked (m : SpiMonitor) : m.locked.Sealed := by
  have hlock : ∀ l : UInt32, l ||| readTableLock ||| writeTableLock ||| readTableLock ||| writeTableLock =
      l ||| readTableLock ||| writeTableLock := by
    intro l
    rw [UInt32.or_assoc _ readTableLock, UInt32.or_assoc l, Bits.or_or_cancel]
  unfold Sealed locked
  simp only [Vector.map_map, Function.comp_def, Bits.or_or_cancel, hlock]

variable {m : SpiMonitor}

/-- The lock register of a sealed monitor has the bits of both privilege tables. -/
theorem Sealed.lock_ne (h : m.Sealed) : m.lock &&& (readTableLock ||| writeTableLock) ≠ 0 := by
  have hlock : m.lock ||| (readTableLock ||| writeTableLock) = m.lock := by
    rw [← UInt32.or_assoc]
    exact congrArg SpiMonitor.lock h
  rw [← hlock, Bits.or_and_cancel]
  decide

theorem Sealed.hasLockedSlot (h : m.Sealed) : m.hasLockedSlot = true := by
  have hslot : 0 < slotCount := by decide
  have hword : m.commands[0] ||| lockBit = m.commands[0] := by
    have := congrArg (fun m : SpiMonitor => m.commands[0]) h
    rwa [locked, Vector.getElem_map] at this
  rw [SpiMonitor.hasLockedSlot, Vector.any_eq_true]
  refine ⟨0, hslot, ?_⟩
  rw [isLockedWord, ← hword, Bits.or_and_cancel]
  decide

theorem Sealed.isLocked (h : m.Sealed) : m.isLocked = true := by
  rw [SpiMonitor.isLocked, h.hasLockedSlot, Bool.or_true]

end SpiMonitor

namespace SoftFilter

/-! ### What a call changes -/

section registers
variable {α : Type} {device bus : UInt8}

theorem monitor?_onMonitor (step : ExceptT Error (StateM SpiMonitor) α) (f : SoftFilter) (d : UInt8) :
    (onMonitor device step f).2.monitor? d =
      if d = device then (f.monitor? d).map fun m => (step m).2 else f.monitor? d := by
  unfold onMonitor monitor?
  split
  · rename_i hd
    rcases hs : step f.monitors[device.toNat] with ⟨r, m⟩
    change (f.monitors.set device.toNat m)[d.toNat]? = _
    split
    · rename_i heq
      rw [heq, Vector.getElem?_set_self hd, Vector.getElem?_eq_getElem hd, Option.map_some, hs]
    · rename_i hne
      exact Vector.getElem?_set_ne hd fun h => hne (UInt8.toNat_inj.1 h).symm
  · rename_i hd
    split
    · rename_i heq
      rw [heq, Vector.getElem?_eq_none (Nat.le_of_not_lt hd), Option.map_none]
    · rfl

theorem bus?_onMonitor (step : ExceptT Error (StateM SpiMonitor) α) (f : SoftFilter) (b : UInt8) :
    (onMonitor device step f).2.bus? b = f.bus? b := by
  unfold onMonitor
  split <;> rfl

theorem bus?_onBus (step : ExceptT Error (StateM I2cFilter) α) (f : SoftFilter) (b : UInt8) :
    (onBus bus step f).2.bus? b =
      if b = bus then (f.bus? b).map fun c => (step c).2 else f.bus? b := by
  unfold onBus bus?
  split
  · rename_i hb
    rcases hs : step f.buses[bus.toNat] with ⟨r, c⟩
    change (f.buses.set bus.toNat c)[b.toNat]? = _
    split
    · rename_i heq
      rw [heq, Vector.getElem?_set_self hb, Vector.getElem?_eq_getElem hb, Option.map_some, hs]
    · rename_i hne
      exact Vector.getElem?_set_ne hb fun h => hne (UInt8.toNat_inj.1 h).symm
  · rename_i hb
    split
    · rename_i heq
      rw [heq, Vector.getElem?_eq_none (Nat.le_of_not_lt hb), Option.map_none]
    · rfl

theorem monitor?_onBus (step : ExceptT Error (StateM I2cFilter) α) (f : SoftFilter) (d : UInt8) :
    (onBus bus step f).2.monitor? d = f.monitor? d := by
  unfold onBus
  split <;> rfl

end registers

/-! ### What a step may change -/

/-- From one state to a later one only the registers of the named monitor and of the named bus change,
and nothing that is locked does. -/
structure Respects (device bus : Option UInt8) (f g : SoftFilter) : Prop where
  monitor : ∀ d, device ≠ some d → g.monitor? d = f.monitor? d
  bus : ∀ b, bus ≠ some b → g.bus? b = f.bus? b
  sealed : ∀ d m, f.monitor? d = some m → m.Sealed → g.monitor? d = some m
  locked : ∀ b c, f.bus? b = some c → c.locked = true → g.bus? b = some c

/-- A step respects locks and what it does not name, whatever its result. -/
def Keeps {α : Type} (device bus : Option UInt8) (x : ExceptT Error (StateM SoftFilter) α) : Prop :=
  ∀ f, Respects device bus f (x f).2

namespace Respects

variable {device bus : Option UInt8} {f g h : SoftFilter}

theorem refl (f : SoftFilter) : Respects device bus f f :=
  ⟨fun _ _ => rfl, fun _ _ => rfl, fun _ _ hm _ => hm, fun _ _ hc _ => hc⟩

theorem trans (hfg : Respects device bus f g) (hgh : Respects device bus g h) :
    Respects device bus f h where
  monitor d hd := (hgh.monitor d hd).trans (hfg.monitor d hd)
  bus b hb := (hgh.bus b hb).trans (hfg.bus b hb)
  sealed d m hm hs := hgh.sealed d m (hfg.sealed d m hm hs) hs
  locked b c hc hl := hgh.locked b c (hfg.locked b c hc hl) hl

end Respects

namespace Keeps

variable {α β : Type} {device bus : Option UInt8}

theorem ofExcept (x : Except Error α) :
    Keeps device bus (MonadExcept.ofExcept x : ExceptT Error (StateM SoftFilter) α) := by
  intro f
  rw [Steps.ofExcept_apply]
  exact .refl f

theorem pure (a : α) : Keeps device bus (Pure.pure a) := fun f => .refl f

theorem throw (e : Error) : Keeps device bus (throw e : ExceptT Error (StateM SoftFilter) α) :=
  fun f => .refl f

theorem bind {x : ExceptT Error (StateM SoftFilter) α} {k : α → ExceptT Error (StateM SoftFilter) β}
    (hx : Keeps device bus x) (hk : ∀ a, Keeps device bus (k a)) : Keeps device bus (x >>= k) := by
  intro f
  have hf := hx f
  rw [Steps.bind_apply]
  rcases hs : x f with ⟨e | a, g⟩
  · rw [hs] at hf
    exact hf
  · rw [hs] at hf
    exact hf.trans (hk a g)

/-- A step on a monitor that leaves sealed registers alone. -/
theorem onMonitor {d : UInt8} {step : ExceptT Error (StateM SpiMonitor) α}
    (h : ∀ m, m.Sealed → (step m).2 = m) : Keeps (some d) bus (onMonitor d step) := by
  intro f
  refine ⟨fun d' hd => ?_, fun b _ => bus?_onMonitor step f b, fun d' m hm hs => ?_,
    fun b c hc _ => (bus?_onMonitor step f b).trans hc⟩
  · rw [monitor?_onMonitor, if_neg fun heq => hd (congrArg some heq.symm)]
  · rw [monitor?_onMonitor, hm, Option.map_some, h m hs, ite_self]

/-- A step on the filter of a bus that leaves locked registers alone. -/
theorem onBus {b : UInt8} {step : ExceptT Error (StateM I2cFilter) α}
    (h : ∀ c, c.locked = true → (step c).2 = c) : Keeps device (some b) (onBus b step) := by
  intro f
  refine ⟨fun d _ => monitor?_onBus step f d, fun b' hb => ?_,
    fun d m hm _ => (monitor?_onBus step f d).trans hm, fun b' c hc hl => ?_⟩
  · rw [bus?_onBus, if_neg fun heq => hb (congrArg some heq.symm)]
  · rw [bus?_onBus, hc, Option.map_some, h c hl, ite_self]

theorem change {b : UInt8} {step : I2cFilter → Except Error I2cFilter} :
    Keeps device (some b) (change b step) :=
  onBus fun c hl => by rw [if_pos hl]

end Keeps

/-! ### The calls of the driver -/

section calls
variable {device bus : UInt8} {f : SoftFilter}

/-- Asking for a lock changes nothing. -/
theorem spiLocked_of_some {m : SpiMonitor} (h : f.monitor? device = some m) :
    Hardware.spiLocked device f = (.ok m.isLocked, f) := by
  obtain ⟨hd, rfl⟩ := Vector.getElem?_eq_some_iff.1 h
  change onMonitor device _ f = _
  rw [onMonitor, dif_pos hd]
  change (_, { f with monitors := f.monitors.set device.toNat f.monitors[device.toNat] }) = _
  rw [Vector.set_getElem_self]

theorem spiLocked_of_none (h : f.monitor? device = none) :
    Hardware.spiLocked device f = (.error .outOfRange, f) := by
  have hd : ¬device.toNat < monitorCount := Nat.not_lt_of_le (Vector.getElem?_eq_none_iff.1 h)
  change onMonitor device _ f = _
  rw [onMonitor, dif_neg hd]

theorem i2cLocked_of_some {c : I2cFilter} (h : f.bus? bus = some c) :
    Hardware.i2cLocked bus f = (.ok c.locked, f) := by
  obtain ⟨hb, rfl⟩ := Vector.getElem?_eq_some_iff.1 h
  change onBus bus _ f = _
  rw [onBus, dif_pos hb]
  change (_, { f with buses := f.buses.set bus.toNat f.buses[bus.toNat] }) = _
  rw [Vector.set_getElem_self]

theorem i2cLocked_of_none (h : f.bus? bus = none) :
    Hardware.i2cLocked bus f = (.error .outOfRange, f) := by
  have hb : ¬bus.toNat < busCount := Nat.not_lt_of_le (Vector.getElem?_eq_none_iff.1 h)
  change onBus bus _ f = _
  rw [onBus, dif_neg hb]

end calls

namespace Keeps

variable {device bus : Option UInt8}

theorem spiLocked (d : UInt8) :
    Keeps device bus (Hardware.spiLocked d : ExceptT Error (StateM SoftFilter) Bool) := by
  intro f
  cases h : f.monitor? d with
  | none =>
    rw [spiLocked_of_none h]
    exact .refl f
  | some m =>
    rw [spiLocked_of_some h]
    exact .refl f

theorem i2cLocked (b : UInt8) :
    Keeps device bus (Hardware.i2cLocked b : ExceptT Error (StateM SoftFilter) Bool) := by
  intro f
  cases h : f.bus? b with
  | none =>
    rw [i2cLocked_of_none h]
    exact .refl f
  | some c =>
    rw [i2cLocked_of_some h]
    exact .refl f

theorem writeCommands (d : UInt8) (words : CommandWords) :
    Keeps (some d) bus (Hardware.writeCommands d words : ExceptT Error (StateM SoftFilter) Unit) :=
  onMonitor fun m hm => by rw [if_pos hm.hasLockedSlot]

theorem writePrivileges (d : UInt8) (read write : PrivilegeTable) :
    Keeps (some d) bus
      (Hardware.writePrivileges d read write : ExceptT Error (StateM SoftFilter) Unit) :=
  onMonitor fun m hm => by rw [if_pos (bne_iff_ne.2 hm.lock_ne)]

theorem lockSpi (d : UInt8) :
    Keeps (some d) bus (Hardware.lockSpi d : ExceptT Error (StateM SoftFilter) Unit) :=
  onMonitor fun _ hm => hm

theorem writeSlot (b : UInt8) (index : Nat) (slot : Slot) :
    Keeps device (some b) (Hardware.writeSlot b index slot : ExceptT Error (StateM SoftFilter) Unit) :=
  change

theorem enable (b : UInt8) (on : Bool) :
    Keeps device (some b) (Hardware.enable b on : ExceptT Error (StateM SoftFilter) Unit) :=
  change

theorem lockI2c (b : UInt8) :
    Keeps device (some b) (Hardware.lockI2c b : ExceptT Error (StateM SoftFilter) Unit) :=
  change

/-! ### Policies -/

theorem synthesize (m : Manifest) (firmware : Option Bytes) (version : Bytes) (t : Target) :
    Keeps device bus (Policy.synthesize (δ := SoftFilter) m firmware version t) := by
  refine (spiLocked t.spiDevice).bind fun locked => ?_
  cases locked with
  | true => exact throw .locked
  | false =>
    refine (i2cLocked t.i2cBus).bind fun locked => ?_
    cases locked with
    | true => exact throw .locked
    | false => exact ofExcept _

theorem applySpi (p : SpiPolicy) (lock : Bool) :
    Keeps (some p.device) bus (p.apply (δ := SoftFilter) lock) := by
  refine (spiLocked p.device).bind fun locked => ?_
  cases locked with
  | true => exact throw .locked
  | false =>
    refine (writeCommands p.device _).bind fun _ => (writePrivileges p.device _ _).bind fun _ => ?_
    cases lock with
    | true => exact lockSpi p.device
    | false => exact pure ()

theorem writeSlots (b : UInt8) (index : Nat) (ss : List (Option Slot)) :
    Keeps device (some b) (Filter.writeSlots (δ := SoftFilter) b index ss) := by
  induction ss generalizing index with
  | nil => exact pure ()
  | cons s ss ih => exact (writeSlot b index _).bind fun _ => ih (index + 1)

theorem applyI2c (p : BusPolicy) (lock : Bool) :
    Keeps device (some p.bus) (p.apply (δ := SoftFilter) lock) := by
  refine (i2cLocked p.bus).bind fun locked => ?_
  cases locked with
  | true => exact throw .locked
  | false =>
    refine (writeSlots p.bus 0 _).bind fun _ => (enable p.bus true).bind fun _ => ?_
    cases lock with
    | true => exact lockI2c p.bus
    | false => exact pure ()

end Keeps
end SoftFilter

/-! ### Later operations -/

/-- What can be done with the hardware: a call of its driver, or a step with a policy. -/
inductive Operation where
  | spiLocked (device : UInt8)
  | writeCommands (device : UInt8) (words : CommandWords)
  | writePrivileges (device : UInt8) (read write : PrivilegeTable)
  | lockSpi (device : UInt8)
  | i2cLocked (bus : UInt8)
  | writeSlot (bus : UInt8) (index : Nat) (slot : Slot)
  | enable (bus : UInt8) (on : Bool)
  | lockI2c (bus : UInt8)
  | synthesize (m : Manifest) (firmware : Option Bytes) (version : Bytes) (t : Target)
  | applySpi (p : SpiPolicy) (lock : Bool)
  | applyI2c (p : BusPolicy) (lock : Bool)

namespace Operation

/-- The monitor whose registers an operation is to change. -/
def device? : Operation → Option UInt8
  | writeCommands device _ | writePrivileges device _ _ | lockSpi device => some device
  | applySpi p _ => some p.device
  | spiLocked _ | i2cLocked _ | writeSlot _ _ _ | enable _ _ | lockI2c _ | synthesize _ _ _ _
  | applyI2c _ _ => none

/-- The bus whose filter an operation is to change. -/
def bus? : Operation → Option UInt8
  | writeSlot bus _ _ | enable bus _ | lockI2c bus => some bus
  | applyI2c p _ => some p.bus
  | spiLocked _ | writeCommands _ _ | writePrivileges _ _ _ | lockSpi _ | i2cLocked _
  | synthesize _ _ _ _ | applySpi _ _ => none

end Operation

namespace SoftFilter

/-- The state after an operation, whatever its result. -/
def after (f : SoftFilter) : Operation → SoftFilter
  | .spiLocked device => (Hardware.spiLocked device f).2
  | .writeCommands device words => (Hardware.writeCommands device words f).2
  | .writePrivileges device read write => (Hardware.writePrivileges device read write f).2
  | .lockSpi device => (Hardware.lockSpi device f).2
  | .i2cLocked bus => (Hardware.i2cLocked bus f).2
  | .writeSlot bus index slot => (Hardware.writeSlot bus index slot f).2
  | .enable bus on => (Hardware.enable bus on f).2
  | .lockI2c bus => (Hardware.lockI2c bus f).2
  | .synthesize m firmware version t => (Policy.synthesize m firmware version t f).2
  | .applySpi p lock => (p.apply lock f).2
  | .applyI2c p lock => (p.apply lock f).2

/-- The state after some operations. -/
def run (f : SoftFilter) (os : List Operation) : SoftFilter := os.foldl after f

theorem after_respects (f : SoftFilter) (o : Operation) :
    Respects o.device? o.bus? f (f.after o) := by
  cases o with
  | spiLocked device => exact Keeps.spiLocked device f
  | writeCommands device words => exact Keeps.writeCommands device words f
  | writePrivileges device read write => exact Keeps.writePrivileges device read write f
  | lockSpi device => exact Keeps.lockSpi device f
  | i2cLocked bus => exact Keeps.i2cLocked bus f
  | writeSlot bus index slot => exact Keeps.writeSlot bus index slot f
  | enable bus on => exact Keeps.enable bus on f
  | lockI2c bus => exact Keeps.lockI2c bus f
  | synthesize m firmware version t => exact Keeps.synthesize m firmware version t f
  | applySpi p lock => exact Keeps.applySpi p lock f
  | applyI2c p lock => exact Keeps.applyI2c p lock f

theorem run_sealed {f : SoftFilter} {device : UInt8} {m : SpiMonitor} (h : f.monitor? device = some m)
    (hs : m.Sealed) (os : List Operation) : (f.run os).monitor? device = some m := by
  induction os generalizing f with
  | nil => exact h
  | cons o os ih => exact ih ((after_respects f o).sealed device m h hs)

theorem run_locked {f : SoftFilter} {bus : UInt8} {c : I2cFilter} (h : f.bus? bus = some c)
    (hl : c.locked = true) (os : List Operation) : (f.run os).bus? bus = some c := by
  induction os generalizing f with
  | nil => exact h
  | cons o os ih => exact ih ((after_respects f o).locked bus c h hl)

theorem lockSpi_ok {f g : SoftFilter} {device : UInt8} (h : Hardware.lockSpi device f = (.ok (), g)) :
    ∃ m : SpiMonitor, g.monitor? device = some m ∧ m.Sealed := by
  obtain ⟨m, n, -, hstep, hn⟩ := onMonitor_ok h
  refine ⟨n, hn, ?_⟩
  obtain rfl : m.locked = n := congrArg Prod.snd hstep
  exact m.sealed_locked

theorem lockI2c_ok {f g : SoftFilter} {bus : UInt8} (h : Hardware.lockI2c bus f = (.ok (), g)) :
    ∃ c : I2cFilter, g.bus? bus = some c ∧ c.locked = true := by
  obtain ⟨-, b, c, -, hstep, hc⟩ := change_ok h
  refine ⟨c, hc, ?_⟩
  cases hstep
  rfl

/-- A monitor of which any table is locked. -/
def IsSpiLocked (f : SoftFilter) (device : UInt8) : Prop :=
  ∃ m, f.monitor? device = some m ∧ m.isLocked = true

/-- A bus whose filter is locked. -/
def IsI2cLocked (f : SoftFilter) (bus : UInt8) : Prop :=
  ∃ c, f.bus? bus = some c ∧ c.locked = true

section refused
variable {f : SoftFilter} {device bus : UInt8}

theorem IsSpiLocked.spiLocked (h : f.IsSpiLocked device) :
    Hardware.spiLocked device f = (.ok true, f) := by
  obtain ⟨m, hm, hl⟩ := h
  rw [spiLocked_of_some hm, hl]

theorem IsI2cLocked.i2cLocked (h : f.IsI2cLocked bus) :
    Hardware.i2cLocked bus f = (.ok true, f) := by
  obtain ⟨c, hc, hl⟩ := h
  rw [i2cLocked_of_some hc, hl]

theorem applySpi_of_locked {p : SpiPolicy} (h : f.IsSpiLocked p.device) (lock : Bool) :
    p.apply lock f = (.error .locked, f) := by
  rw [SpiPolicy.apply, Steps.bind_apply, h.spiLocked]
  rfl

theorem applyI2c_of_locked {p : BusPolicy} (h : f.IsI2cLocked p.bus) (lock : Bool) :
    p.apply lock f = (.error .locked, f) := by
  rw [BusPolicy.apply, Steps.bind_apply, h.i2cLocked]
  rfl

variable {t : Target} (m : Manifest) (firmware : Option Bytes) (version : Bytes)

theorem synthesize_of_spiLocked (h : f.IsSpiLocked t.spiDevice) :
    Policy.synthesize m firmware version t f = (.error .locked, f) := by
  rw [Policy.synthesize, Steps.bind_apply, h.spiLocked]
  rfl

/-- The monitor is looked at first, so only with a monitor is the bus found locked. -/
theorem synthesize_of_i2cLocked {s : SpiMonitor} (hs : f.monitor? t.spiDevice = some s)
    (h : f.IsI2cLocked t.i2cBus) : Policy.synthesize m firmware version t f = (.error .locked, f) := by
  cases hl : s.isLocked with
  | true => exact synthesize_of_spiLocked m firmware version ⟨s, hs, hl⟩
  | false =>
    rw [Policy.synthesize, Steps.bind_apply, spiLocked_of_some hs, hl]
    change (Hardware.i2cLocked t.i2cBus >>= _ : ExceptT Error (StateM SoftFilter) Policy) f = _
    rw [Steps.bind_apply, h.i2cLocked]
    rfl

theorem synthesize_of_none (h : f.monitor? t.spiDevice = none) :
    Policy.synthesize m firmware version t f = (.error .outOfRange, f) := by
  rw [Policy.synthesize, Steps.bind_apply, spiLocked_of_none h]

end refused

/-! ### Locks -/

/-- Locks are for good: what is locked never changes, and is reported as locked. -/
structure Permanent (f : SoftFilter) (os : List Operation) : Prop where
  spi : ∀ device g, Hardware.lockSpi device f = (.ok (), g) → ∃ m, g.monitor? device = some m ∧
    (g.run os).monitor? device = some m ∧ Hardware.spiLocked device (g.run os) = (.ok true, g.run os)
  i2c : ∀ bus g, Hardware.lockI2c bus f = (.ok (), g) → ∃ c, g.bus? bus = some c ∧ c.locked = true ∧
    (g.run os).bus? bus = some c

/-- What is locked is not programmed, and no policy is derived for it. -/
structure Refused (f : SoftFilter) : Prop where
  applySpi : ∀ (p : SpiPolicy) lock, f.IsSpiLocked p.device → p.apply lock f = (.error .locked, f)
  applyI2c : ∀ (p : BusPolicy) lock, f.IsI2cLocked p.bus → p.apply lock f = (.error .locked, f)
  synthesize : ∀ m firmware version t, f.IsSpiLocked t.spiDevice ∨
      (f.monitor? t.spiDevice).isSome = true ∧ f.IsI2cLocked t.i2cBus →
    Policy.synthesize m firmware version t f = (.error .locked, f)
  /-- Of a monitor that does not exist nothing is found, whatever the bus. -/
  outOfRange : ∀ m firmware version t, f.monitor? t.spiDevice = none →
    Policy.synthesize m firmware version t f = (.error .outOfRange, f)

/-- An operation changes the registers of no monitor and no bus but the one it names. -/
structure Local (f : SoftFilter) (o : Operation) : Prop where
  monitor : ∀ device, o.device? ≠ some device → (f.after o).monitor? device = f.monitor? device
  bus : ∀ bus, o.bus? ≠ some bus → (f.after o).bus? bus = f.bus? bus

/-- **Locks are permanent and local.**  A lock holds against every later operation and is answered with
a refusal, and no operation reaches beyond the monitor and the bus it names. -/
theorem locks_hold (f : SoftFilter) (os : List Operation) (o : Operation) :
    f.Permanent os ∧ f.Refused ∧ f.Local o := by
  refine ⟨⟨fun device g h => ?_, fun bus g h => ?_⟩, ⟨fun p lock h => applySpi_of_locked h lock,
    fun p lock h => applyI2c_of_locked h lock, fun m firmware version t h => ?_,
    fun m firmware version t h => synthesize_of_none m firmware version h⟩, ?_⟩
  · obtain ⟨m, hm, hs⟩ := lockSpi_ok h
    have hrun := run_sealed hm hs os
    refine ⟨m, hm, hrun, ?_⟩
    rw [spiLocked_of_some hrun, hs.isLocked]
  · obtain ⟨c, hc, hl⟩ := lockI2c_ok h
    exact ⟨c, hc, hl, run_locked hc hl os⟩
  · rcases h with h | ⟨hsome, h⟩
    · exact synthesize_of_spiLocked m firmware version h
    · obtain ⟨s, hs⟩ := Option.isSome_iff_exists.1 hsome
      exact synthesize_of_i2cLocked m firmware version hs h
  · exact ⟨(after_respects f o).monitor, (after_respects f o).bus⟩

/-- Attempts to reopen the first monitor and the first bus. -/
def reopening : List Operation :=
  [.writeCommands 0 (Vector.replicate slotCount 0),
    .writePrivileges 0 (Vector.replicate privilegeWords 0) (Vector.replicate privilegeWords 0),
    .applySpi ⟨0, .empty, .none⟩ true, .enable 0 false, .writeSlot 0 3 ⟨0x50, .allowAll⟩,
    .applyI2c (.denyAll 0) false]

theorem reopening_fails : ∃ g h : SoftFilter,
    (Hardware.lockSpi 0 reset = (.ok (), g) ∧ Hardware.lockI2c 0 g = (.ok (), h)) ∧
    Hardware.spiLocked 0 (g.run reopening) = (.ok true, g.run reopening) ∧
    (∃ c, h.bus? 0 = some c ∧ (h.run reopening).bus? 0 = some c) ∧
    Policy.apply (.denyAll ⟨0, 0⟩) false h = (.error .locked, h) ∧
    (h.after (.enable 1 true)).monitor? 0 = h.monitor? 0 := by
  have hspi : Hardware.lockSpi 0 reset = (.ok (), reset.after (.lockSpi 0)) := rfl
  have hi2c : Hardware.lockI2c 0 (reset.after (.lockSpi 0)) =
      (.ok (), (reset.after (.lockSpi 0)).after (.lockI2c 0)) := rfl
  obtain ⟨-, -, -, hlocked⟩ := (locks_hold reset reopening (.enable 1 true)).1.spi 0 _ hspi
  obtain ⟨c, hc, -, hrun⟩ := (locks_hold _ reopening (.enable 1 true)).1.i2c 0 _ hi2c
  obtain ⟨-, hrefused, hlocal⟩ := locks_hold ((reset.after (.lockSpi 0)).after (.lockI2c 0)) []
    (.enable 1 true)
  have hmonitor : ((reset.after (.lockSpi 0)).after (.lockI2c 0)).IsSpiLocked 0 :=
    ⟨_, rfl, by decide +kernel⟩
  refine ⟨_, _, ⟨hspi, hi2c⟩, hlocked, ⟨c, hc, hrun⟩, ?_, hlocal.monitor 0 nofun⟩
  rw [Policy.apply, Steps.bind_apply, hrefused.applySpi _ false hmonitor]

/-- A locked bus does not show where the monitor of the target does not exist. -/
theorem locked_bus_outOfRange : ¬∀ (f : SoftFilter) (m : Manifest) (firmware : Option Bytes)
    (version : Bytes) (t : Target), f.IsSpiLocked t.spiDevice ∨ f.IsI2cLocked t.i2cBus →
      (Policy.synthesize m firmware version t f).1 = .error .locked := by
  intro h
  have hsome : (Manifest.parse blockManifest).toOption.isSome = true := by decide +kernel
  obtain ⟨m, -⟩ := Option.isSome_iff_exists.1 hsome
  have hbus : (reset.after (.lockI2c 0)).IsI2cLocked 0 := ⟨_, rfl, rfl⟩
  have hlocked := h (reset.after (.lockI2c 0)) m (some [0x66]) [0x76] ⟨2, 0⟩ (.inr hbus)
  rw [synthesize_of_none m (some [0x66]) [0x76] rfl] at hlocked
  cases hlocked

end SoftFilter
end PlatformGuard.Filter
