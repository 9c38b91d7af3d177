import PlatformGuard.Flash.Ram
import PlatformGuard.Hash.Software
import PlatformGuard.Proofs.Updating
import PlatformGuard.Session
import PlatformGuard.Signature.Forced
import PlatformGuard.Signature.Rsa
import Mathlib.Data.List.Induction

/-!
# Confinement of updates

Sessions may be used in any order, with engines that others hold, a store and a host's flash that
change behind their backs and calls that fail anywhere.  Every request that reaches the host's flash
lies in the configured region and in the region that was selected from the manifest that is valid at
that moment.

The invariant says that an update in progress was begun by a call of the run (`BegunBy`), that the
manifest which is valid now still selects the region that it was begun for (`Selects`), and that the
updater works inside that region.
-/

namespace PlatformGuard.Session

open Flash Manifest Update

/-! ### Runs -/

/-- What can happen to a session, its store and the flash of its host. -/
inductive Event (σ υ η ν δ : Type) where
  | loadAndVerify (anchor : Anchor) (engines : Engines (Exclusive η) (Exclusive ν))
  | beginUpdate (firmware : Option Bytes) (version : Bytes) (index n : Nat)
  /-- A call of the updater, if there is one. -/
  | update (call : Updater.Call)
  | endUpdate
  | synthesize (firmware : Option Bytes) (version : Bytes) (driver : δ)
  | apply (lock : Bool) (driver : δ)
  | reset
  /-- The store becomes another device. -/
  | store (device : σ)
  /-- The flash of the host changes by itself. -/
  | host (change : υ → υ)

section runs
variable {σ υ η ν δ : Type} [Flash σ] [Flash υ] [Hash.Engine η] [Signature.Verifier ν]
  [Filter.Hardware δ]

/-- The session after an event. -/
def next (s : Session σ υ) : Event σ υ η ν δ → Session σ υ
  | .loadAndVerify anchor engines => (s.loadAndVerify anchor engines).2.1
  | .beginUpdate firmware version index n => (beginUpdate firmware version index n s).2
  | .update call => (s.onUpdater call.step).2
  | .endUpdate => s.endUpdate
  | .synthesize firmware version driver => (synthesize firmware version s driver).2.1
  | .apply _ _ => s
  | .reset => s.reset
  | .store device => { s with stored := { s.stored with flash := device } }
  | .host change => { s with host := s.host.mapDevice change }

/-- The session after some events. -/
def reach (s : Session σ υ) (es : List (Event σ υ η ν δ)) : Session σ υ := es.foldl next s

/-- What an event is where the flash of the host is recorded. -/
def Event.recorded : Event σ υ η ν δ → Event σ (Recorded υ) η ν δ
  | .loadAndVerify anchor engines => .loadAndVerify anchor engines
  | .beginUpdate firmware version index n => .beginUpdate firmware version index n
  | .update call => .update call
  | .endUpdate => .endUpdate
  | .synthesize firmware version driver => .synthesize firmware version driver
  | .apply lock driver => .apply lock driver
  | .reset => .reset
  | .store device => .store device
  | .host change => .host fun f => { f with device := change f.device }

/-- The session after an event, where the flash of its host is recorded. -/
def after (s : Session σ (Recorded υ)) (e : Event σ υ η ν δ) : Session σ (Recorded υ) := s.next e.recorded

/-- The session after a run, where the flash of its host is recorded. -/
def run (s : Session σ (Recorded υ)) (es : List (Event σ υ η ν δ)) : Session σ (Recorded υ) :=
  s.reach (es.map Event.recorded)

theorem run_append (s : Session σ (Recorded υ)) (es fs : List (Event σ υ η ν δ)) :
    s.run (es ++ fs) = (s.run es).run fs := by
  unfold run reach
  rw [List.map_append, List.foldl_append]

theorem run_snoc (s : Session σ (Recorded υ)) (es : List (Event σ υ η ν δ)) (e : Event σ υ η ν δ) :
    s.run (es ++ [e]) = (s.run es).after e := run_append s es [e]

end runs

/-! ### Selected regions -/

section selecting
variable {σ υ : Type} {s t : Session σ υ} {firmware : Option Bytes} {version : Bytes} {index : Nat}
  {region : Region}

/-- Firmware, version and index select a region from the manifest that is valid. -/
def Selects (s : Session σ υ) (firmware : Option Bytes) (version : Bytes) (index : Nat)
    (region : Region) : Prop :=
  s.stored.stage = .valid ∧ ∃ m regions rw, s.stored.manifest = .ok m ∧
    m.rwRegions firmware version = .ok regions ∧ regions[index]? = some rw ∧ rw.region = region

/-- The selection depends on the stored manifest alone, wherever its flash is. -/
theorem Selects.congr (h : s.Selects firmware version index region)
    (hst : ∃ f, t.stored = { s.stored with flash := f }) :
    t.Selects firmware version index region := by
  obtain ⟨f, hst⟩ := hst
  unfold Selects
  rw [hst]
  exact h

theorem updateTarget_ok (h : s.updateTarget firmware version index = .ok region) :
    s.host.isUpdating = false ∧ s.Selects firmware version index region ∧
      region.isWithin s.options.updateRegion = true := by
  unfold updateTarget at h
  obtain ⟨_, hv, h⟩ := Steps.exceptBind_eq_ok.1 h
  have hvalid : s.stored.stage = .valid := by
    unfold requireVerified isVerified at hv
    split at hv
    · rename_i hb
      exact beq_iff_eq.1 hb
    · cases hv
  cases hu : s.host.isUpdating with
  | true =>
    rw [hu] at h
    cases h
  | false =>
    rw [hu] at h
    obtain ⟨m, hm, h⟩ := Steps.exceptBind_eq_ok.1 h
    obtain ⟨regions, hr, h⟩ := Steps.exceptBind_eq_ok.1 h
    refine ⟨rfl, ?_⟩
    split at h
    · rename_i rw hrw
      split at h
      · rename_i hw
        cases h
        exact ⟨⟨hvalid, m, regions, rw, Steps.mapError_eq_ok.1 hm, Steps.mapError_eq_ok.1 hr, hrw,
          rfl⟩, hw⟩
      · cases h
    · cases h

end selecting

/-! ### Beginning an update -/

section updating
variable {σ υ : Type} [Flash υ]

/-- A call of the updater changes the host alone; without an updater it changes nothing. -/
theorem onUpdater_cases (s : Session σ (Recorded υ)) (c : Updater.Call) :
    (s.host.isUpdating = false ∧ (s.onUpdater c.step).2 = s) ∨
      ∃ u v r, s.host = .updating u ∧ c.step u = (r, v) ∧
        (s.onUpdater c.step).2 = { s with host := .updating v } := by
  unfold onUpdater
  rcases hh : s.host with f | u
  · exact .inl ⟨rfl, by rw [← hh]; cases s; cases hh; rfl⟩
  · exact .inr ⟨u, (c.step u).2, (c.step u).1, rfl, rfl, rfl⟩

/-- Either nothing happens, or the host's flash is lent to a new updater of the selected region, which
takes its first call. -/
theorem beginUpdate_cases (s : Session σ (Recorded υ)) (firmware : Option Bytes) (version : Bytes)
    (index n : Nat) :
    (beginUpdate firmware version index n s).2 = s ∨
      ∃ region u v r c, s.updateTarget firmware version index = .ok region ∧
        Updater.start s.host.device region s.options.eraseUnit = .ok u ∧
        Updater.Call.step c u = (r, v) ∧
        (beginUpdate firmware version index n s).2 = { s with host := .updating v } := by
  unfold beginUpdate
  rw [Steps.bind_apply, Steps.get_apply]
  simp only [Steps.bind_apply, Steps.ofExcept_apply]
  rcases s.updateTarget firmware version index with e | region
  · exact .inl rfl
  · unfold lend Update.Host.lend
    dsimp only
    rcases hu : Updater.start s.host.device region s.options.eraseUnit with e | u
    · exact .inl rfl
    · have hc : ∃ c : Updater.Call, c.step (φ := Recorded υ) =
          if s.options.eraseAll then Updater.prepareErased n else Updater.prepare n := by
        cases s.options.eraseAll with
        | true => exact ⟨.prepareErased n, rfl⟩
        | false => exact ⟨.prepare n, rfl⟩
      obtain ⟨c, hc⟩ := hc
      refine .inr ⟨region, u, (c.step u).2, (c.step u).1, c, rfl, hu, rfl, ?_⟩
      change (prepare n { s with host := .updating u }).2 = _
      unfold prepare
      rw [← hc]
      rfl

end updating

/-! ### What an event does -/

section events
variable {σ υ η ν δ : Type} [Flash σ] [Flash υ] [Hash.Engine η] [Signature.Verifier ν]
  [Filter.Hardware δ]

omit [Flash υ] in
/-- Verifying anew ends the update, unless an engine is taken. -/
theorem loadAndVerify_cases (s : Session σ υ) (anchor : Anchor)
    (e : Engines (Exclusive η) (Exclusive ν)) :
    (s.loadAndVerify anchor e).2.1 = s ∨
      ∃ stored, (s.loadAndVerify anchor e).2.1 = { s.abandon with stored } := by
  unfold loadAndVerify
  split
  · exact .inr ⟨_, rfl⟩
  · exact .inl rfl
  · exact .inl rfl

omit [Flash σ] [Flash υ] in
/-- Deriving a policy changes the policy at most. -/
theorem synthesize_frame (s : Session σ υ) (firmware : Option Bytes) (version : Bytes) (d : δ) :
    ∃ policy, (synthesize firmware version s d).2.1 = { s with policy } := by
  unfold synthesize
  split
  · exact ⟨s.policy, rfl⟩
  · split
    · exact ⟨_, rfl⟩
    · exact ⟨s.policy, rfl⟩

/-- What the host's flash was asked for. -/
def requests (s : Session σ (Recorded υ)) : List Request := s.host.device.requests

/-- A change of the host that asks nothing of its flash. -/
def Quiet (s t : Session σ (Recorded υ)) : Prop :=
  (∃ f, t.stored = { s.stored with flash := f }) ∧
    ∃ change, t.host = s.host.mapDevice change ∧ ∀ f, (change f).requests = f.requests

omit [Flash σ] [Flash υ] in
theorem quiet_of_eq {s t : Session σ (Recorded υ)} {f : σ} {p : Option Filter.Policy}
    (h : t = { s with stored := { s.stored with flash := f }, policy := p }) : s.Quiet t := by
  subst h
  refine ⟨⟨f, rfl⟩, fun d => d, ?_, fun d => rfl⟩
  change s.host = s.host.mapDevice fun d => d
  cases s.host <;> rfl

/-- An event ends the update, or is quiet, or is a call of the updater, or begins an update. -/
theorem after_cases (s : Session σ (Recorded υ)) (e : Event σ υ η ν δ) :
    ((s.after e).host.isUpdating = false ∧ (s.after e).requests = s.requests) ∨
    s.Quiet (s.after e) ∨
    (∃ c u v r, e = .update c ∧ s.host = .updating u ∧ Updater.Call.step c u = (r, v) ∧
      s.after e = { s with host := .updating v }) ∨
    ∃ firmware version index n region u v r c, e = .beginUpdate firmware version index n ∧
      s.updateTarget firmware version index = .ok region ∧
      Updater.start s.host.device region s.options.eraseUnit = .ok u ∧
      Updater.Call.step c u = (r, v) ∧ s.after e = { s with host := .updating v } := by
  have hsame : s.Quiet s := quiet_of_eq (f := s.stored.flash) (p := s.policy) rfl
  cases e with
  | loadAndVerify anchor engines =>
    change _ ∨ s.Quiet (s.loadAndVerify anchor engines).2.1 ∨ _
    rcases loadAndVerify_cases s anchor engines with h | ⟨stored, h⟩
    · rw [h]
      exact .inr (.inl hsame)
    · refine .inl ⟨?_, ?_⟩
      · rw [after, Event.recorded, next, h]
        rfl
      · rw [after, Event.recorded, next, h]
        rfl
  | beginUpdate firmware version index n =>
    rcases beginUpdate_cases s firmware version index n with h | ⟨region, u, v, r, c, ht, hu, hc, hs⟩
    · refine .inr (.inl ?_)
      rw [after, Event.recorded, next, h]
      exact hsame
    · exact .inr (.inr (.inr ⟨firmware, version, index, n, region, u, v, r, c, rfl, ht, hu, hc, hs⟩))
  | update c =>
    rcases onUpdater_cases s c with ⟨-, h⟩ | ⟨u, v, r, hu, hc, hs⟩
    · refine .inr (.inl ?_)
      rw [after, Event.recorded, next, h]
      exact hsame
    · exact .inr (.inr (.inl ⟨c, u, v, r, rfl, hu, hc, hs⟩))
  | endUpdate => exact .inl ⟨rfl, rfl⟩
  | synthesize firmware version driver =>
    obtain ⟨policy, h⟩ := synthesize_frame s firmware version driver
    exact .inr (.inl (quiet_of_eq (f := s.stored.flash) (p := policy) h))
  | apply lock driver => exact .inr (.inl hsame)
  | reset => exact .inl ⟨rfl, rfl⟩
  | store device => exact .inr (.inl (quiet_of_eq (f := device) (p := s.policy) rfl))
  | host change => exact .inr (.inl ⟨⟨s.stored.flash, rfl⟩, _, rfl, fun f => rfl⟩)

theorem options_after (s : Session σ (Recorded υ)) (e : Event σ υ η ν δ) :
    (s.after e).options = s.options := by
  cases e with
  | loadAndVerify anchor engines =>
    rcases loadAndVerify_cases s anchor engines with h | ⟨stored, h⟩
    · rw [after, Event.recorded, next, h]
    · rw [after, Event.recorded, next, h]
      rfl
  | beginUpdate firmware version index n =>
    rcases beginUpdate_cases s firmware version index n with h | ⟨region, u, v, r, c, -, -, -, h⟩
    · rw [after, Event.recorded, next, h]
    · rw [after, Event.recorded, next, h]
  | synthesize firmware version driver =>
    obtain ⟨policy, h⟩ := synthesize_frame s firmware version driver
    rw [after, Event.recorded, next, h]
  | _ => rfl

theorem options_run (s : Session σ (Recorded υ)) (es : List (Event σ υ η ν δ)) :
    (s.run es).options = s.options := by
  induction es using List.reverseRecOn with
  | nil => rfl
  | append_singleton es e ih => rw [run_snoc, options_after, ih]

/-! ### The call that began an update -/

/-- The update in progress after a run was begun by one of its calls, with this selection: the call found
no update, and there has been one ever since. -/
def BegunBy (s : Session σ (Recorded υ)) (es : List (Event σ υ η ν δ)) (firmware : Option Bytes)
    (version : Bytes) (index : Nat) : Prop :=
  ∃ before n since, es = before ++ .beginUpdate firmware version index n :: since ∧
    (s.run before).host.isUpdating = false ∧
    ∀ fs, fs <+: since →
      (s.run (before ++ .beginUpdate firmware version index n :: fs)).host.isUpdating = true

variable {s : Session σ (Recorded υ)} {es : List (Event σ υ η ν δ)} {e : Event σ υ η ν δ}
  {firmware : Option Bytes} {version : Bytes} {index n : Nat}

theorem begunBy_last (hn : (s.run es).host.isUpdating = false)
    (hu : (s.run (es ++ [.beginUpdate firmware version index n])).host.isUpdating = true) :
    s.BegunBy (es ++ [.beginUpdate firmware version index n]) firmware version index := by
  refine ⟨es, n, [], rfl, hn, fun fs hf => ?_⟩
  rw [List.prefix_nil.1 hf]
  exact hu

theorem BegunBy.snoc (h : s.BegunBy es firmware version index)
    (hu : (s.run (es ++ [e])).host.isUpdating = true) :
    s.BegunBy (es ++ [e]) firmware version index := by
  obtain ⟨before, n, since, hes, hb, hs⟩ := h
  have heq : es ++ [e] = before ++ .beginUpdate firmware version index n :: (since ++ [e]) := by
    rw [hes, List.append_assoc, List.cons_append]
  refine ⟨before, n, since ++ [e], heq, hb, fun fs hf => ?_⟩
  rcases List.prefix_concat_iff.1 hf with hf | hf
  · rw [hf, ← List.concat_eq_append, List.concat_eq_append, ← heq]
    exact hu
  · exact hs fs hf

/-! ### The invariant -/

/-- After a run, an update in progress has a begin in the run; what that selected is still selected, lies
in the configured region, and holds the region of the updater. -/
structure Working (s : Session σ (Recorded υ)) (es : List (Event σ υ η ν δ)) (u : Updater (Recorded υ))
    (firmware : Option Bytes) (version : Bytes) (index : Nat) (region : Region) : Prop where
  sized : u.Sized
  begun : s.BegunBy es firmware version index
  selects : (s.run es).Selects firmware version index region
  inOptions : region.Inside s.options.updateRegion
  inside : u.region.Inside region

/-- What one more event may ask of the host's flash. -/
def Confined (s : Session σ (Recorded υ)) (es : List (Event σ υ η ν δ)) (e : Event σ υ η ν δ) : Prop :=
  ∃ new, (s.run (es ++ [e])).requests = (s.run es).requests ++ new ∧
    ∀ q ∈ new, ∃ firmware version index region, s.BegunBy (es ++ [e]) firmware version index ∧
      (s.run es).Selects firmware version index region ∧
      (s.run (es ++ [e])).Selects firmware version index region ∧
      q.Inside region ∧ q.Inside s.options.updateRegion

theorem confined_of_eq (h : (s.run (es ++ [e])).requests = (s.run es).requests) :
    s.Confined es e := ⟨[], by rw [h, List.append_nil], by simp⟩

/-- A call of an updater that works inside a selected region is confined, and the updater still works. -/
theorem confined_of_moves {u v : Updater (Recorded υ)} {region : Region} (hm : u.Moves v)
    (hd : (s.run es).host.device = u.device)
    (hs : s.run (es ++ [e]) = { s.run es with host := .updating v })
    (hb : s.BegunBy (es ++ [e]) firmware version index)
    (hselects : (s.run es).Selects firmware version index region)
    (ho : region.Inside s.options.updateRegion) (hi : u.region.Inside region) :
    s.Confined es e ∧ s.Working (es ++ [e]) v firmware version index region := by
  have hselects' : (s.run (es ++ [e])).Selects firmware version index region :=
    hselects.congr ⟨(s.run es).stored.flash, by rw [hs]⟩
  obtain ⟨new, hnew, hin⟩ := hm.asks
  refine ⟨⟨new, ?_, fun q hq => ?_⟩, hm.sized, hb, hselects', ho, hm.inside.trans hi⟩
  · unfold requests
    rw [hs, hd]
    exact hnew
  · have hq := (hin q hq).trans hi
    exact ⟨firmware, version, index, region, hb, hselects, hselects', hq, hq.trans ho⟩

/-- **One event.**  If an update in progress works inside what was selected for it, then what the event
asks for is confined, and so it is afterwards. -/
theorem confined_step (e : Event σ υ η ν δ)
    (ih : ∀ u, (s.run es).host = .updating u →
      ∃ firmware version index region, s.Working es u firmware version index region) :
    s.Confined es e ∧ ∀ u, (s.run (es ++ [e])).host = .updating u →
      ∃ firmware version index region, s.Working (es ++ [e]) u firmware version index region := by
  have hupdating : ∀ {v}, (s.run es).after e = { s.run es with host := .updating v } →
      (s.run (es ++ [e])).host.isUpdating = true := by
    intro v hs
    rw [run_snoc, hs]
    rfl
  rcases after_cases (s.run es) e with ⟨hrest, hsame⟩ | hquiet | ⟨c, u, v, r, rfl, hu, hc, hs⟩ |
    ⟨firmware, version, index, n, region, u, v, r, c, rfl, ht, hu, hc, hs⟩
  · -- the update has ended
    rw [← run_snoc] at hrest hsame
    refine ⟨confined_of_eq hsame, fun u hu => ?_⟩
    rw [hu] at hrest
    cases hrest
  · -- the updater is the same but for its device
    obtain ⟨hst, change, hh, hrequests⟩ := hquiet
    rw [← run_snoc] at hst hh
    have hdevice : (s.run (es ++ [e])).host.device = change (s.run es).host.device := by
      rw [hh]
      cases (s.run es).host <;> rfl
    refine ⟨confined_of_eq (by rw [requests, hdevice, hrequests]; rfl), fun v hv => ?_⟩
    rcases hold : (s.run es).host with f | u
    · rw [hh, hold] at hv
      cases hv
    · obtain ⟨firmware, version, index, region, hw⟩ := ih u hold
      have hsnoc := hw.begun.snoc (show (s.run (es ++ [e])).host.isUpdating = true by rw [hv]; rfl)
      rw [hh, hold] at hv
      cases hv
      exact ⟨firmware, version, index, region, ⟨hw.sized.1, hw.sized.2, hw.sized.3, hw.sized.4,
        hw.sized.5, hw.sized.6, hw.sized.7, hw.sized.8⟩, hsnoc, hw.selects.congr hst, hw.inOptions,
        hw.inside⟩
  · -- a call of the updater
    obtain ⟨firmware, version, index, region, hw⟩ := ih u hu
    have hb := hw.begun.snoc (hupdating hs)
    rw [← run_snoc] at hs
    obtain ⟨hconf, hwork⟩ := confined_of_moves (Updater.call_moves c hw.sized hc) (by rw [hu]; rfl) hs
      hb hw.selects hw.inOptions hw.inside
    refine ⟨hconf, fun w hw' => ?_⟩
    rw [hs] at hw'
    cases hw'
    exact ⟨firmware, version, index, region, hwork⟩
  · -- an update begins
    obtain ⟨hnone, hselects, hwithin⟩ := updateTarget_ok ht
    obtain ⟨hsized, hregion, hdevice⟩ := Updater.sized_start hu
    have hb := begunBy_last hnone (hupdating hs)
    rw [← run_snoc] at hs
    rw [options_run] at hwithin
    obtain ⟨hconf, hwork⟩ := confined_of_moves (Updater.call_moves c hsized hc) hdevice.symm hs hb
      hselects (Region.inside_of_isWithin hwithin) (hregion ▸ Region.Inside.refl _)
    refine ⟨hconf, fun w hw' => ?_⟩
    rw [hs] at hw'
    cases hw'
    exact ⟨firmware, version, index, region, hwork⟩

/-- The invariant of runs that start with the host's flash at rest. -/
theorem working_invariant (hs : s.host.isUpdating = false) (es : List (Event σ υ η ν δ)) :
    ∀ u, (s.run es).host = .updating u →
      ∃ firmware version index region, s.Working es u firmware version index region := by
  induction es using List.reverseRecOn with
  | nil =>
    intro u hu
    change s.host = _ at hu
    rw [hu] at hs
    cases hs
  | append_singleton es e ih => exact (confined_step e ih).2

/-- **Confinement.**  In a run of a session, whatever an event asks of the host's flash lies in the
configured region and in the region that firmware, version and index of the update's begin select from
the manifest that is valid then. -/
theorem requests_confined {options : Options} {store : σ} {host : υ} {caches : Caches}
    {s : Session σ (Recorded υ)} (hs : make options store ⟨host, []⟩ caches = .ok s)
    (es : List (Event σ υ η ν δ)) (e : Event σ υ η ν δ) :
    ∃ new, (s.run (es ++ [e])).requests = (s.run es).requests ++ new ∧
      ∀ q ∈ new, ∃ firmware version index region,
        s.BegunBy (es ++ [e]) firmware version index ∧
        (s.run es).Selects firmware version index region ∧
        (s.run (es ++ [e])).Selects firmware version index region ∧
        q.Inside region ∧ q.Inside options.updateRegion := by
  have hmade : s.options = options ∧ s.host.isUpdating = false := by
    unfold make at hs
    split at hs
    · cases hs
    · obtain ⟨caches', -, rfl⟩ := Steps.map_eq_ok.1 hs
      exact ⟨rfl, rfl⟩
  obtain ⟨rfl, hrest⟩ := hmade
  exact (confined_step e (working_invariant hrest es)).1

end events

/-! ### A run -/

/-- A legacy manifest whose version `v` lets the host write the first sixteen bytes. -/
def smallManifest : Bytes :=
  [0x2c, 0x01, 0x4d, 0x50, 0, 0, 0, 0, 0x00, 0x01, 0, 0] ++ [1, 0, 0x41, 0, 1, 0, 0, 0] ++
    [0, 1, 1, 0, 0, 0, 0, 0, 0x76, 0, 0, 0] ++ [0, 0, 0, 0, 0, 0, 0, 0, 16, 0, 0, 0] ++
    Bytes.zeros 256

def smallOptions : Options where
  manifestAddress := 0
  maxManifest := 300
  maxPlatformId := 2
  maxSignature := 256
  updateRegion := ⟨0, 24⟩
  eraseUnit := .sector
  eraseAll := false
  target := ⟨0, 0⟩

/-- A session whose host has sectors of eight bytes. -/
def smallSession : Except Error (Session Ram (Recorded (Faulty Ram))) :=
  make smallOptions ⟨smallManifest.toArray⟩ ⟨{ device := ⟨Array.replicate 32 0⟩, sector := some 8 }, []⟩
    ⟨Bytes.zeros 300, Bytes.zeros 2, Bytes.zeros 256, []⟩

/-- Verifies the manifest and begins an update. -/
def smallRun : List (Event Ram (Faulty Ram) Hash.SoftEngine
    (Signature.Transcript (Signature.Forced Rsa.SoftVerifier)) Filter.SoftFilter) :=
  [.loadAndVerify (.rootKey ⟨Bytes.zeros 384, [1, 0, 1], by decide +kernel, by decide⟩)
      ⟨⟨.idle, false⟩, ⟨⟨⟨⟨⟩, some (.ok ())⟩, []⟩, false⟩⟩,
    .beginUpdate none [0x76] 0 4]

/-- The first write asks for the first sector. -/
theorem smallRun_confined : ∃ s, smallSession = .ok s ∧
    (s.run (smallRun ++ [.update (.write [1, 2, 3, 4])])).requests = [.erase ⟨0, 8⟩] ∧
    ∃ new, (s.run (smallRun ++ [.update (.write [1, 2, 3, 4])])).requests =
        (s.run smallRun).requests ++ new ∧
      ∀ q ∈ new, ∃ firmware version index region,
        s.BegunBy (smallRun ++ [.update (.write [1, 2, 3, 4])]) firmware version index ∧
        (s.run smallRun).Selects firmware version index region ∧
        (s.run (smallRun ++ [.update (.write [1, 2, 3, 4])])).Selects firmware version index region ∧
        q.Inside region ∧ q.Inside smallOptions.updateRegion := by
  have hrequests : (match smallSession with
      | .ok s => decide ((s.run (smallRun ++ [.update (.write [1, 2, 3, 4])])).requests =
          [.erase ⟨0, 8⟩])
      | .error _ => false) = true := by decide +kernel
  rcases hs : smallSession with e | s
  · rw [hs] at hrequests
    cases hrequests
  · rw [hs] at hrequests
    exact ⟨s, rfl, of_decide_eq_true hrequests, requests_confined hs smallRun _⟩

end PlatformGuard.Session
