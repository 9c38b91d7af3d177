import PlatformGuard.Proofs.Confinement

/-!
# The state of a session

However a session is used, and whatever fails on the way, the host's flash is in one place, an update in
progress or a stored policy stands for a manifest that is valid, and engines are found as they were left.

Each function of a session gets one lemma that says what it can do.  The invariant, what becomes of the
host's flash and what a refusal leaves behind follow from these.
-/

namespace PlatformGuard

/-! ### What lasts on a device -/

/-- A property of devices that outlasts programming and erasing, with whatever result. -/
structure Flash.Lasting {φ : Type} [Flash φ] (P : φ → Prop) : Prop where
  program : ∀ a bs f, P f → P (Flash.program a bs f).2
  erase : ∀ r f, P f → P (Flash.erase r f).2

namespace Updater

open Update

section lasting
variable {φ α β : Type} {P : φ → Prop}

/-- A step leaves the updater with a device that has the property, if it had one. -/
def Preserves (P : φ → Prop) (x : Step φ α) : Prop := ∀ u, P u.device → P (x u).2.device

theorem Preserves.bind {x : Step φ α} {k : α → Step φ β} (hx : Preserves P x)
    (hk : ∀ a, Preserves P (k a)) : Preserves P (x >>= k) := by
  intro u hu
  have hv := hx u hu
  rw [Steps.bind_apply]
  rcases hs : x u with ⟨e | a, v⟩
  · rw [hs] at hv
    exact hv
  · rw [hs] at hv
    exact hk a v hv

/-- Most steps leave the device alone. -/
theorem preserves_of_eq {x : Step φ α} (h : ∀ u, (x u).2.device = u.device) : Preserves P x := by
  intro u hu
  rw [h u]
  exact hu

theorem preserves_applyOffset (offset : UInt32) : Preserves P (applyOffset offset) :=
  preserves_of_eq fun u => by
    unfold applyOffset
    split <;> rfl

theorem preserves_declare (n : Nat) : Preserves P (declare n) :=
  preserves_of_eq fun u => by
    unfold declare
    split
    · split <;> rfl
    · rfl

theorem preserves_openForData : Preserves P (openForData (φ := φ)) := preserves_of_eq fun _ => rfl

theorem preserves_requireWriting : Preserves P (requireWriting (φ := φ)) :=
  preserves_of_eq fun u => by
    unfold requireWriting
    split <;> rfl

theorem preserves_requireSpace (n : Nat) : Preserves P (requireSpace (φ := φ) n) :=
  preserves_of_eq fun u => by
    unfold requireSpace
    split <;> rfl

variable [Flash φ]

theorem preserves_eraseRegion (hP : Flash.Lasting P) : Preserves P eraseRegion := by
  intro u hu
  have hf := hP.erase u.region u.device hu
  unfold eraseRegion
  split
  · exact hu
  · rcases he : Flash.erase u.region u.device with ⟨e | _, f⟩
    · rw [he] at hf
      exact hf
    · rw [he] at hf
      exact hf

theorem preserves_eraseUpTo (hP : Flash.Lasting P) (target : Nat) : Preserves P (eraseUpTo target) := by
  intro u hu
  unfold eraseUpTo
  split
  · exact hu
  · dsimp only
    generalize Region.mk _ _ = r
    have hf := hP.erase r u.device hu
    rcases he : Flash.erase r u.device with ⟨e | _, f⟩
    · rw [he] at hf
      exact hf
    · rw [he] at hf
      exact hf

theorem preserves_programNext (hP : Flash.Lasting P) (data : Bytes) :
    Preserves P (programNext data) := by
  intro u hu
  have hf := hP.program (u.region.address + UInt32.ofNat u.written) data u.device hu
  unfold programNext
  rcases hp : Flash.program (u.region.address + UInt32.ofNat u.written) data u.device with ⟨e | n, f⟩
  · rw [hp] at hf
    exact hf
  · rw [hp] at hf
    dsimp only
    split
    · exact hf
    · exact hf

/-- Whatever an updater is called for, its device keeps what lasts. -/
theorem preserves_call (hP : Flash.Lasting P) (c : Call) : Preserves P (c.step (φ := φ)) := by
  cases c with
  | applyOffset offset => exact preserves_applyOffset offset
  | prepare n => exact (preserves_declare n).bind fun _ => preserves_openForData
  | prepareErased n =>
    exact (preserves_declare n).bind fun _ => (preserves_eraseRegion hP).bind fun _ =>
      preserves_openForData
  | write data =>
    refine preserves_requireWriting.bind fun _ => (preserves_requireSpace _).bind fun _ => ?_
    exact (preserves_of_eq fun _ => rfl).bind fun u => (preserves_eraseUpTo hP _).bind fun _ =>
      preserves_programNext hP data
  | release => exact preserves_of_eq fun _ => rfl

end lasting

end Updater

/-! ### One place for the host's flash -/

namespace Update.Host

variable {φ : Type}

/-- The device while it is at rest. -/
def resting? : Host φ → Option φ
  | resting f => some f
  | updating _ => none

/-- Exactly one of host and updater holds the device, and the device has a property. -/
def Holds (P : φ → Prop) (h : Host φ) : Prop :=
  (∃ f, h.resting? = some f ∧ h.updater? = none ∧ P f) ∨
    ∃ u, h.resting? = none ∧ h.updater? = some u ∧ P u.device

theorem holds_iff {P : φ → Prop} {h : Host φ} : h.Holds P ↔ P h.device := by
  cases h with
  | resting f => simp [Holds, resting?, updater?, device]
  | updating u => simp [Holds, resting?, updater?, device]

end Update.Host

namespace Session

open Flash Manifest Update

/-! ### What each function can do -/

section functions
variable {σ υ η ν δ : Type} {s t : Session σ υ}

section verifying
variable [Flash σ] [Hash.Engine η] [Signature.Verifier ν] {anchor : Anchor}
  {e : Engines (Exclusive η) (Exclusive ν)}

theorem loadAndVerify_of_claimed (h : e.hash.claimed = true ∨ e.signature.claimed = true) :
    s.loadAndVerify anchor e = (.error .busy, s, e) := by
  unfold loadAndVerify Exclusive.claim
  rcases h with h | h
  · rw [if_pos h]
    rfl
  · rw [if_pos h]
    cases e.hash.claimed <;> rfl

/-- With both engines the session begins anew, and gives both back. -/
theorem loadAndVerify_of_free (hh : e.hash.claimed = false) (hv : e.signature.claimed = false) :
    ∃ r stored h v, s.loadAndVerify anchor e =
      (r, { s.abandon with stored }, ⟨⟨h, false⟩, ⟨v, false⟩⟩) := by
  unfold loadAndVerify Exclusive.claim
  rw [if_neg (Bool.eq_false_iff.1 hh), if_neg (Bool.eq_false_iff.1 hv)]
  exact ⟨_, _, _, _, rfl⟩

end verifying

section updating
variable [Flash υ]

/-- The updater that an update is to have. -/
def newUpdater (s : Session σ υ) (firmware : Option Bytes) (version : Bytes) (index : Nat) :
    Except Error (Updater υ) := do
  let region ← s.updateTarget firmware version index
  (Updater.start s.host.device region s.options.eraseUnit).mapError .update

/-- Without an updater an update is refused and nothing happens; otherwise the updater gets the flash
and takes its first call. -/
theorem beginUpdate_eq (s : Session σ υ) (firmware : Option Bytes) (version : Bytes) (index n : Nat) :
    beginUpdate firmware version index n s =
      match s.newUpdater firmware version index with
      | .error x => (.error x, s)
      | .ok u => prepare n { s with host := .updating u } := by
  unfold beginUpdate newUpdater
  rw [Steps.bind_apply, Steps.get_apply]
  simp only [Steps.bind_apply, Steps.ofExcept_apply]
  rcases s.updateTarget firmware version index with x | region
  · rfl
  · unfold lend Update.Host.lend
    rcases hs : Updater.start s.host.device region s.options.eraseUnit with x | u
    · simp only [bind, Except.bind, hs]
      rfl
    · simp only [bind, Except.bind, hs]
      rfl

theorem newUpdater_ok {firmware : Option Bytes} {version : Bytes} {index : Nat} {u : Updater υ}
    (h : s.newUpdater firmware version index = .ok u) :
    s.stored.stage = .valid ∧ u.device = s.host.device := by
  obtain ⟨region, ht, h⟩ := Steps.exceptBind_eq_ok.1 h
  obtain ⟨-, hselects, -⟩ := updateTarget_ok ht
  obtain ⟨-, -, hdevice⟩ := Updater.sized_start (Steps.mapError_eq_ok.1 h)
  exact ⟨hselects.1, hdevice⟩

/-- A call of the updater changes the updater alone. -/
theorem onUpdater_frame (s : Session σ υ) (c : Updater.Call) :
    (s.onUpdater c.step).2 = s ∨ ∃ u, s.host = .updating u ∧
      (s.onUpdater c.step).2 = { s with host := .updating (c.step u).2 } := by
  obtain ⟨options, stored, host, policy⟩ := s
  cases host with
  | resting f => exact .inl rfl
  | updating u => exact .inr ⟨u, rfl, rfl⟩

/-- The first call of an updater. -/
theorem prepare_frame (s : Session σ υ) (n : Nat) (u : Updater υ) : ∃ c : Updater.Call,
    (prepare n { s with host := .updating u }).2 = { s with host := .updating (c.step u).2 } := by
  have hc : ∃ c : Updater.Call, c.step (φ := υ) =
      if s.options.eraseAll then Updater.prepareErased n else Updater.prepare n := by
    cases s.options.eraseAll with
    | true => exact ⟨.prepareErased n, rfl⟩
    | false => exact ⟨.prepare n, rfl⟩
  obtain ⟨c, hc⟩ := hc
  refine ⟨c, ?_⟩
  unfold prepare
  rw [← hc]
  rfl

end updating

/-- A policy is derived from a manifest that is valid, and a failure to do so changes nothing. -/
theorem synthesize_cases [Filter.Hardware δ] (s : Session σ υ) (firmware : Option Bytes)
    (version : Bytes) (d : δ) :
    (∃ x d', synthesize firmware version s d = (.error x, s, d')) ∨
      s.stored.stage = .valid ∧
        ∃ p d', synthesize firmware version s d = (.ok p, { s with policy := some p }, d') := by
  unfold synthesize
  split
  · exact .inl ⟨_, _, rfl⟩
  · rename_i m hm
    split
    · refine .inr ⟨?_, _, _, rfl⟩
      unfold requireVerified isVerified at hm
      split at hm
      · rename_i hvalid
        exact beq_iff_eq.1 hvalid
      · cases hm
    · exact .inl ⟨_, _, rfl⟩

end functions

section reaching
variable {σ υ η ν δ : Type} [Flash σ] [Flash υ] [Hash.Engine η] [Signature.Verifier ν]
  [Filter.Hardware δ]

/-! ### The invariant -/

/-- Updates and policies stand for a manifest that is valid. -/
structure Consistent (s : Session σ υ) : Prop where
  updating : s.host.isUpdating = true → s.stored.stage = .valid
  policy : s.policy.isSome = true → s.stored.stage = .valid

omit [Flash σ] [Flash υ] in
/-- A session without update and policy may be at any stage. -/
theorem consistent_abandon (s : Session σ υ) (stored : StoredManifest σ) :
    Consistent { s.abandon with stored } := ⟨nofun, nofun⟩

omit [Flash σ] [Flash υ] in
theorem Consistent.of_updating {s : Session σ υ} (hs : s.Consistent) (hv : s.stored.stage = .valid)
    (h : Host υ) : Consistent { s with host := h } := ⟨fun _ => hv, hs.policy⟩

/-- **One event.** -/
theorem Consistent.next {s : Session σ υ} (hs : s.Consistent) (e : Event σ υ η ν δ) :
    (s.next e).Consistent := by
  cases e with
  | loadAndVerify anchor engines =>
    rcases loadAndVerify_cases s anchor engines with h | ⟨stored, h⟩
    · rw [Session.next, h]
      exact hs
    · rw [Session.next, h]
      exact consistent_abandon s stored
  | beginUpdate firmware version index n =>
    rw [Session.next, beginUpdate_eq]
    rcases hu : s.newUpdater firmware version index with x | u
    · exact hs
    · obtain ⟨c, hc⟩ := prepare_frame s n u
      simp only [hc]
      exact hs.of_updating (newUpdater_ok hu).1 _
  | update call =>
    rcases onUpdater_frame s call with h | ⟨u, hu, h⟩
    · rw [Session.next, h]
      exact hs
    · rw [Session.next, h]
      exact hs.of_updating (hs.updating (by rw [hu]; rfl)) _
  | endUpdate => exact ⟨fun h => absurd h Bool.false_ne_true, hs.policy⟩
  | synthesize firmware version driver =>
    rcases synthesize_cases s firmware version driver with ⟨x, d, h⟩ | ⟨hv, p, d, h⟩
    · rw [Session.next, h]
      exact hs
    · rw [Session.next, h]
      exact ⟨hs.updating, fun _ => hv⟩
  | apply lock driver => exact hs
  | reset => exact ⟨fun h => absurd h Bool.false_ne_true, fun h => absurd h Bool.false_ne_true⟩
  | store device => exact ⟨hs.updating, hs.policy⟩
  | host change =>
    refine ⟨fun hu => hs.updating ?_, hs.policy⟩
    rw [← hu]
    change _ = (s.host.mapDevice change).isUpdating
    cases s.host <;> rfl

theorem Consistent.reach {s : Session σ υ} (hs : s.Consistent) (es : List (Event σ υ η ν δ)) :
    (s.reach es).Consistent := by
  induction es generalizing s with
  | nil => exact hs
  | cons e es ih => exact ih (hs.next e)

/-! ### The host's flash through a run -/

section custody
variable {P : υ → Prop}

/-- **One event** keeps the flash, wherever it is. -/
theorem device_next (hP : Lasting P) {s : Session σ υ} (hs : P s.host.device) (e : Event σ υ η ν δ)
    (he : ∀ change, e = .host change → ∀ f, P f → P (change f)) : P (s.next e).host.device := by
  cases e with
  | loadAndVerify anchor engines =>
    rcases loadAndVerify_cases s anchor engines with h | ⟨stored, h⟩
    · rw [Session.next, h]
      exact hs
    · rw [Session.next, h]
      exact hs
  | beginUpdate firmware version index n =>
    rw [Session.next, beginUpdate_eq]
    rcases hu : s.newUpdater firmware version index with x | u
    · exact hs
    · obtain ⟨c, hc⟩ := prepare_frame s n u
      simp only [hc]
      exact Updater.preserves_call hP c u ((newUpdater_ok hu).2 ▸ hs)
  | update call =>
    rcases onUpdater_frame s call with h | ⟨u, hu, h⟩
    · rw [Session.next, h]
      exact hs
    · rw [Session.next, h]
      rw [hu] at hs
      exact Updater.preserves_call hP call u hs
  | synthesize firmware version driver =>
    obtain ⟨policy, h⟩ := synthesize_frame s firmware version driver
    rw [Session.next, h]
    exact hs
  | host change =>
    have hf := he change rfl s.host.device hs
    change P (s.host.mapDevice change).device
    cases hh : s.host with
    | resting f =>
      rw [hh] at hf
      exact hf
    | updating u =>
      rw [hh] at hf
      exact hf
  | endUpdate | apply lock driver | reset | store device => exact hs

theorem device_reach (hP : Lasting P) {s : Session σ υ} (hs : P s.host.device)
    {es : List (Event σ υ η ν δ)} (hes : ∀ change, .host change ∈ es → ∀ f, P f → P (change f)) :
    P (s.reach es).host.device := by
  induction es generalizing s with
  | nil => exact hs
  | cons e es ih =>
    refine ih (device_next hP hs e fun change he => ?_) fun change hc =>
      hes change (List.mem_cons_of_mem e hc)
    exact hes change (he ▸ List.mem_cons_self)

end custody

/-! ### Sessions that were made -/

/-- What verifying anew does to engines and session. -/
structure Verifies (s : Session σ υ) (anchor : Anchor) (e : Engines (Exclusive η) (Exclusive ν)) :
    Prop where
  hash : (s.loadAndVerify anchor e).2.2.hash.claimed = e.hash.claimed
  signature : (s.loadAndVerify anchor e).2.2.signature.claimed = e.signature.claimed
  busy : e.hash.claimed = true ∨ e.signature.claimed = true →
    s.loadAndVerify anchor e = (.error .busy, s, e)
  anew : e.hash.claimed = false → e.signature.claimed = false →
    (s.loadAndVerify anchor e).2.1.host.isUpdating = false ∧
      (s.loadAndVerify anchor e).2.1.policy = none

omit [Flash υ] in
theorem verifies (s : Session σ υ) (anchor : Anchor) (e : Engines (Exclusive η) (Exclusive ν)) :
    s.Verifies anchor e := by
  by_cases h : e.hash.claimed = true ∨ e.signature.claimed = true
  · have hbusy : s.loadAndVerify anchor e = _ := loadAndVerify_of_claimed h
    refine ⟨by rw [hbusy], by rw [hbusy], fun _ => hbusy, fun hh hv => ?_⟩
    rw [hh, hv] at h
    simp at h
  · simp only [not_or, Bool.not_eq_true] at h
    obtain ⟨r, stored, k, v, hfree⟩ : ∃ r stored k v, s.loadAndVerify anchor e = _ :=
      loadAndVerify_of_free h.1 h.2
    refine ⟨by rw [hfree, h.1], by rw [hfree, h.2], fun hc => ?_, fun _ _ => ?_⟩
    · rw [h.1, h.2] at hc
      simp at hc
    · rw [hfree]
      exact ⟨rfl, rfl⟩

/-- **The invariant of sessions.**  Through every run of a session that was made, one place holds the
host's flash, updates and policies stand for a valid manifest, and engines are claimed as they were
before; and what is refused changes nothing. -/
theorem session_invariant {options : Options} {store : σ} {host : υ} {caches : Caches}
    {s : Session σ υ} (hs : make options store host caches = .ok s) (es : List (Event σ υ η ν δ)) :
    (s.reach es).Consistent ∧
    (∀ P : υ → Prop, Lasting P → P host →
      (∀ change, .host change ∈ es → ∀ f, P f → P (change f)) → (s.reach es).host.Holds P) ∧
    (∀ (anchor : Anchor) (e : Engines (Exclusive η) (Exclusive ν)), (s.reach es).Verifies anchor e) ∧
    (∀ firmware version index n x, (s.reach es).newUpdater firmware version index = .error x →
      beginUpdate firmware version index n (s.reach es) = (.error x, s.reach es)) ∧
    ∀ firmware version (d d' : δ) x t,
      synthesize firmware version (s.reach es) d = (.error x, t, d') → t = s.reach es := by
  obtain ⟨hhost, hpolicy⟩ : s.host = .resting host ∧ s.policy = none := by
    unfold make at hs
    split at hs
    · cases hs
    · obtain ⟨_, -, rfl⟩ := Steps.map_eq_ok.1 hs
      exact ⟨rfl, rfl⟩
  have hmade : s.Consistent := by
    refine ⟨fun hu => ?_, fun hp => ?_⟩
    · rw [hhost] at hu
      cases hu
    · rw [hpolicy] at hp
      cases hp
  refine ⟨hmade.reach es, fun P hP h hes => ?_, fun anchor e => verifies _ anchor e,
    fun firmware version index n x hx => ?_, fun firmware version d d' x t ht => ?_⟩
  · exact Host.holds_iff.2 (device_reach hP (by rw [hhost]; exact h) hes)
  · rw [beginUpdate_eq, hx]
  · rcases synthesize_cases (s.reach es) firmware version d with ⟨x', d'', h⟩ | ⟨-, p, d'', h⟩
    · rw [h] at ht
      cases ht
      rfl
    · rw [h] at ht
      cases ht

end reaching

/-! ### A run -/

/-- A session like the small one, on a host whose flash is not recorded. -/
def plainSession : Except Error (Session Ram (Faulty Ram)) :=
  make smallOptions ⟨smallManifest.toArray⟩ { device := ⟨Array.replicate 32 0⟩, sector := some 8 }
    ⟨Bytes.zeros 300, Bytes.zeros 2, Bytes.zeros 256, []⟩

/-- A device on which calls fail keeps the size of its sectors. -/
theorem lasting_sector (n : Option Nat) : Lasting fun f : Faulty Ram => f.sector = n := by
  have hguard : ∀ {α : Type} (c : Flash.Call) {step : ExceptT Flash.Error (StateM (Faulty Ram)) α}
      (f : Faulty Ram), (step f).2.sector = f.sector → (f.faults.guard c step f).2.sector = f.sector := by
    intro α c step f hf
    unfold Faults.guard
    cases f.faults.at? c with
    | some e => rfl
    | none => exact hf
  refine ⟨fun a bs f hf => (hguard .program f ?_).trans hf, fun r f hf => (hguard .erase f rfl).trans hf⟩
  unfold Faulty.programFrom
  rw [Steps.bind_apply, Steps.get_apply]
  dsimp only
  rw [Steps.bind_apply]
  rcases hr : Faulty.request _ _ f with ⟨e | k, g⟩
  · exact (congrArg (fun x => x.2.sector) hr).symm
  · exact (congrArg (fun x => x.2.sector) hr).symm

/-- After the run an update is in progress, with the flash that the session was made with. -/
theorem plainSession_updating : ∃ s, plainSession = .ok s ∧
    (s.reach smallRun).host.isUpdating = true ∧ (s.reach smallRun).Consistent ∧
    (s.reach smallRun).host.Holds fun f => f.sector = some 8 := by
  have hupdating : (match plainSession with
      | .ok s => (s.reach smallRun).host.isUpdating
      | .error _ => false) = true := by decide +kernel
  rcases hs : plainSession with x | s
  · rw [hs] at hupdating
    cases hupdating
  · rw [hs] at hupdating
    obtain ⟨hconsistent, hholds, -⟩ := session_invariant hs smallRun
    refine ⟨s, rfl, hupdating, hconsistent, hholds _ (lasting_sector _) rfl fun change hc => ?_⟩
    simp [smallRun] at hc

end Session
end PlatformGuard
