import PlatformGuard.Proofs.Phases
import Mathlib.Algebra.GroupWithZero.Nat
import Mathlib.Data.List.Induction

/-!
# Updates on a device that misbehaves

An updater is used in any order, on a device whose erases may fail and whose programs may fail or report
any number of bytes.  A logged device keeps each request together with its answer; its log begins anew
with every call that finds the updater idle, so that it is the log of one update.

What the log must look like is said entry by entry (`Proper`): erases are whole units inside the region
and never below the write offset, and programs touch only bytes that an earlier erase of the log covers.
The invariant (`Tracked`) ties the counters of the updater to the log.  That regions and sizes stay in
order is known from recorded devices, which a logged device follows request by request.
-/

namespace PlatformGuard

/-! ### Logged devices -/

namespace Flash

/-- A request to change a device, with the answer of the device. -/
inductive Entry where
  | erase (region : Region) (answer : Except Error Unit)
  | program (address : UInt32) (data : Bytes) (answer : Except Error Nat)

namespace Entry

/-- What was asked for. -/
def request : Entry → Request
  | erase region _ => .erase region
  | program address data _ => .program address data.length data

/-- The number of bytes of an update that an entry stands for: what the device reports, but no more than
it was given. -/
def count : Entry → Nat
  | program _ data (.ok n) => min n data.length
  | program _ _ (.error _) | erase _ _ => 0

end Entry

/-- The number of bytes of an update that a log stands for. -/
def progress (log : List Entry) : Nat := (log.map Entry.count).sum

/-- An erase that succeeded covers an address. -/
def Erased (log : List Entry) (a : Nat) : Prop := ∃ r, .erase r (.ok ()) ∈ log ∧ a ∈ r

@[simp]
theorem progress_snoc (log : List Entry) (e : Entry) :
    progress (log ++ [e]) = progress log + e.count := by
  simp [progress]

theorem Erased.mono {log more : List Entry} {a : Nat} (h : Erased log a) : Erased (log ++ more) a := by
  obtain ⟨r, hr, ha⟩ := h
  exact ⟨r, List.mem_append_left _ hr, ha⟩

/-- A device, and its log, first entry first. -/
structure Logged (φ : Type) where
  device : φ
  log : List Entry := []

namespace Logged

variable {φ : Type} [Flash φ]

instance : Flash (Logged φ) where
  size f := Flash.size f.device
  sectorSize f := Flash.sectorSize f.device
  blockSize f := Flash.blockSize f.device
  read f := Flash.read f.device
  length_read := Flash.length_read
  program a bs := fun f =>
    let (r, d) := Flash.program a bs f.device
    (r, ⟨d, f.log ++ [.program a bs r]⟩)
  erase region := fun f =>
    let (r, d) := Flash.erase region f.device
    (r, ⟨d, f.log ++ [.erase region r]⟩)
  flush := fun f =>
    let (r, d) := Flash.flush f.device
    (r, { f with device := d })

theorem log_program (f : Logged φ) (a : UInt32) (bs : Bytes) :
    (Flash.program a bs f).2.log = f.log ++ [.program a bs (Flash.program a bs f).1] := rfl

theorem log_erase (f : Logged φ) (r : Region) :
    (Flash.erase r f).2.log = f.log ++ [.erase r (Flash.erase r f).1] := rfl

/-- The device without the answers. -/
def recorded (f : Logged φ) : Recorded φ := ⟨f.device, f.log.map Entry.request⟩

end Logged

/-! ### Devices that behave the same -/

/-- Requests are answered as before, and lead to what they led to before. -/
structure Follows {φ ψ : Type} [Flash φ] [Flash ψ] (g : φ → ψ) : Prop where
  program : ∀ a bs f, Flash.program a bs (g f) =
    ((Flash.program a bs f).1, g (Flash.program a bs f).2)
  erase : ∀ r f, Flash.erase r (g f) = ((Flash.erase r f).1, g (Flash.erase r f).2)

theorem Logged.follows {φ : Type} [Flash φ] : Follows (recorded (φ := φ)) := by
  constructor
  · intro a bs f
    refine Prod.ext rfl ?_
    unfold recorded
    rw [log_program, List.map_append]
    rfl
  · intro r f
    refine Prod.ext rfl ?_
    unfold recorded
    rw [log_erase, List.map_append]
    rfl

end Flash

namespace Updater

open Update Flash

section following
variable {φ ψ : Type} {g : φ → ψ}

/-- The updater with its device seen in another way. -/
def mapDevice (g : φ → ψ) (u : Updater φ) : Updater ψ :=
  { device := g u.device, region := u.region, granularity := u.granularity,
    updateSize := u.updateSize, written := u.written, erased := u.erased, phase := u.phase }

theorem sized_mapDevice {u : Updater φ} : (u.mapDevice g).Sized ↔ u.Sized :=
  ⟨fun h => ⟨h.1, h.2, h.3, h.4, h.5, h.6, h.7, h.8⟩,
    fun h => ⟨h.1, h.2, h.3, h.4, h.5, h.6, h.7, h.8⟩⟩

/-- One step does on a device what another does where the device is seen in another way. -/
def Alike (g : φ → ψ) (x : Step φ Unit) (y : Step ψ Unit) : Prop :=
  ∀ u, y (u.mapDevice g) = ((x u).1, (x u).2.mapDevice g)

theorem Alike.bind {x : Step φ Unit} {y : Step ψ Unit} {k : Unit → Step φ Unit}
    {l : Unit → Step ψ Unit} (hx : Alike g x y) (hk : Alike g (k ()) (l ())) :
    Alike g (x >>= k) (y >>= l) := by
  intro u
  rw [Steps.bind_apply, Steps.bind_apply, hx u]
  rcases x u with ⟨e | _, v⟩
  · rfl
  · exact hk v

variable [Flash φ] [Flash ψ]

omit [Flash φ] [Flash ψ] in
theorem alike_declare (n : Nat) : Alike g (declare n) (declare n) := by
  intro u
  unfold declare checkSize
  by_cases hp : u.phase = .idle
  · by_cases hn : n ≤ u.region.length.toNat
    · simp [mapDevice, hp, hn]
    · simp [mapDevice, hp, hn]
  · simp [mapDevice, hp]

theorem alike_eraseRegion (hg : Follows g) : Alike g eraseRegion eraseRegion := by
  intro u
  unfold eraseRegion
  change (if u.region.length = 0 then _ else _) = _
  by_cases hl : u.region.length = 0
  · rw [if_pos hl, if_pos hl]
    rfl
  · rw [if_neg hl, if_neg hl]
    simp only [mapDevice, hg.erase]
    rcases Flash.erase u.region u.device with ⟨e | _, f⟩ <;> rfl

theorem alike_eraseUpTo (hg : Follows g) (target : Nat) :
    Alike g (eraseUpTo target) (eraseUpTo target) := by
  intro u
  unfold eraseUpTo
  change (if target ≤ u.erased then _ else _) = _
  by_cases ht : target ≤ u.erased
  · rw [if_pos ht, if_pos ht]
  · rw [if_neg ht, if_neg ht]
    simp only [mapDevice, hg.erase]
    rcases Flash.erase _ u.device with ⟨e | _, f⟩ <;> rfl

theorem alike_programNext (hg : Follows g) (data : Bytes) :
    Alike g (programNext data) (programNext data) := by
  intro u
  unfold programNext
  simp only [mapDevice, hg.program]
  rcases Flash.program _ data u.device with ⟨e | n, f⟩
  · rfl
  · dsimp only
    split <;> rfl

theorem alike_write (hg : Follows g) (data : Bytes) : Alike g (write data) (write data) := by
  refine Alike.bind (fun u => ?_) (Alike.bind (fun u => ?_) fun u => ?_)
  · unfold requireWriting
    change (if u.phase = .writing then _ else _) = _
    split <;> rfl
  · unfold requireSpace
    change (if u.written + data.length ≤ u.updateSize then _ else _) = _
    split <;> rfl
  · exact (alike_eraseUpTo hg (u.written + data.length)).bind (alike_programNext hg data) u

/-- **An updater cannot tell devices apart that behave the same.** -/
theorem alike_call (hg : Follows g) (c : Call) : Alike g c.step c.step := by
  cases c with
  | applyOffset offset =>
    intro u
    change applyOffset offset _ = ((applyOffset offset u).1, (applyOffset offset u).2.mapDevice g)
    unfold applyOffset
    by_cases hc : u.phase = .idle ∧ offset.toNat % u.granularity = 0 ∧ offset ≤ u.region.length
    · simp [mapDevice, hc]
    · rw [if_neg hc]
      exact if_neg hc
  | prepare n => exact (alike_declare n).bind fun u => rfl
  | prepareErased n =>
    exact (alike_declare n).bind ((alike_eraseRegion hg).bind fun u => rfl)
  | write data => exact alike_write hg data
  | release => exact fun u => rfl

end following

section logged
variable {φ : Type}

/-! ### The log of an update -/

/-- A call that finds the updater idle begins a new log. -/
def fresh (u : Updater (Logged φ)) : Updater (Logged φ) :=
  if u.phase = .idle then { u with device := { u.device with log := [] } } else u

theorem fresh_of_open {u : Updater (Logged φ)} (hu : u.phase ≠ .idle) : u.fresh = u :=
  if_neg hu

theorem phase_fresh (u : Updater (Logged φ)) : u.fresh.phase = u.phase := by
  unfold fresh
  split <;> rfl

/-- What an entry of a log has to be like, given the entries before it: it lies in the region; an erase is
of whole units, at least one, and not below the write offset; a program touches only erased bytes. -/
structure Proper (region : Region) (granularity : Nat) (before : List Entry) (e : Entry) : Prop where
  inside : e.request.Inside region
  erase : ∀ r answer, e = .erase r answer → r.length ≠ 0 ∧ granularity ∣ r.length.toNat ∧
    granularity ∣ r.address.toNat ∧ region.address.toNat + progress before ≤ r.address.toNat
  program : ∀ a data answer, e = .program a data answer →
    ∀ b, a.toNat ≤ b → b < a.toNat + data.length → Erased before b

/-- Every entry of a log is proper, after those before it. -/
def AllProper (region : Region) (granularity : Nat) (log : List Entry) : Prop :=
  ∀ before e after, log = before ++ e :: after → Proper region granularity before e

theorem allProper_nil (region : Region) (granularity : Nat) : AllProper region granularity [] := by
  intro before e after h
  cases before <;> cases h

theorem AllProper.snoc {region : Region} {granularity : Nat} {log : List Entry} {e : Entry}
    (h : AllProper region granularity log) (he : Proper region granularity log e) :
    AllProper region granularity (log ++ [e]) := by
  intro before e' after heq
  rcases List.eq_nil_or_concat after with rfl | ⟨rest, last, rfl⟩
  · obtain ⟨rfl, hlast⟩ := List.append_inj' heq rfl
    cases hlast
    exact he
  · have hsplit : log ++ [e] = (before ++ e' :: rest) ++ [last] := by simpa using heq
    obtain ⟨hlog, -⟩ := List.append_inj' hsplit rfl
    exact h before e' rest hlog

/-- The counters of an updater agree with its log: what was written is what the log stands for, and lies
below what was erased, which the log covers. -/
structure Tracked (region : Region) (granularity : Nat) (u : Updater (Logged φ)) : Prop where
  sized : u.Sized
  inside : u.region.Inside region
  granularity_eq : u.granularity = granularity
  proper : AllProper u.region granularity u.device.log
  written_eq : u.phase ≠ .idle → u.written = progress u.device.log
  written_le : u.phase ≠ .idle → u.written ≤ u.erased
  covered : u.phase ≠ .idle → ∀ k < u.erased, Erased u.device.log (u.region.address.toNat + k)

variable {region : Region} {granularity : Nat} {u v : Updater (Logged φ)}

/-- An idle updater with an empty log is tracked. -/
theorem tracked_of_idle (hu : u.Sized) (hi : u.region.Inside region) (hg : u.granularity = granularity)
    (hp : u.phase = .idle) (hl : u.device.log = []) : u.Tracked region granularity :=
  ⟨hu, hi, hg, hl ▸ allProper_nil _ _, fun hn => absurd hp hn, fun hn => absurd hp hn,
    fun hn => absurd hp hn⟩

theorem Tracked.fresh (hu : u.Tracked region granularity) : u.fresh.Tracked region granularity := by
  unfold Updater.fresh
  by_cases hp : u.phase = .idle
  · rw [if_pos hp]
    exact tracked_of_idle (sized_idle hu.sized rfl rfl hp) hu.inside hu.granularity_eq hp rfl
  · rw [if_neg hp]
    exact hu

theorem log_fresh (hp : u.fresh.phase = .idle) : u.fresh.device.log = [] := by
  rw [phase_fresh] at hp
  rw [Updater.fresh, if_pos hp]

/-- One more entry: an open updater stays tracked if the entry is proper, the write offset moves by what
the entry counts, and what is newly taken to be erased is. -/
theorem Tracked.snoc {e : Entry} (hu : u.Tracked region granularity) (hp : u.phase ≠ .idle)
    (hs : v.Sized) (hr : v.region = u.region) (hg : v.granularity = u.granularity)
    (hlog : v.device.log = u.device.log ++ [e]) (he : Proper u.region granularity u.device.log e)
    (hw : v.written = u.written + e.count) (hle : v.written ≤ v.erased)
    (hc : ∀ k < v.erased, u.erased ≤ k → Erased v.device.log (u.region.address.toNat + k)) :
    v.Tracked region granularity := by
  refine ⟨hs, hr ▸ hu.inside, hg.trans hu.granularity_eq, ?_, fun _ => ?_, fun _ => hle,
    fun _ k hk => ?_⟩
  · rw [hr, hlog]
    exact hu.proper.snoc he
  · rw [hw, hlog, progress_snoc, hu.written_eq hp]
  · rw [hr]
    by_cases hold : k < u.erased
    · rw [hlog]
      exact (hu.covered hp k hold).mono
    · exact hc k hk (Nat.le_of_not_lt hold)

/-- What is known of a step from its requests alone: sizes stay in order, the region does not grow, and
the new entries lie in the region that there was. -/
theorem of_moves (h : Moves (u.mapDevice Logged.recorded) (v.mapDevice Logged.recorded)) :
    v.Sized ∧ v.region.Inside u.region ∧ ∀ new, v.device.log = u.device.log ++ new →
      ∀ e ∈ new, e.request.Inside u.region := by
  obtain ⟨hsized, hinside, asked, hasked, hin⟩ := h
  refine ⟨sized_mapDevice.1 hsized, hinside, fun new hnew e he => hin _ ?_⟩
  have hlog : (u.device.log ++ new).map Entry.request = u.device.log.map Entry.request ++ asked :=
    hnew ▸ hasked
  rw [List.map_append] at hlog
  rw [← List.append_cancel_left hlog]
  exact List.mem_map_of_mem he

variable {r : Except Update.Error Unit}

theorem Alike.eq {x : Step (Logged φ) Unit} {y : Step (Recorded φ) Unit}
    (hxy : Alike Logged.recorded x y) (h : x u = (r, v)) :
    y (u.mapDevice Logged.recorded) = (r, v.mapDevice Logged.recorded) := by
  rw [hxy u, h]

variable [Flash φ]

/-! ### Writing -/

/-- Erasing ahead keeps the updater tracked.  The write offset stays where it is, and no program is asked
for. -/
theorem eraseUpTo_tracked {target : Nat} (hu : u.Tracked region granularity) (hp : u.phase = .writing)
    (ht : target ≤ u.region.length.toNat) (h : eraseUpTo target u = (r, v)) :
    v.Tracked region granularity ∧ v.written = u.written ∧
      (r = .ok () → v.phase = .writing ∧ v.updateSize = u.updateSize ∧ target ≤ v.erased) ∧
      ∃ new, v.device.log = u.device.log ++ new ∧ ∀ a data answer, .program a data answer ∉ new := by
  have hn : u.phase ≠ .idle := by simp [hp]
  have hmoves := (eraseUpTo_moves (sized_mapDevice.2 hu.sized) hp ht
    ((alike_eraseUpTo Logged.follows target).eq h)).1
  obtain ⟨hsized, -, hin⟩ := of_moves hmoves
  unfold eraseUpTo at h
  by_cases hle : target ≤ u.erased
  · rw [if_pos hle] at h
    cases h
    exact ⟨hu, rfl, fun _ => ⟨hp, rfl, hle⟩, [], by simp, by simp⟩
  · rw [if_neg hle] at h
    obtain ⟨htarget, hgoal, hwhole⟩ := roundUp_spec hu.sized.granularity_pos hu.sized.whole ht
    dsimp only at h
    generalize roundUp target u.granularity = goal at h htarget hgoal hwhole
    have haddress := hu.sized.toNat_address_add (hu.sized.erased_le hn)
    have hlength : (UInt32.ofNat (goal - u.erased)).toNat = goal - u.erased :=
      UInt32.toNat_ofNat_of_lt' (Nat.lt_of_le_of_lt (Nat.le_trans (Nat.sub_le _ _) hgoal)
        u.region.length.toNat_lt)
    generalize hr : (⟨u.region.address + UInt32.ofNat u.erased, UInt32.ofNat (goal - u.erased)⟩ :
      Region) = erasing at h
    have hfirst : erasing.address.toNat = u.region.address.toNat + u.erased := hr ▸ haddress
    have hcount : erasing.length.toNat = goal - u.erased := hr ▸ hlength
    have hwritten := hu.written_le hn
    have hprogress := hu.written_eq hn
    -- whatever the answer is, the request is proper
    have hproper : ∀ answer, v.device.log = u.device.log ++ [.erase erasing answer] →
        Proper u.region granularity u.device.log (.erase erasing answer) := by
      intro answer hlog
      refine ⟨hin _ hlog _ (List.mem_singleton_self _), ?_, nofun⟩
      rintro r' answer' heq
      cases heq
      rw [← hu.granularity_eq]
      refine ⟨fun hzero => ?_, ?_, ?_, ?_⟩
      · have : erasing.length.toNat = 0 := by rw [hzero]; rfl
        omega
      · rw [hcount]
        exact Nat.dvd_sub hwhole (hu.sized.erased_whole hn)
      · rw [hfirst]
        exact Nat.dvd_add hu.sized.aligned (hu.sized.erased_whole hn)
      · omega
    have hlog := Logged.log_erase u.device erasing
    rcases he : Flash.erase erasing u.device with ⟨e | _, f⟩
    · rw [he] at h hlog
      cases h
      have hlog' : f.log = u.device.log ++ [.erase erasing (.error e)] := hlog
      refine ⟨hu.snoc hn hsized rfl rfl hlog' (hproper _ hlog') rfl hwritten ?_, rfl, nofun, _, hlog',
        by simp⟩
      intro k hk hold
      exact absurd hk (Nat.not_lt_of_le hold)
    · rw [he] at h hlog
      cases h
      have hlog' : f.log = u.device.log ++ [.erase erasing (.ok ())] := hlog
      refine ⟨hu.snoc hn hsized rfl rfl hlog' (hproper _ hlog') rfl ?_ ?_, rfl,
        fun _ => ⟨hp, rfl, htarget⟩, _, hlog', by simp⟩
      · simp only
        omega
      · intro k hk hold
        simp only at hk
        refine ⟨erasing, by simp [hlog'], ?_⟩
        rw [Region.mem_def, Region.limit]
        omega

/-- What a write of `data` does to the write offset: where a program succeeds, it is this one, and the
offset rises by the count that is reported, but at most by all of `data`, which is what the write has to
reach; otherwise it stays and the write fails. -/
structure Writes (data : Bytes) (u : Updater (Logged φ)) (r : Except Update.Error Unit)
    (v : Updater (Logged φ)) (new : List Entry) : Prop where
  log_eq : v.device.log = u.device.log ++ new
  programmed : ∀ a bs n, .program a bs (.ok n) ∈ new → bs = data ∧
    v.written = u.written + min n data.length ∧ (r = .ok () ↔ min n data.length = data.length)
  otherwise : (∀ a bs n, .program a bs (.ok n) ∉ new) → v.written = u.written ∧ r ≠ .ok ()

/-- Programming keeps the updater tracked, where what is programmed was erased. -/
theorem programNext_tracked {data : Bytes} (hu : u.Tracked region granularity) (hp : u.phase = .writing)
    (hd : u.written + data.length ≤ u.updateSize) (he : u.written + data.length ≤ u.erased)
    (h : programNext data u = (r, v)) :
    v.Tracked region granularity ∧ ∃ new, Writes data u r v new := by
  have hn : u.phase ≠ .idle := by simp [hp]
  have hmoves := programNext_moves (sized_mapDevice.2 hu.sized) hp hd
    ((alike_programNext Logged.follows data).eq h)
  obtain ⟨hsized, -, hin⟩ := of_moves hmoves
  unfold programNext at h
  have hroom := hu.sized.erased_le hn
  have haddress := hu.sized.toNat_address_add (k := u.written) (by omega)
  generalize u.region.address + UInt32.ofNat u.written = address at h haddress
  -- whatever the answer is, the request is proper
  have hproper : ∀ answer, v.device.log = u.device.log ++ [.program address data answer] →
      Proper u.region granularity u.device.log (.program address data answer) := by
    intro answer hlog
    refine ⟨hin _ hlog _ (List.mem_singleton_self _), nofun, ?_⟩
    rintro a bs answer' heq b hle hlt
    cases heq
    have hcovered := hu.covered hn (b - u.region.address.toNat) (by omega)
    rwa [Nat.add_sub_cancel' (by omega)] at hcovered
  have hlog := Logged.log_program u.device address data
  rcases hf : Flash.program address data u.device with ⟨e | n, f⟩
  · rw [hf] at h hlog
    cases h
    have hlog' : f.log = u.device.log ++ [.program address data (.error e)] := hlog
    refine ⟨hu.snoc hn hsized rfl rfl hlog' (hproper _ hlog') rfl (hu.written_le hn) ?_, _, hlog',
      by simp, fun _ => ⟨rfl, nofun⟩⟩
    intro k hk hold
    exact absurd hk (Nat.not_lt_of_le hold)
  · rw [hf] at h hlog
    have hlog' : f.log = u.device.log ++ [.program address data (.ok n)] := hlog
    have hle : min n data.length ≤ data.length := Nat.min_le_right _ _
    have hv : v.device.log = f.log ∧ v.region = u.region ∧ v.granularity = u.granularity ∧
        v.written = u.written + min n data.length ∧ v.erased = u.erased ∧
        (r = .ok () ↔ min n data.length = data.length) := by
      dsimp only at h
      split at h
      · cases h
        refine ⟨rfl, rfl, rfl, rfl, rfl, nofun, fun heq => ?_⟩
        omega
      · cases h
        exact ⟨rfl, rfl, rfl, rfl, rfl, fun _ => by omega, fun _ => rfl⟩
    obtain ⟨hlogv, hregion, hgranularity, hwritten, herased, hr⟩ := hv
    rw [← hlogv] at hlog'
    refine ⟨hu.snoc hn hsized hregion hgranularity hlog' (hproper _ hlog') hwritten ?_ ?_, _, hlog', ?_,
      fun hnone => absurd (List.mem_singleton_self _) (hnone _ _ _)⟩
    · omega
    · intro k hk hold
      omega
    · intro a bs m hm
      cases List.mem_singleton.1 hm
      exact ⟨rfl, hwritten, hr⟩

/-- **A write.** -/
theorem write_tracked {data : Bytes} (hu : u.Tracked region granularity) (h : write data u = (r, v)) :
    v.Tracked region granularity ∧ ∃ new, Writes data u r v new := by
  have hsame : ∀ {w : Updater (Logged φ)} {e : Update.Error}, w.device.log = u.device.log →
      w.written = u.written → Writes data u (.error e) w [] := by
    intro w e hlog hwritten
    exact ⟨by rw [hlog, List.append_nil], by simp, fun _ => ⟨hwritten, nofun⟩⟩
  unfold write at h
  rw [Steps.bind_apply, requireWriting] at h
  by_cases hp : u.phase = .writing
  · have hn : u.phase ≠ .idle := by simp [hp]
    rw [if_pos hp] at h
    simp only [Steps.bind_apply] at h
    unfold requireSpace at h
    by_cases hd : u.written + data.length ≤ u.updateSize
    · rw [if_pos hd] at h
      simp only [Steps.get_apply] at h
      have hsize := hu.sized.updateSize_le hn
      rcases he : eraseUpTo (u.written + data.length) u with ⟨e | _, t⟩
      · rw [he] at h
        cases h
        obtain ⟨ht, hwritten, -, new, hlog, hnone⟩ := eraseUpTo_tracked hu hp (by omega) he
        exact ⟨ht, new, hlog, fun a bs n hm => absurd hm (hnone _ _ _), fun _ => ⟨hwritten, nofun⟩⟩
      · obtain ⟨ht, hwritten, hok, new, hlog, hnone⟩ := eraseUpTo_tracked hu hp (by omega) he
        obtain ⟨hp', hs', herased⟩ := hok rfl
        rw [he] at h
        obtain ⟨hv, more, hmore, hprogrammed, hotherwise⟩ :=
          programNext_tracked ht hp' (by omega) (by omega) h
        rw [hwritten] at hprogrammed hotherwise
        refine ⟨hv, new ++ more, by rw [hmore, hlog, List.append_assoc], fun a bs n hm => ?_,
          fun hno => hotherwise fun a bs n hm => hno a bs n (List.mem_append_right _ hm)⟩
        rcases List.mem_append.1 hm with hm | hm
        · exact absurd hm (hnone _ _ _)
        · exact hprogrammed a bs n hm
    · rw [if_neg hd] at h
      cases h
      have hs : Sized { u with phase := .poisoned } := sized_poisoned hu.sized hn u.device
      exact ⟨⟨hs, hu.inside, hu.granularity_eq, hu.proper, fun _ => hu.written_eq hn,
        fun _ => hu.written_le hn, fun _ => hu.covered hn⟩, [], hsame rfl rfl⟩
  · rw [if_neg hp] at h
    cases h
    exact ⟨hu, [], hsame rfl rfl⟩

/-! ### Preparing -/

theorem prepare_tracked {n : Nat} (hu : u.Tracked region granularity)
    (hl : u.phase = .idle → u.device.log = []) (h : prepare n u = (r, v)) :
    v.Tracked region granularity := by
  have hmoves := call_moves (.prepare n) (sized_mapDevice.2 hu.sized)
    ((alike_call Logged.follows (.prepare n)).eq h)
  obtain ⟨hsized, -, -⟩ := of_moves hmoves
  unfold prepare at h
  rw [Steps.bind_apply] at h
  rcases hd : declare n u with ⟨answer, t⟩
  rw [hd] at h
  rcases declare_cases hd with ⟨rfl, hp, rfl⟩ | ⟨⟨e, rfl⟩, rfl⟩
  · cases h
    have hlog : u.device.log = [] := hl hp
    refine ⟨hsized, hu.inside, hu.granularity_eq, hu.proper, fun _ => ?_, fun _ => Nat.le_refl 0,
      fun _ k hk => absurd hk (Nat.not_lt_zero k)⟩
    change 0 = progress u.device.log
    rw [hlog]
    rfl
  · cases h
    exact hu

omit [Flash φ] in
/-- The request to erase the whole region is proper at the start of a log. -/
theorem proper_eraseRegion (hu : u.Sized) (hl : u.region.length ≠ 0) (answer : Except Flash.Error Unit) :
    AllProper u.region u.granularity [.erase u.region answer] := by
  have hproper : Proper u.region u.granularity [] (.erase u.region answer) := by
    refine ⟨Region.Inside.refl _, ?_, nofun⟩
    rintro r' answer' heq
    cases heq
    exact ⟨hl, hu.whole, hu.aligned, Nat.le_refl _⟩
  exact (allProper_nil _ _).snoc hproper

theorem prepareErased_tracked {n : Nat} (hu : u.Tracked region granularity)
    (hl : u.phase = .idle → u.device.log = []) (h : prepareErased n u = (r, v)) :
    v.Tracked region granularity := by
  have hmoves := call_moves (.prepareErased n) (sized_mapDevice.2 hu.sized)
    ((alike_call Logged.follows (.prepareErased n)).eq h)
  obtain ⟨hsized, -, -⟩ := of_moves hmoves
  unfold prepareErased at h
  rw [Steps.bind_apply] at h
  rcases hd : declare n u with ⟨answer, t⟩
  rw [hd] at h
  rcases declare_cases hd with ⟨rfl, hp, rfl⟩ | ⟨⟨e, rfl⟩, rfl⟩
  · have hlog : u.device.log = [] := hl hp
    have herase := Logged.log_erase u.device u.region
    rw [hlog, List.nil_append] at herase
    simp only [Steps.bind_apply, eraseRegion] at h
    by_cases hzero : u.region.length = 0
    · rw [if_pos hzero] at h
      cases h
      refine ⟨hsized, hu.inside, hu.granularity_eq, hu.proper, fun _ => ?_, fun _ => Nat.le_refl 0,
        fun _ k hk => absurd hk (Nat.not_lt_zero k)⟩
      change 0 = progress u.device.log
      rw [hlog]
      rfl
    · rw [if_neg hzero] at h
      have hproper := proper_eraseRegion hu.sized hzero
      rw [hu.granularity_eq] at hproper
      rcases he : Flash.erase u.region u.device with ⟨e | _, f⟩
      · rw [he] at h herase
        cases h
        have hlog' : f.log = [.erase u.region (.error e)] := herase
        exact ⟨hsized, hu.inside, hu.granularity_eq, hlog' ▸ hproper _, fun hn => absurd hp hn,
          fun hn => absurd hp hn, fun hn => absurd hp hn⟩
      · rw [he] at h herase
        cases h
        have hlog' : f.log = [.erase u.region (.ok ())] := herase
        refine ⟨hsized, hu.inside, hu.granularity_eq, hlog' ▸ hproper _, fun _ => ?_,
          fun _ => Nat.zero_le _, fun _ k hk => ?_⟩
        · change 0 = progress f.log
          rw [hlog']
          rfl
        · refine ⟨u.region, ?_, ?_⟩
          · change _ ∈ f.log
            rw [hlog']
            exact List.mem_singleton_self _
          · rw [Region.mem_def, Region.limit]
            exact ⟨Nat.le_add_right _ _, Nat.add_lt_add_left hk _⟩
  · cases h
    exact hu

/-! ### Runs -/

/-- **Every call keeps an updater tracked**, if the log of an idle one is empty. -/
theorem call_tracked (c : Call) (hu : u.Tracked region granularity)
    (hl : u.phase = .idle → u.device.log = []) (h : c.step u = (r, v)) :
    v.Tracked region granularity := by
  cases c with
  | applyOffset offset =>
    have hmoves := call_moves (.applyOffset offset) (sized_mapDevice.2 hu.sized)
      ((alike_call Logged.follows (.applyOffset offset)).eq h)
    obtain ⟨hsized, hinside, -⟩ := of_moves hmoves
    change applyOffset offset u = (r, v) at h
    unfold applyOffset at h
    by_cases hc : u.phase = .idle ∧ offset.toNat % u.granularity = 0 ∧ offset ≤ u.region.length
    · rw [if_pos hc] at h
      cases h
      exact tracked_of_idle hsized (hinside.trans hu.inside) hu.granularity_eq hc.1 (hl hc.1)
    · rw [if_neg hc] at h
      cases h
      exact hu
  | prepare n => exact prepare_tracked hu hl h
  | prepareErased n => exact prepareErased_tracked hu hl h
  | write data => exact (write_tracked hu h).1
  | release =>
    cases h
    exact ⟨sized_idle hu.sized rfl rfl rfl, hu.inside, hu.granularity_eq, hu.proper,
      fun hn => absurd rfl hn, fun hn => absurd rfl hn, fun hn => absurd rfl hn⟩

/-- Calls one after another, each with a new log if it finds the updater idle. -/
def session (u : Updater (Logged φ)) (cs : List Call) : Updater (Logged φ) :=
  cs.foldl (fun u c => (c.step u.fresh).2) u

theorem session_snoc (u : Updater (Logged φ)) (cs : List Call) (c : Call) :
    u.session (cs ++ [c]) = (c.step (u.session cs).fresh).2 := by
  simp [session]

theorem session_tracked (cs : List Call) (hu : u.Tracked region granularity) :
    (u.session cs).Tracked region granularity := by
  induction cs generalizing u with
  | nil => exact hu
  | cons c cs ih => exact ih (call_tracked c hu.fresh log_fresh rfl)

theorem start_tracked {f : φ} {region : Region} {unit : EraseUnit} {u : Updater (Logged φ)}
    (h : start ⟨f, []⟩ region unit = .ok u) : u.Tracked region (unit.sizeOn f) := by
  obtain ⟨hsized, hregion, hdevice⟩ := sized_start h
  obtain ⟨-, -, rfl⟩ := Steps.map_eq_ok.1 h
  exact tracked_of_idle hsized (hregion ▸ Region.Inside.refl _) rfl rfl rfl

/-! ### The update that is open -/

/-- After the calls before it, a call prepares an update of `n` bytes. -/
def Prepares (u : Updater (Logged φ)) (before : List Call) (c : Call) (n : Nat) : Prop :=
  c.declared? = some n ∧ (c.step (u.session before).fresh).1 = .ok ()

/-- The last of the calls that prepare an update prepares one of `n` bytes. -/
def LastPrepares (u : Updater (Logged φ)) (cs : List Call) (n : Nat) : Prop :=
  ∃ before c later, cs = before ++ c :: later ∧ u.Prepares before c n ∧
    ∀ between d rest m, later = between ++ d :: rest → ¬u.Prepares (before ++ c :: between) d m

theorem LastPrepares.snoc {u : Updater (Logged φ)} {cs : List Call} {d : Call} {n : Nat}
    (h : u.LastPrepares cs n) (hd : ∀ m, ¬u.Prepares cs d m) : u.LastPrepares (cs ++ [d]) n := by
  obtain ⟨before, c, later, rfl, hc, hlater⟩ := h
  refine ⟨before, c, later ++ [d], by simp, hc, fun between e rest m heq => ?_⟩
  rcases List.eq_nil_or_concat rest with rfl | ⟨rest, x, rfl⟩
  · obtain ⟨rfl, hx⟩ := List.append_inj' heq rfl
    cases hx
    exact hd m
  · have heq' : later ++ [d] = between ++ e :: rest ++ [x] := by simpa using heq
    exact hlater between e rest m (List.append_inj' heq' rfl).1

/-- What an open updater has declared is what the last call that prepared an update declared. -/
theorem lastPrepares_session {u : Updater (Logged φ)} (hu : u.phase = .idle) (cs : List Call)
    (hopen : (u.session cs).phase ≠ .idle) : u.LastPrepares cs (u.session cs).updateSize := by
  induction cs using List.reverseRecOn with
  | nil => exact absurd hu hopen
  | append_singleton cs c ih =>
    rw [session_snoc] at hopen ⊢
    rcases open_of_call (Prod.eta (c.step (u.session cs).fresh)).symm hopen with
      ⟨-, hr, hsize⟩ | ⟨hfresh, hsize, hr⟩
    · exact ⟨cs, c, [], rfl, ⟨hsize, hr⟩, fun between d rest m heq => by simp at heq⟩
    · have hwas : (u.session cs).phase ≠ .idle := phase_fresh (u.session cs) ▸ hfresh
      rw [hsize, fresh_of_open hwas]
      refine (ih hwas).snoc fun m hc => ?_
      have hnone := hr hc.2
      rw [hc.1] at hnone
      cases hnone

/-- **An update is disciplined, whatever its device answers.**  After any calls the region of the updater
lies in the one that it was started with; what the update asked for is proper entry by entry; an open
update accounts for its declared size, which is that of the last call that prepared an update and fits the
region; and the next write moves the write offset by what its program counts. -/
theorem session_disciplined {f : φ} {region : Region} {unit : EraseUnit} {u₀ : Updater (Logged φ)}
    (h : start ⟨f, []⟩ region unit = .ok u₀) (cs : List Call) :
    let u := u₀.session cs
    u.region.Inside region ∧
    AllProper u.region (unit.sizeOn f) u.device.log ∧
    (u.phase ≠ .idle → u.written = progress u.device.log ∧ u.written + u.remaining = u.updateSize ∧
      u.updateSize ≤ u.region.length.toNat ∧ u₀.LastPrepares cs u.updateSize) ∧
    ∀ data, ∃ new, Writes data u.fresh (write data u.fresh).1 (write data u.fresh).2 new := by
  intro u
  have hu : u.Tracked region (unit.sizeOn f) := session_tracked cs (start_tracked h)
  have hidle : u₀.phase = .idle := by
    obtain ⟨-, -, rfl⟩ := Steps.map_eq_ok.1 h
    rfl
  refine ⟨hu.inside, hu.proper, fun hn => ⟨hu.written_eq hn, ?_, hu.sized.updateSize_le hn,
    lastPrepares_session hidle cs hn⟩, fun data => (write_tracked hu.fresh rfl).2⟩
  exact Nat.add_sub_cancel' (hu.sized.written_le hn)

end logged

end Updater

/-! ### A run -/

namespace Flash

/-- A device without memory, which answers erases and programs from a list and fails after its end. -/
structure Scripted where
  answers : List (Except Error Nat)

namespace Scripted

def answer : ExceptT Error (StateM Scripted) Nat := fun f =>
  (f.answers.headD (.error .unspecified), ⟨f.answers.tail⟩)

instance : Flash Scripted where
  size _ := .ok 64
  sectorSize _ := 8
  blockSize _ := 16
  read _ _ _ := .error .unspecified
  length_read := nofun
  program _ _ := answer
  erase _ := discard answer
  flush f := (.ok (), f)

end Scripted

end Flash

namespace Updater

open Update Flash

/-- The first sector is erased, three bytes are programmed, and of the next three only one. -/
def shortDevice : Scripted := ⟨[.ok 0, .ok 3, .ok 1]⟩

def shortCalls : List Call := [.prepare 12, .write [1, 2, 3], .write [4, 5, 6]]

/-- What the device left out is still to be written, though not by this update. -/
theorem shortCalls_disciplined : ∃ u₀, start ⟨shortDevice, []⟩ ⟨16, 16⟩ .sector = .ok u₀ ∧
    let u := u₀.session shortCalls
    (u.phase = .poisoned ∧ u.written = 4 ∧ u.remaining = 8 ∧
      u.device.log.map Entry.request =
        [.erase ⟨16, 8⟩, .program 16 3 [1, 2, 3], .program 19 3 [4, 5, 6]]) ∧
    u.region.Inside ⟨16, 16⟩ ∧
    AllProper u.region 8 u.device.log ∧
    (u.phase ≠ .idle → u.written = progress u.device.log ∧ u.written + u.remaining = u.updateSize ∧
      u.updateSize ≤ u.region.length.toNat ∧ u₀.LastPrepares shortCalls u.updateSize) ∧
    ∀ data, ∃ new, Writes data u.fresh (write data u.fresh).1 (write data u.fresh).2 new := by
  have hrun : (match start (⟨shortDevice, []⟩ : Logged Scripted) ⟨16, 16⟩ .sector with
      | .ok u₀ =>
        let u := u₀.session shortCalls
        decide (u.phase = .poisoned ∧ u.written = 4 ∧ u.remaining = 8 ∧
          u.device.log.map Entry.request =
            [.erase ⟨16, 8⟩, .program 16 3 [1, 2, 3], .program 19 3 [4, 5, 6]])
      | .error _ => false) = true := by decide +kernel
  rcases hs : start (⟨shortDevice, []⟩ : Logged Scripted) ⟨16, 16⟩ .sector with e | u₀
  · rw [hs] at hrun
    cases hrun
  · rw [hs] at hrun
    exact ⟨u₀, rfl, of_decide_eq_true hrun, session_disciplined hs shortCalls⟩

end Updater

end PlatformGuard
