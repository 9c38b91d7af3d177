import PlatformGuard.Flash.Faulty
import PlatformGuard.Proofs.Regions
import PlatformGuard.Proofs.Steps
import PlatformGuard.Update
import Mathlib.Data.List.Basic

/-!
# What an updater asks of its device

A recorded device keeps every request to program or to erase.  However an updater is used, and whatever
its device answers, what it asks for lies in its region, and the region never grows.  The invariant
that carries this is `Updater.Sized`: the region consists of whole units, and while an update is open
the declared size fits it and what was erased are whole units too.
-/

namespace PlatformGuard

/-! ### Recorded devices -/

namespace Flash

/-- The bytes of a request lie inside a region. -/
def Request.Inside : Request → Region → Prop
  | program address given _, s => s.address.toNat ≤ address.toNat ∧ address.toNat + given ≤ s.limit
  | erase r, s => r.Inside s

theorem Request.Inside.trans {q : Request} {r s : Region} (hq : q.Inside r) (hr : r.Inside s) :
    q.Inside s := by
  cases q with
  | program address given taken => exact ⟨Nat.le_trans hr.1 hq.1, Nat.le_trans hq.2 hr.2⟩
  | erase p => exact Region.Inside.trans hq hr

/-- A device, and what it was asked to change, first request first. -/
structure Recorded (φ : Type) where
  device : φ
  requests : List Request := []

namespace Recorded

variable {φ : Type}

/-- Notes a request and runs a step of the device. -/
def note {α : Type} (q : Request) (step : ExceptT Error (StateM φ) α) :
    ExceptT Error (StateM (Recorded φ)) α := fun f =>
  let (r, d) := step f.device
  (r, ⟨d, f.requests ++ [q]⟩)

instance [Flash φ] : Flash (Recorded φ) where
  size f := Flash.size f.device
  sectorSize f := Flash.sectorSize f.device
  blockSize f := Flash.blockSize f.device
  read f := Flash.read f.device
  length_read := Flash.length_read
  program a bs := note (.program a bs.length bs) (Flash.program a bs)
  erase r := note (.erase r) (Flash.erase r)
  flush := fun f =>
    let (r, d) := Flash.flush f.device
    (r, { f with device := d })

variable [Flash φ]

theorem requests_program (f : Recorded φ) (a : UInt32) (bs : Bytes) :
    (Flash.program a bs f).2.requests = f.requests ++ [.program a bs.length bs] := rfl

theorem requests_erase (f : Recorded φ) (r : Region) :
    (Flash.erase r f).2.requests = f.requests ++ [.erase r] := rfl

end Recorded

/-- From `f` to `g`, everything that was asked for lies inside a region. -/
def Asks {φ : Type} (f g : Recorded φ) (s : Region) : Prop :=
  ∃ new, g.requests = f.requests ++ new ∧ ∀ q ∈ new, q.Inside s

section asks
variable {φ : Type} {f g h : Recorded φ} {r s : Region}

theorem asks_of_eq (hfg : g.requests = f.requests) (s : Region) : Asks f g s :=
  ⟨[], by rw [hfg, List.append_nil], by simp⟩

theorem asks_one {q : Request} (hfg : g.requests = f.requests ++ [q]) (hq : q.Inside s) :
    Asks f g s := ⟨[q], hfg, by simpa using hq⟩

theorem Asks.trans (hf : Asks f g s) (hg : Asks g h s) : Asks f h s := by
  obtain ⟨new, hn, hi⟩ := hf
  obtain ⟨more, hm, hj⟩ := hg
  refine ⟨new ++ more, by rw [hm, hn, List.append_assoc], fun q hq => ?_⟩
  rcases List.mem_append.1 hq with hq | hq
  · exact hi q hq
  · exact hj q hq

theorem Asks.mono (hf : Asks f g r) (hr : r.Inside s) : Asks f g s := by
  obtain ⟨new, hn, hi⟩ := hf
  exact ⟨new, hn, fun q hq => (hi q hq).trans hr⟩

end asks

end Flash

namespace Updater

open Update Flash

/-! ### Calls -/

/-- The calls of an updater that may change it. -/
inductive Call where
  | applyOffset (offset : UInt32)
  | prepare (n : Nat)
  | prepareErased (n : Nat)
  | write (data : Bytes)
  | release

variable {φ : Type}

def Call.step [Flash φ] : Call → Step φ Unit
  | applyOffset offset => Updater.applyOffset offset
  | prepare n => Updater.prepare n
  | prepareErased n => Updater.prepareErased n
  | write data => Updater.write data
  | release => fun u => (.ok (), u.release)

/-- Declaring an update sets the counters of an idle updater, or does nothing. -/
theorem declare_cases {u v : Updater φ} {r : Except Update.Error Unit} {n : Nat}
    (h : declare n u = (r, v)) :
    (r = .ok () ∧ u.phase = .idle ∧ v = { u with updateSize := n, written := 0, erased := 0 }) ∨
      ((∃ e, r = .error e) ∧ v = u) := by
  unfold declare at h
  by_cases hp : u.phase = .idle
  · rw [if_pos hp] at h
    unfold checkSize at h
    by_cases hn : n ≤ u.region.length.toNat
    · rw [if_pos hn] at h
      cases h
      exact .inl ⟨rfl, hp, rfl⟩
    · rw [if_neg hn] at h
      cases h
      exact .inr ⟨⟨_, rfl⟩, rfl⟩
  · rw [if_neg hp] at h
    cases h
    exact .inr ⟨⟨_, rfl⟩, rfl⟩

/-! ### The invariant -/

/-- The region of an updater consists of whole units; and while an update is open, its declared size fits
the region, what was written fits the declared size, and what was erased are whole units. -/
structure Sized (u : Updater φ) : Prop where
  granularity_pos : 0 < u.granularity
  aligned : u.granularity ∣ u.region.address.toNat
  whole : u.granularity ∣ u.region.length.toNat
  limit_lt : u.region.limit < addressLimit
  updateSize_le : u.phase ≠ .idle → u.updateSize ≤ u.region.length.toNat
  written_le : u.phase ≠ .idle → u.written ≤ u.updateSize
  erased_le : u.phase ≠ .idle → u.erased ≤ u.region.length.toNat
  erased_whole : u.phase ≠ .idle → u.granularity ∣ u.erased

/-- An updater that starts is sized. -/
theorem sized_start [Flash φ] {f : φ} {region : Region} {unit : EraseUnit} {u : Updater φ}
    (h : start f region unit = .ok u) : u.Sized ∧ u.region = region ∧ u.device = f := by
  obtain ⟨_, hc, rfl⟩ := Steps.map_eq_ok.1 h
  unfold checkRegion at hc
  split at hc
  · cases hc
  · rename_i hn
    simp only [not_or, not_not] at hn
    obtain ⟨hg, ha, hl, hlim⟩ := hn
    refine ⟨⟨Nat.pos_of_ne_zero hg, Nat.dvd_of_mod_eq_zero ha, Nat.dvd_of_mod_eq_zero hl, hlim,
      ?_, ?_, ?_, ?_⟩, rfl, rfl⟩ <;> exact fun hp => absurd rfl hp

/-- What a call does to an updater: it stays sized, its region does not grow, and what was asked for lies
in the region that it had. -/
structure Moves (u v : Updater (Recorded φ)) : Prop where
  sized : v.Sized
  inside : v.region.Inside u.region
  asks : Asks u.device v.device u.region

theorem Moves.trans {u v w : Updater (Recorded φ)} (h : Moves u v) (k : Moves v w) : Moves u w :=
  ⟨k.sized, k.inside.trans h.inside, h.asks.trans (k.asks.mono h.inside)⟩

/-- A step that leaves region and device alone. -/
theorem moves_of_eq {u v : Updater (Recorded φ)} (hv : v.Sized) (hr : v.region = u.region)
    (hd : v.device = u.device) : Moves u v :=
  ⟨hv, hr ▸ Region.Inside.refl _, asks_of_eq (congrArg Recorded.requests hd) _⟩

theorem Sized.moves {u : Updater (Recorded φ)} (hu : u.Sized) : Moves u u := moves_of_eq hu rfl rfl

/-- Poisoning keeps the sizes, whatever became of the device. -/
theorem sized_poisoned {u : Updater φ} (hu : u.Sized) (hp : u.phase ≠ .idle) (f : φ) :
    Sized { u with device := f, phase := .poisoned } :=
  ⟨hu.granularity_pos, hu.aligned, hu.whole, hu.limit_lt, fun _ => hu.updateSize_le hp,
    fun _ => hu.written_le hp, fun _ => hu.erased_le hp, fun _ => hu.erased_whole hp⟩

/-- An idle updater may have any sizes. -/
theorem sized_idle {u v : Updater φ} (hu : u.Sized) (hr : v.region = u.region)
    (hg : v.granularity = u.granularity) (hp : v.phase = .idle) : v.Sized := by
  refine ⟨?_, ?_, ?_, ?_, ?_, ?_, ?_, ?_⟩
  · rw [hg]; exact hu.granularity_pos
  · rw [hg, hr]; exact hu.aligned
  · rw [hg, hr]; exact hu.whole
  · rw [hr]; exact hu.limit_lt
  all_goals exact fun hn => absurd hp hn

/-- An updater that was declared may be opened. -/
theorem sized_opened {u : Updater φ} (hu : u.Sized) (hs : u.updateSize ≤ u.region.length.toNat)
    (hw : u.written ≤ u.updateSize) (he : u.erased ≤ u.region.length.toNat)
    (hg : u.granularity ∣ u.erased) : Sized { u with phase := .writing } :=
  ⟨hu.granularity_pos, hu.aligned, hu.whole, hu.limit_lt, fun _ => hs, fun _ => hw, fun _ => he,
    fun _ => hg⟩

/-- Addresses inside the region do not wrap around. -/
theorem Sized.toNat_address_add {u : Updater φ} (hu : u.Sized) {k : Nat}
    (hk : k ≤ u.region.length.toNat) :
    (u.region.address + UInt32.ofNat k).toNat = u.region.address.toNat + k := by
  have hlim := hu.limit_lt
  unfold Region.limit at hlim
  exact toNat_add_ofNat (by omega)

/-! ### Steps -/

variable {u v : Updater (Recorded φ)} {r : Except Update.Error Unit}

theorem applyOffset_moves {offset : UInt32} (hu : u.Sized) (h : applyOffset offset u = (r, v)) :
    Moves u v := by
  unfold applyOffset at h
  split at h
  · rename_i hc
    obtain ⟨hp, ho, hle⟩ := hc
    cases h
    have hle' : offset.toNat ≤ u.region.length.toNat := UInt32.le_iff_toNat_le.1 hle
    have hlim := hu.limit_lt
    unfold Region.limit addressLimit at hlim
    have ha : (u.region.address + offset).toNat = u.region.address.toNat + offset.toNat := by
      rw [UInt32.toNat_add]
      omega
    have hl : (u.region.length - offset).toNat = u.region.length.toNat - offset.toNat :=
      UInt32.toNat_sub_of_le _ _ hle
    have hd : u.granularity ∣ offset.toNat := Nat.dvd_of_mod_eq_zero ho
    refine ⟨⟨hu.granularity_pos, ?_, ?_, ?_, ?_, ?_, ?_, ?_⟩, ⟨?_, ?_⟩, asks_of_eq rfl _⟩
    · simp only [ha]
      exact Nat.dvd_add hu.aligned hd
    · simp only [hl]
      exact Nat.dvd_sub hu.whole hd
    · simp only [Region.limit, addressLimit, ha, hl]
      omega
    iterate 4 exact fun hn => absurd hp hn
    · simp only [ha]
      omega
    · simp only [Region.limit, ha, hl]
      omega
  · cases h
    exact hu.moves

theorem declare_moves {n : Nat} (hu : u.Sized) (h : declare n u = (r, v)) :
    Moves u v ∧ (r = .ok () → v.phase = .idle ∧ v.region = u.region ∧
      v.updateSize ≤ v.region.length.toNat ∧ v.written = 0 ∧ v.erased = 0) := by
  unfold declare at h
  split at h
  · rename_i hp
    unfold checkSize at h
    by_cases hn : n ≤ u.region.length.toNat
    · rw [if_pos hn] at h
      cases h
      exact ⟨moves_of_eq (sized_idle hu rfl rfl hp) rfl rfl, fun _ => ⟨hp, rfl, hn, rfl, rfl⟩⟩
    · rw [if_neg hn] at h
      cases h
      exact ⟨hu.moves, by simp⟩
  · cases h
    exact ⟨hu.moves, by simp⟩

theorem prepare_moves {n : Nat} (hu : u.Sized) (h : prepare n u = (r, v)) : Moves u v := by
  unfold prepare at h
  rw [Steps.bind_apply] at h
  rcases hd : declare n u with ⟨e | _, t⟩
  · rw [hd] at h
    cases h
    exact (declare_moves hu hd).1
  · rw [hd] at h
    cases h
    obtain ⟨hm, ht⟩ := declare_moves hu hd
    obtain ⟨-, -, hsize, hw, he⟩ := ht rfl
    have ho := sized_opened hm.sized hsize (by omega) (by omega) (by simp [he])
    exact hm.trans (moves_of_eq ho rfl rfl)

variable [Flash φ]

/-- Erasing the whole region asks for the region, if it is not empty. -/
theorem eraseRegion_moves (hu : u.Sized) (hp : u.phase = .idle) (h : eraseRegion u = (r, v)) :
    Moves u v ∧ v.region = u.region ∧ v.updateSize = u.updateSize ∧ v.written = u.written ∧
      (r = .ok () → v.erased = u.region.length.toNat) := by
  unfold eraseRegion at h
  split at h
  · rename_i hl
    cases h
    refine ⟨moves_of_eq (sized_idle hu rfl rfl hp) rfl rfl, rfl, rfl, rfl, fun _ => ?_⟩
    simp only [hl]
    rfl
  · have hasks : Asks u.device (Flash.erase u.region u.device).2 u.region :=
      asks_one (Recorded.requests_erase _ _) (Region.Inside.refl _)
    rcases he : Flash.erase u.region u.device with ⟨e | _, f⟩
    · rw [he] at h hasks
      cases h
      exact ⟨⟨sized_idle hu rfl rfl hp, Region.Inside.refl _, hasks⟩, rfl, rfl, rfl, by simp⟩
    · rw [he] at h hasks
      cases h
      exact ⟨⟨sized_idle hu rfl rfl hp, Region.Inside.refl _, hasks⟩, rfl, rfl, rfl, fun _ => rfl⟩

theorem prepareErased_moves {n : Nat} (hu : u.Sized) (h : prepareErased n u = (r, v)) :
    Moves u v := by
  unfold prepareErased at h
  rw [Steps.bind_apply] at h
  rcases hd : declare n u with ⟨e | _, t⟩
  · rw [hd] at h
    cases h
    exact (declare_moves hu hd).1
  · obtain ⟨hm, ht⟩ := declare_moves hu hd
    obtain ⟨hp, hregion, hsize, hw, -⟩ := ht rfl
    rw [hd] at h
    simp only [Steps.bind_apply] at h
    rcases he : eraseRegion t with ⟨e | _, w⟩
    · rw [he] at h
      cases h
      exact hm.trans (eraseRegion_moves hm.sized hp he).1
    · rw [he] at h
      cases h
      obtain ⟨hm', hr', hs', hw', hfull⟩ := eraseRegion_moves hm.sized hp he
      have hfull := hfull rfl
      rw [← hr'] at hfull
      have ho := sized_opened hm'.sized (by rw [hs', hr']; exact hsize) (by omega) (by omega)
        (by rw [hfull]; exact hm'.sized.whole)
      exact (hm.trans hm').trans (moves_of_eq ho rfl rfl)

/-! ### Writing -/

theorem roundUp_spec {n unit length : Nat} (hu : 0 < unit) (hl : unit ∣ length) (hn : n ≤ length) :
    n ≤ roundUp n unit ∧ roundUp n unit ≤ length ∧ unit ∣ roundUp n unit := by
  unfold roundUp
  obtain ⟨k, rfl⟩ := hl
  refine ⟨?_, ?_, Nat.dvd_mul_left _ _⟩
  · have := Nat.lt_div_mul_add hu (a := n + unit - 1)
    omega
  · have hk : (n + unit - 1) / unit < k + 1 := by
      rw [Nat.div_lt_iff_lt_mul hu, Nat.add_one_mul, Nat.mul_comm k]
      omega
    rw [Nat.mul_comm unit k]
    exact Nat.mul_le_mul_right unit (Nat.le_of_lt_succ hk)

/-- Erasing ahead of a write asks for whole units inside the region, if for anything. -/
theorem eraseUpTo_moves {target : Nat} (hu : u.Sized) (hp : u.phase = .writing)
    (ht : target ≤ u.region.length.toNat) (h : eraseUpTo target u = (r, v)) :
    Moves u v ∧ (r = .ok () → v.phase = .writing ∧ v.region = u.region ∧
      v.updateSize = u.updateSize ∧ v.written = u.written) := by
  have hn : u.phase ≠ .idle := by simp [hp]
  unfold eraseUpTo at h
  split at h
  · cases h
    exact ⟨hu.moves, fun _ => ⟨hp, rfl, rfl, rfl⟩⟩
  · rename_i hlt
    obtain ⟨hle, hgoal, hwhole⟩ := roundUp_spec hu.granularity_pos hu.whole ht
    dsimp only at h
    generalize roundUp target u.granularity = goal at h hle hgoal hwhole
    have ha := hu.toNat_address_add (hu.erased_le hn)
    have hl : (UInt32.ofNat (goal - u.erased)).toNat = goal - u.erased :=
      UInt32.toNat_ofNat_of_lt' (Nat.lt_of_le_of_lt (Nat.le_trans (Nat.sub_le _ _) hgoal)
        u.region.length.toNat_lt)
    have hin : Region.Inside ⟨u.region.address + UInt32.ofNat u.erased,
        UInt32.ofNat (goal - u.erased)⟩ u.region := by
      refine ⟨?_, ?_⟩
      · simp only [ha]
        omega
      · simp only [Region.limit, ha, hl]
        omega
    have hasks : Asks u.device (Flash.erase _ u.device).2 u.region :=
      asks_one (Recorded.requests_erase _ _) hin
    rcases he : Flash.erase ⟨u.region.address + UInt32.ofNat u.erased,
        UInt32.ofNat (goal - u.erased)⟩ u.device with ⟨e | _, f⟩
    · rw [he] at h hasks
      cases h
      have hs : Sized { u with device := f, phase := .poisoned } := sized_poisoned hu hn f
      exact ⟨⟨hs, Region.Inside.refl _, hasks⟩, by simp⟩
    · rw [he] at h hasks
      cases h
      have hs : Sized { u with device := f, erased := goal } :=
        ⟨hu.granularity_pos, hu.aligned, hu.whole, hu.limit_lt, hu.updateSize_le, hu.written_le,
          fun _ => hgoal, fun _ => hwhole⟩
      exact ⟨⟨hs, Region.Inside.refl _, hasks⟩, fun _ => ⟨hp, rfl, rfl, rfl⟩⟩

/-- Programming asks for the bytes behind those that were written. -/
theorem programNext_moves {data : Bytes} (hu : u.Sized) (hp : u.phase = .writing)
    (hd : u.written + data.length ≤ u.updateSize) (h : programNext data u = (r, v)) :
    Moves u v := by
  have hn : u.phase ≠ .idle := by simp [hp]
  have hsize := hu.updateSize_le hn
  have ha := hu.toNat_address_add (k := u.written) (by omega)
  have hin : Request.Inside (.program (u.region.address + UInt32.ofNat u.written) data.length data)
      u.region := by
    refine ⟨?_, ?_⟩
    · simp only [ha]
      omega
    · simp only [ha, Region.limit]
      omega
  have hasks : Asks u.device
      (Flash.program (u.region.address + UInt32.ofNat u.written) data u.device).2 u.region :=
    asks_one (Recorded.requests_program _ _ _) hin
  unfold programNext at h
  rcases he : Flash.program (u.region.address + UInt32.ofNat u.written) data u.device with
    ⟨e | n, f⟩
  · rw [he] at h hasks
    cases h
    have hs : Sized { u with device := f, phase := .poisoned } := sized_poisoned hu hn f
    exact ⟨hs, Region.Inside.refl _, hasks⟩
  · rw [he] at h hasks
    have hs : Sized { u with device := f, written := u.written + min n data.length } :=
      ⟨hu.granularity_pos, hu.aligned, hu.whole, hu.limit_lt, hu.updateSize_le,
        fun _ => by simp only; omega, hu.erased_le, hu.erased_whole⟩
    simp only at h
    split at h
    · cases h
      exact ⟨sized_poisoned hs hn f, Region.Inside.refl _, hasks⟩
    · cases h
      exact ⟨hs, Region.Inside.refl _, hasks⟩

theorem write_moves {data : Bytes} (hu : u.Sized) (h : write data u = (r, v)) : Moves u v := by
  unfold write at h
  rw [Steps.bind_apply, requireWriting] at h
  by_cases hp : u.phase = .writing
  · have hn : u.phase ≠ .idle := by simp [hp]
    rw [if_pos hp] at h
    simp only [Steps.bind_apply] at h
    unfold requireSpace at h
    by_cases hd : u.written + data.length ≤ u.updateSize
    · rw [if_pos hd] at h
      simp only [Steps.get_apply] at h
      have hsize := hu.updateSize_le hn
      rcases he : eraseUpTo (u.written + data.length) u with ⟨e | _, t⟩
      · rw [he] at h
        cases h
        exact (eraseUpTo_moves hu hp (by omega) he).1
      · obtain ⟨hm, ht⟩ := eraseUpTo_moves hu hp (by omega) he
        obtain ⟨hp', -, hs', hw'⟩ := ht rfl
        rw [he] at h
        exact hm.trans (programNext_moves hm.sized hp' (by omega) h)
    · rw [if_neg hd] at h
      cases h
      exact moves_of_eq (sized_poisoned hu hn u.device) rfl rfl
  · rw [if_neg hp] at h
    cases h
    exact hu.moves

/-- **Every call stays in the region.** -/
theorem call_moves (c : Call) (hu : u.Sized) (h : c.step u = (r, v)) : Moves u v := by
  cases c with
  | applyOffset offset => exact applyOffset_moves hu h
  | prepare n => exact prepare_moves hu h
  | prepareErased n => exact prepareErased_moves hu h
  | write data => exact write_moves hu h
  | release =>
    cases h
    exact moves_of_eq (sized_idle hu rfl rfl rfl) rfl rfl

end Updater

end PlatformGuard
