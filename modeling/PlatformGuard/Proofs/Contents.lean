import PlatformGuard.Flash.Ram
import PlatformGuard.Proofs.Updating

/-!
# What an update leaves in memory

On memory, which erases and programs what it is asked to, an update of any pieces ends with their
concatenation at the start of the region, erased bytes behind it, and the old contents around both.  The
state in between is known exactly (`writing`): after every piece it is the one that a single piece with the
same bytes would have led to.  How far the region is erased follows from the number of bytes written alone;
the two ways to prepare an update differ in nothing else, so that both are runs of one argument (`Erasing`).
-/

namespace PlatformGuard

/-! ### Writing over memory -/

namespace Flash

/-- Writing replaces the bytes that are there. -/
theorem overwrite_append {x y z bs : Bytes} {i : Nat} (hx : x.length = i) (hy : y.length = bs.length) :
    overwrite (x ++ (y ++ z)).toArray i bs = (x ++ (bs ++ z)).toArray := by
  induction bs generalizing x y i with
  | nil =>
    rw [List.eq_nil_of_length_eq_zero hy]
    rfl
  | cons b bs ih =>
    obtain ⟨c, y, rfl⟩ := List.exists_cons_of_length_eq_add_one hy
    have hset : (x ++ (c :: y ++ z)).set i b = (x ++ [b]) ++ (y ++ z) := by
      rw [← hx, List.set_append_right _ _ (Nat.le_refl _), Nat.sub_self]
      simp
    rw [overwrite, List.setIfInBounds_toArray, hset, ih (by simp [hx]) (by simpa using hy)]
    simp

variable {x y z : Bytes}

theorem program_append {address : UInt32} {bs : Bytes} (hx : x.length = address.toNat)
    (hy : y.length = bs.length) :
    Flash.program address bs (⟨(x ++ (y ++ z)).toArray⟩ : Ram) =
      (.ok bs.length, ⟨(x ++ (bs ++ z)).toArray⟩) := by
  change (if _ then _ else _) = _
  rw [if_pos, ← overwrite_append hx hy]
  simp only [List.size_toArray, List.length_append]
  omega

/-- Whole sectors that are there can be erased. -/
theorem erase_append {r : Region} (hx : x.length = r.address.toNat) (hy : y.length = r.length.toNat)
    (ha : defaultSectorSize ∣ r.address.toNat) (hl : defaultSectorSize ∣ r.length.toNat) :
    Flash.erase r (⟨(x ++ (y ++ z)).toArray⟩ : Ram) =
      (.ok (), ⟨(x ++ (List.replicate r.length.toNat erasedByte ++ z)).toArray⟩) := by
  have haligned : ¬ (r.address.toNat % defaultSectorSize ≠ 0 ∨ r.length.toNat % defaultSectorSize ≠ 0) := by
    rw [Nat.mod_eq_zero_of_dvd ha, Nat.mod_eq_zero_of_dvd hl]
    simp
  change (if _ then _ else if _ then _ else _) = _
  rw [if_neg haligned, if_pos, overwrite_append hx (by simpa using hy)]
  simp only [List.size_toArray, List.length_append, Region.limit]
  omega

/-- Contents in which `data` stands from `base` on, and behind it erased bytes up to `erased` bytes from
`base`. -/
def updated (old : Bytes) (base erased : Nat) (data : Bytes) : Bytes :=
  old.take base ++ (data ++ List.replicate (erased - data.length) erasedByte) ++ old.drop (base + erased)

section updated
variable {old data bs : Bytes} {base erased goal : Nat}

@[simp]
theorem updated_nil : updated old base 0 [] = old := by simp [updated]

/-- Erasing further behind the data. -/
theorem erase_updated {r : Region} (ha : r.address.toNat = base + erased)
    (hl : r.length.toNat = goal - erased) (hd : data.length ≤ erased) (hg : erased ≤ goal)
    (hroom : base + goal ≤ old.length) (hbase : defaultSectorSize ∣ base)
    (herased : defaultSectorSize ∣ erased) (hgoal : defaultSectorSize ∣ goal) :
    Flash.erase r (⟨(updated old base erased data).toArray⟩ : Ram) =
      (.ok (), ⟨(updated old base goal data).toArray⟩) := by
  have hsplit : updated old base erased data =
      (old.take base ++ (data ++ List.replicate (erased - data.length) erasedByte)) ++
        ((old.drop (base + erased)).take (goal - erased) ++ old.drop (base + goal)) := by
    have hdrop : (old.drop (base + erased)).drop (goal - erased) = old.drop (base + goal) := by
      rw [List.drop_drop]
      congr 1
      omega
    rw [updated, ← hdrop, List.take_append_drop]
  have hjoin : List.replicate (goal - data.length) erasedByte =
      List.replicate (erased - data.length) erasedByte ++ List.replicate (goal - erased) erasedByte := by
    rw [List.replicate_append_replicate]
    congr 1
    omega
  have hx : (old.take base ++ (data ++ List.replicate (erased - data.length) erasedByte)).length =
      r.address.toNat := by
    simp only [List.length_append, List.length_take, List.length_replicate, ha]
    omega
  have hy : ((old.drop (base + erased)).take (goal - erased)).length = r.length.toNat := by
    simp only [List.length_take, List.length_drop, hl]
    omega
  rw [hsplit, erase_append hx hy (ha ▸ Nat.dvd_add hbase herased) (hl ▸ Nat.dvd_sub hgoal herased), hl,
    updated, hjoin]
  simp only [List.append_assoc]

/-- Programming bytes that were erased behind the data. -/
theorem program_updated {address : UInt32} (ha : address.toNat = base + data.length)
    (hd : data.length + bs.length ≤ erased) (hroom : base + erased ≤ old.length) :
    Flash.program address bs (⟨(updated old base erased data).toArray⟩ : Ram) =
      (.ok bs.length, ⟨(updated old base erased (data ++ bs)).toArray⟩) := by
  have hcut : List.replicate (erased - data.length) erasedByte = List.replicate bs.length erasedByte ++
      List.replicate (erased - (data ++ bs).length) erasedByte := by
    rw [List.replicate_append_replicate, List.length_append]
    congr 1
    omega
  have hsplit : updated old base erased data = (old.take base ++ data) ++
      (List.replicate bs.length erasedByte ++ (List.replicate (erased - (data ++ bs).length) erasedByte ++
        old.drop (base + erased))) := by
    rw [updated, hcut]
    simp only [List.append_assoc]
  have hx : (old.take base ++ data).length = address.toNat := by
    simp only [List.length_append, List.length_take, ha]
    omega
  rw [hsplit, program_append hx List.length_replicate, updated]
  simp only [List.append_assoc]

end updated

end Flash

namespace Updater

open Update Flash

/-! ### Sizes of units -/

theorem roundUp_zero {unit : Nat} (h : 0 < unit) : roundUp 0 unit = 0 := by
  rw [roundUp, Nat.zero_add, Nat.div_eq_of_lt (Nat.sub_lt h Nat.one_pos), Nat.zero_mul]

/-- Numbers that lie in one unit are rounded to its end. -/
theorem roundUp_eq {m n unit : Nat} (hu : 0 < unit) (hm : m ≤ n) (hn : n ≤ roundUp m unit) :
    roundUp n unit = roundUp m unit := by
  have hdvd : ∀ k, unit ∣ roundUp k unit := fun k => Nat.dvd_mul_left _ _
  have hle : n ≤ roundUp n unit := by
    have := Nat.lt_div_mul_add hu (a := n + unit - 1)
    unfold roundUp
    omega
  have h₁ := (roundUp_spec hu (hdvd m) hn).2.1
  have h₂ := (roundUp_spec hu (hdvd n) (Nat.le_trans hm hle)).2.1
  omega

/-- The units of memory consist of sectors. -/
theorem sector_dvd_sizeOn (unit : EraseUnit) (f : Ram) : defaultSectorSize ∣ unit.sizeOn f := by
  cases unit with
  | sector => exact Nat.dvd_refl _
  | block => exact ⟨16, rfl⟩

/-! ### The state of an update -/

/-- An update of `size` bytes of which `data` is written, and for which `erased` bytes of the region were
erased. -/
def writing (u : Updater Ram) (size erased : Nat) (data : Bytes) : Updater Ram :=
  { u with
    device := ⟨(updated u.device.contents.toList u.region.address.toNat erased data).toArray⟩
    updateSize := size
    written := data.length
    erased
    phase := .writing }

/-- An updater whose region lies in its memory. -/
structure Fits (u : Updater Ram) : Prop where
  sized : u.Sized
  idle : u.phase = .idle
  sectors : defaultSectorSize ∣ u.granularity
  inside : u.region.limit ≤ u.device.contents.size

theorem fits_start {f : Ram} {region : Region} {unit : EraseUnit} {u : Updater Ram}
    (h : start f region unit = .ok u) :
    u.Fits ∧ u.region = region ∧ u.device = f ∧ u.granularity = unit.sizeOn f := by
  obtain ⟨hsized, hregion, hdevice⟩ := sized_start h
  obtain ⟨_, hcheck, rfl⟩ := Steps.map_eq_ok.1 h
  refine ⟨⟨hsized, rfl, sector_dvd_sizeOn unit f, ?_⟩, hregion, hdevice, rfl⟩
  unfold checkRegion at hcheck
  split at hcheck
  · cases hcheck
  · split at hcheck
    · cases hcheck
    · rename_i size hsize
      change Flash.sizeOf f.contents = .ok size at hsize
      unfold Flash.sizeOf at hsize
      split at hsize
      · cases hsize
        split at hcheck
        · assumption
        · cases hcheck
      · cases hsize

/-- How far the region is erased once a number of bytes is written.  A write of more bytes than are erased
erases whole units up to its end. -/
structure Erasing (u : Updater Ram) (size : Nat) (reach : Nat → Nat) : Prop where
  le : ∀ n ≤ size, n ≤ reach n
  room : ∀ n ≤ size, reach n ≤ u.region.length.toNat
  whole : ∀ n, u.granularity ∣ reach n
  next : ∀ m n, m ≤ n → n ≤ size → reach n = if n ≤ reach m then reach m else roundUp n u.granularity

theorem erasing_roundUp {u : Updater Ram} {size : Nat} (hu : u.Sized) (hs : size ≤ u.region.length.toNat) :
    u.Erasing size fun n => roundUp n u.granularity := by
  have hspec := fun n (hn : n ≤ size) =>
    roundUp_spec hu.granularity_pos hu.whole (Nat.le_trans hn hs)
  refine ⟨fun n hn => (hspec n hn).1, fun n hn => (hspec n hn).2.1, fun n => Nat.dvd_mul_left _ _,
    fun m n hm _ => ?_⟩
  split
  · exact roundUp_eq hu.granularity_pos hm ‹_›
  · rfl

theorem erasing_region {u : Updater Ram} {size : Nat} (hu : u.Sized) (hs : size ≤ u.region.length.toNat) :
    u.Erasing size fun _ => u.region.length.toNat := by
  refine ⟨fun n hn => Nat.le_trans hn hs, fun _ _ => Nat.le_refl _, fun _ => hu.whole, fun m n _ hn => ?_⟩
  rw [if_pos (Nat.le_trans hn hs)]

/-! ### Steps -/

section steps
variable {u : Updater Ram} {size erased : Nat} {data : Bytes} {reach : Nat → Nat}

theorem Fits.room (hu : u.Fits) {n : Nat} (hn : n ≤ u.region.length.toNat) :
    u.region.address.toNat + n ≤ u.device.contents.toList.length := by
  have hinside := hu.inside
  unfold Region.limit at hinside
  rw [Array.length_toList]
  omega

theorem Fits.sector_dvd (hu : u.Fits) {n : Nat} (hn : u.granularity ∣ n) : defaultSectorSize ∣ n :=
  Nat.dvd_trans hu.sectors hn

theorem prepare_eq (hu : u.Fits) (hs : size ≤ u.region.length.toNat) :
    prepare size u = (.ok (), u.writing size 0 []) := by
  unfold prepare declare checkSize
  rw [Steps.bind_apply, if_pos hu.idle, if_pos hs]
  simp only [openForData, writing, updated_nil, Array.toArray_toList, List.length_nil]

/-- Erasing ahead of the data, as far as whole units reach. -/
theorem erase_writing (hu : u.Fits) {goal : Nat} (hd : data.length ≤ erased) (hg : erased < goal)
    (hroom : goal ≤ u.region.length.toNat) (herased : u.granularity ∣ erased)
    (hgoal : u.granularity ∣ goal) :
    Flash.erase ⟨u.region.address + UInt32.ofNat erased, UInt32.ofNat (goal - erased)⟩
        (u.writing size erased data).device =
      (.ok (), (u.writing size goal data).device) := by
  have hlength : (UInt32.ofNat (goal - erased)).toNat = goal - erased :=
    UInt32.toNat_ofNat_of_lt' (Nat.lt_of_le_of_lt (Nat.le_trans (Nat.sub_le _ _) hroom)
      u.region.length.toNat_lt)
  exact erase_updated (hu.sized.toNat_address_add (by omega)) hlength hd (Nat.le_of_lt hg)
    (hu.room hroom) (hu.sector_dvd hu.sized.aligned) (hu.sector_dvd herased) (hu.sector_dvd hgoal)

theorem prepareErased_eq (hu : u.Fits) (hs : size ≤ u.region.length.toNat) :
    prepareErased size u = (.ok (), u.writing size u.region.length.toNat []) := by
  have hdeclare : declare size u = (.ok (), { u with updateSize := size, written := 0, erased := 0 }) := by
    unfold declare checkSize
    rw [if_pos hu.idle, if_pos hs]
  unfold prepareErased
  rw [Steps.bind_apply, hdeclare]
  simp only [Steps.bind_apply, eraseRegion]
  by_cases hzero : u.region.length = 0
  · rw [if_pos hzero]
    simp [openForData, writing, hzero]
  · have herase : Flash.erase u.region u.device =
        (.ok (), (u.writing size u.region.length.toNat []).device) := by
      have h : Flash.erase u.region (⟨(updated u.device.contents.toList _ 0 []).toArray⟩ : Ram) = _ :=
        erase_updated rfl rfl (Nat.le_refl 0) (Nat.zero_le _) (hu.room (Nat.le_refl _))
          (hu.sector_dvd hu.sized.aligned) (Nat.dvd_zero _) (hu.sector_dvd hu.sized.whole)
      rwa [updated_nil, Array.toArray_toList] at h
    rw [if_neg hzero, herase]
    rfl

theorem eraseUpTo_writing (hu : u.Fits) (he : u.Erasing size reach) {n : Nat} (hd : data.length ≤ n)
    (hn : n ≤ size) :
    eraseUpTo n (u.writing size (reach data.length) data) = (.ok (), u.writing size (reach n) data) := by
  have hnext := he.next data.length n hd hn
  unfold eraseUpTo
  by_cases hle : n ≤ reach data.length
  · rw [if_pos hle] at hnext
    rw [hnext]
    exact if_pos hle
  · rw [if_neg hle] at hnext
    have hlt : reach data.length < reach n := Nat.lt_of_lt_of_le (Nat.lt_of_not_le hle) (he.le n hn)
    have herase : Flash.erase _ (u.writing size _ data).device = _ :=
      erase_writing hu (he.le _ (Nat.le_trans hd hn)) hlt (he.room n hn) (he.whole _) (he.whole _)
    simp only [writing, ← hnext] at herase ⊢
    rw [if_neg hle, herase]

theorem programNext_writing (hu : u.Fits) {bs : Bytes} (hd : data.length + bs.length ≤ erased)
    (hroom : erased ≤ u.region.length.toNat) :
    programNext bs (u.writing size erased data) = (.ok (), u.writing size erased (data ++ bs)) := by
  have hprogram : Flash.program (u.region.address + UInt32.ofNat data.length) bs
      (u.writing size erased data).device =
        (.ok bs.length, (u.writing size erased (data ++ bs)).device) :=
    program_updated (hu.sized.toNat_address_add (by omega)) hd (hu.room hroom)
  unfold programNext
  simp only [writing] at hprogram ⊢
  rw [hprogram]
  simp

/-- A piece that fits is written behind the data. -/
theorem write_writing (hu : u.Fits) (he : u.Erasing size reach) {bs : Bytes}
    (hn : data.length + bs.length ≤ size) :
    write bs (u.writing size (reach data.length) data) =
      (.ok (), u.writing size (reach (data ++ bs).length) (data ++ bs)) := by
  have hwriting : requireWriting (u.writing size (reach data.length) data) =
      (.ok (), u.writing size (reach data.length) data) := rfl
  have hspace : requireSpace bs.length (u.writing size (reach data.length) data) =
      (.ok (), u.writing size (reach data.length) data) := if_pos hn
  have herase := eraseUpTo_writing hu he (Nat.le_add_right data.length bs.length) hn
  have hprogram : programNext bs (u.writing size _ data) = _ :=
    programNext_writing hu (he.le _ hn) (he.room _ hn)
  unfold write
  rw [Steps.bind_apply, hwriting]
  simp only [Steps.bind_apply, hspace, Steps.get_apply]
  have hwritten : (u.writing size (reach data.length) data).written = data.length := rfl
  rw [hwritten, herase, List.length_append, ← hprogram]

/-- A piece that does not fit is refused.  Neither the memory nor the number of bytes written changes. -/
theorem write_outOfSpace {bs : Bytes} (hn : size < data.length + bs.length) :
    write bs (u.writing size erased data) =
      (.error .outOfSpace, { u.writing size erased data with phase := .poisoned }) := by
  have hwriting : requireWriting (u.writing size erased data) = (.ok (), u.writing size erased data) := rfl
  have hspace : requireSpace bs.length (u.writing size erased data) =
      (.error .outOfSpace, { u.writing size erased data with phase := .poisoned }) :=
    if_neg (Nat.not_le_of_lt hn)
  unfold write
  rw [Steps.bind_apply, hwriting]
  simp only [Steps.bind_apply, hspace]

/-- Pieces that fit are written one behind the other. -/
theorem forM_write (hu : u.Fits) (he : u.Erasing size reach) (data : Bytes) (pieces : List Bytes)
    (hn : (data ++ pieces.flatten).length ≤ size) :
    pieces.forM write (u.writing size (reach data.length) data) =
      (.ok (), u.writing size (reach (data ++ pieces.flatten).length) (data ++ pieces.flatten)) := by
  induction pieces generalizing data with
  | nil => rw [List.flatten_nil, List.append_nil]; rfl
  | cons piece pieces ih =>
    rw [List.flatten_cons, ← List.append_assoc] at hn ⊢
    have hpiece : data.length + piece.length ≤ size := by
      simp only [List.length_append] at hn
      omega
    have hstep := write_writing hu he hpiece
    change (write piece >>= fun _ => pieces.forM write) _ = _
    rw [Steps.bind_apply, hstep]
    exact ih _ hn

end steps

/-! ### Whole updates -/

/-- **What an update leaves in memory.**  Where an updater was started, an update of a size that fits the
region succeeds with any data that fits the size, and its end is the same however the data is cut into
pieces: the data stands at the start of the region, erased bytes fill up its last unit, or the whole region
if all of it was erased at first, and everything else is as it was.  A piece too many is refused and changes
neither the memory nor the number of bytes written. -/
theorem update_contents {f : Ram} {region : Region} {unit : EraseUnit} {u : Updater Ram}
    (h : start f region unit = .ok u) {size : Nat} (hs : size ≤ region.length.toNat)
    {data : Bytes} (hn : data.length ≤ size) :
    let filled := roundUp data.length (unit.sizeOn f)
    let ahead := u.writing size filled data
    let whole := u.writing size region.length.toNat data
    (∀ pieces : List Bytes, pieces.flatten = data →
      (do prepare size; pieces.forM write) u = (.ok (), ahead) ∧
      (do prepareErased size; pieces.forM write) u = (.ok (), whole)) ∧
    ahead.device.contents.toList = f.contents.toList.take region.address.toNat ++
      (data ++ List.replicate (filled - data.length) 0xff) ++
      f.contents.toList.drop (region.address.toNat + filled) ∧
    whole.device.contents.toList = f.contents.toList.take region.address.toNat ++
      (data ++ List.replicate (region.length.toNat - data.length) 0xff) ++
      f.contents.toList.drop (region.address.toNat + region.length.toNat) ∧
    ∀ piece : Bytes, size < data.length + piece.length →
      write piece ahead = (.error .outOfSpace, { ahead with phase := .poisoned }) ∧
      write piece whole = (.error .outOfSpace, { whole with phase := .poisoned }) := by
  intro filled ahead whole
  obtain ⟨hu, rfl, rfl, hunit⟩ := fits_start h
  have hahead := erasing_roundUp hu.sized hs
  have hwhole := erasing_region hu.sized hs
  refine ⟨fun pieces hpieces => ⟨?_, ?_⟩, rfl, rfl,
    fun piece hpiece => ⟨write_outOfSpace hpiece, write_outOfSpace hpiece⟩⟩
  · have hrun := forM_write hu hahead [] pieces (by rwa [List.nil_append, hpieces])
    rw [List.nil_append, hpieces, List.length_nil, roundUp_zero hu.sized.granularity_pos, hunit] at hrun
    rw [Steps.bind_apply, prepare_eq hu hs]
    exact hrun
  · have hrun := forM_write hu hwhole [] pieces (by rwa [List.nil_append, hpieces])
    rw [List.nil_append, hpieces] at hrun
    rw [Steps.bind_apply, prepareErased_eq hu hs]
    exact hrun

/-- Two sectors of sevens. -/
def twoSectors : Ram := ⟨Array.replicate 0x2000 7⟩

/-- Three pieces, one of them empty, leave in the second sector what one piece would. -/
theorem twoSectors_update : ∃ u, start twoSectors ⟨0x1000, 0x1000⟩ .sector = .ok u ∧
    (do prepare 6; [[1, 2], [], [3, 4, 5]].forM write) u = (.ok (), u.writing 6 0x1000 [1, 2, 3, 4, 5]) ∧
    (u.writing 6 0x1000 [1, 2, 3, 4, 5]).device.contents.toList =
      List.replicate 0x1000 7 ++ ([1, 2, 3, 4, 5] ++ List.replicate 0xffb 0xff) ∧
    write [6, 7] (u.writing 6 0x1000 [1, 2, 3, 4, 5]) =
      (.error .outOfSpace, { u.writing 6 0x1000 [1, 2, 3, 4, 5] with phase := .poisoned }) := by
  have hdevice : Flash.size twoSectors = .ok 0x2000 := by
    change Flash.sizeOf (Array.replicate 0x2000 7) = _
    rw [Flash.sizeOf, Array.size_replicate]
    rfl
  have hstart : start twoSectors ⟨0x1000, 0x1000⟩ .sector =
      .ok { device := twoSectors, region := ⟨0x1000, 0x1000⟩, granularity := 0x1000 } := by
    rw [start, checkRegion, hdevice]
    rfl
  have hsize : 6 ≤ (0x1000 : UInt32).toNat := by decide
  have hdata : ([1, 2, 3, 4, 5] : Bytes).length ≤ 6 := by decide
  obtain ⟨hrun, hahead, -, hfull⟩ := update_contents hstart hsize hdata
  refine ⟨_, hstart, (hrun [[1, 2], [], [3, 4, 5]] rfl).1, ?_, (hfull [6, 7] (by decide)).1⟩
  have hold : twoSectors.contents.toList = List.replicate 0x2000 7 := Array.toList_replicate
  have hfilled : roundUp ([1, 2, 3, 4, 5] : Bytes).length (EraseUnit.sector.sizeOn twoSectors) = 0x1000 := rfl
  have hbase : (0x1000 : UInt32).toNat = 0x1000 := rfl
  rw [hfilled, hold, hbase, List.take_replicate, List.drop_replicate] at hahead
  refine hahead.trans ?_
  rw [Nat.min_eq_left (by decide), List.append_assoc]
  exact congrArg _ (List.append_nil _)

end Updater

end PlatformGuard
