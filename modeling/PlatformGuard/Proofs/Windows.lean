import PlatformGuard.Flash.Ram
import PlatformGuard.Flash.Window

/-!
# What a window asks of its device

A window refuses an access that runs past its end, and passes every other one on, moved by the address of
its region.  The move is a sum of two addresses.  Where it stays in the address space, the device is asked
about bytes of the region, and about the right ones (`Window.ask_of_fits`).  Where it leaves it, a program
that checks its sums ends there (`Window.ask_of_overflow`), and one that does not asks about bytes in front of
the region.

A window of a window is one window of the device, if its region starts in the address space.
-/

namespace PlatformGuard.Flash

/-! ### Accesses -/

namespace Access

@[simp]
theorem address_moved (base : UInt32) (c : Access) : (c.moved base).address = base + c.address := by
  cases c <;> rfl

@[simp]
theorem length_moved (base : UInt32) (c : Access) : (c.moved base).length = c.length := by
  cases c <;> rfl

@[simp]
theorem moved_moved (a b : UInt32) (c : Access) : (c.moved b).moved a = c.moved (a + b) := by
  cases c <;> simp only [moved, UInt32.add_assoc]

/-- The bytes of an access lie inside a region. -/
def Inside (c : Access) (r : Region) : Prop :=
  r.address.toNat ≤ c.address.toNat ∧ c.address.toNat + c.length ≤ r.limit

end Access

/-! ### Windows -/

namespace Window

variable {φ : Type}

/-- The window has the bytes of an access. -/
def Holds (w : Window φ) (c : Access) : Prop := c.address.toNat + c.length ≤ w.region.length.toNat

/-- The device has an address for the first of them. -/
def Fits (w : Window φ) (c : Access) : Prop := w.region.address.toNat + c.address.toNat < addressLimit

section moving
variable {w : Window φ} {c : Access}

theorem translate_of_holds (h : w.Holds c) : w.translate c.address c.length =
    if w.region.address.toNat + c.address.toNat < addressLimit then .inside (w.region.address + c.address)
    else .overflow (w.region.address + c.address) := by
  have hlt : w.region.length.toNat < addressLimit := w.region.length.toNat_lt
  exact if_pos ⟨Nat.lt_of_le_of_lt h hlt, h⟩

/-- Every access fits that a window inside the address space has, but for an empty one at the very end. -/
theorem fits_of_limit (hlimit : w.region.limit ≤ addressLimit)
    (hc : 0 < c.length ∨ w.region.limit < addressLimit) (h : w.Holds c) : w.Fits c := by
  unfold Region.limit at hlimit hc
  unfold Holds at h
  unfold Fits
  omega

theorem address_of_fits (h : w.Fits c) :
    (c.moved w.region.address).address.toNat = w.region.address.toNat + c.address.toNat := by
  rw [Access.address_moved, UInt32.toNat_add]
  exact Nat.mod_eq_of_lt h

theorem inside_of_fits (hc : w.Holds c) (h : w.Fits c) : (c.moved w.region.address).Inside w.region := by
  unfold Holds at hc
  unfold Access.Inside Region.limit
  rw [address_of_fits h, Access.length_moved]
  omega

/-- A sum that wraps around comes to an address in front of the region. -/
theorem address_of_overflow (h : ¬w.Fits c) :
    (c.moved w.region.address).address.toNat < w.region.address.toNat := by
  have hregion := w.region.address.toNat_lt
  have hc := c.address.toNat_lt
  unfold Fits addressLimit at h
  rw [Access.address_moved, UInt32.toNat_add]
  omega

end moving

section translating
variable {α : Type} {w : Window φ} {a b : UInt32} {n : Nat} {e : Error}

theorem translated_of_ok (h : (w.translate a n).address = .ok b)
    (step : UInt32 → ExceptT Error (StateM φ) α) : translated a n step w = onDevice (step b) w := by
  unfold translated
  rw [h]

theorem translated_of_error (h : (w.translate a n).address = .error e)
    (step : UInt32 → ExceptT Error (StateM φ) α) : translated a n step w = (.error e, w) := by
  unfold translated
  rw [h]

theorem readFrom_of_ok [Flash φ] (h : (w.translate a n).address = .ok b) :
    w.readFrom a n = Flash.read w.device b n := by
  unfold readFrom
  rw [h]

theorem readFrom_of_error [Flash φ] (h : (w.translate a n).address = .error e) :
    w.readFrom a n = .error e := by
  unfold readFrom
  rw [h]

end translating

/-! ### Sums that wrap around -/

section running
variable [Flash φ] {w : Window φ} {c : Access}

theorem run_of_holds (h : w.Holds c) : c.run w = onDevice (c.moved w.region.address).run w := by
  have ht : (w.translate c.address c.length).address = .ok (w.region.address + c.address) := by
    rw [address_translate]
    exact if_pos h
  cases c with
  | read a n =>
    have hread : Flash.read w a n = Flash.read w.device (w.region.address + a) n := readFrom_of_ok ht
    simp only [Access.run, hread]
    rfl
  | program a bs =>
    have hprogram : Flash.program a bs w = onDevice (Flash.program (w.region.address + a) bs) w :=
      translated_of_ok ht _
    simp only [Access.run, hprogram]
    rfl
  | erase r =>
    have herase : Flash.erase r w = onDevice (Flash.erase ⟨w.region.address + r.address, r.length⟩) w :=
      translated_of_ok ht _
    simp only [Access.run, herase]
    rfl

theorem run_of_not_holds (h : ¬w.Holds c) : c.run w = (.error .outOfRange, w) := by
  have ht : (w.translate c.address c.length).address = .error .outOfRange := by
    rw [address_translate]
    exact if_neg h
  cases c with
  | read a n =>
    have hread : Flash.read w a n = .error .outOfRange := readFrom_of_error ht
    simp only [Access.run, hread]
    rfl
  | program a bs =>
    have hprogram : Flash.program a bs w = (.error .outOfRange, w) := translated_of_error ht _
    simp only [Access.run, hprogram]
    rfl
  | erase r =>
    have herase : Flash.erase r w = (.error .outOfRange, w) := translated_of_error ht _
    simp only [Access.run, herase]
    rfl

end running

/-! ### Sums that are checked -/

section asking
variable [Checked φ] {w : Window φ} {c : Access}

theorem ask_of_not_holds (h : ¬w.Holds c) : c.ask w = some (.error .outOfRange, w) := by
  have hplace : w.translate c.address c.length = .outside := if_neg fun h' => h h'.2
  have hsum : Checked.overflows w c = false := by
    simp only [Checked.overflows, hplace]
  unfold Access.ask
  rw [hsum, run_of_not_holds h]
  rfl

/-- The program ends where the sum leaves the address space. -/
theorem ask_of_overflow (hc : w.Holds c) (h : ¬w.Fits c) : c.ask w = none := by
  have hplace : w.translate c.address c.length = .overflow (w.region.address + c.address) :=
    (translate_of_holds hc).trans (if_neg h)
  have hsum : Checked.overflows w c = true := by
    simp only [Checked.overflows, hplace]
  unfold Access.ask
  rw [hsum]
  rfl

theorem ask_of_fits (hc : w.Holds c) (h : w.Fits c) : c.ask w =
    ((c.moved w.region.address).ask w.device).map fun p => (p.1, { w with device := p.2 }) := by
  have hplace : w.translate c.address c.length = .inside (w.region.address + c.address) :=
    (translate_of_holds hc).trans (if_pos h)
  have hsum : Checked.overflows w c = Checked.overflows w.device (c.moved w.region.address) := by
    simp only [Checked.overflows, hplace]
  unfold Access.ask
  rw [hsum, run_of_holds hc]
  cases Checked.overflows w.device (c.moved w.region.address) <;> rfl

/-- A window stays where it is. -/
theorem region_of_ask {r : Except Error Outcome} {v : Window φ} (h : c.ask w = some (r, v)) :
    v.region = w.region := by
  by_cases hc : w.Holds c
  · by_cases hsum : w.Fits c
    · rw [ask_of_fits hc hsum] at h
      obtain ⟨p, -, hp⟩ := Option.map_eq_some_iff.1 h
      cases hp
      rfl
    · rw [ask_of_overflow hc hsum] at h
      cases h
  · rw [ask_of_not_holds hc] at h
    cases h
    rfl

/-! ### Windows of windows -/

variable {r s one : Region}

omit [Checked φ] in
/-- What a window on a window asks for, the inner window has. -/
theorem holds_moved {f : φ} (hs : s.limit ≤ r.length.toNat)
    (h : (⟨⟨f, r⟩, s⟩ : Window (Window φ)).Holds c) : (⟨f, r⟩ : Window φ).Holds (c.moved s.address) := by
  have hend : c.address.toNat + c.length ≤ s.length.toNat := h
  show (c.moved s.address).address.toNat + (c.moved s.address).length ≤ r.length.toNat
  unfold Region.limit at hs
  rw [Access.length_moved, Access.address_moved, UInt32.toNat_add]
  have := Nat.mod_le (s.address.toNat + c.address.toNat) (2 ^ 32)
  omega

/-- **One access through two windows.** -/
theorem ask_nested (hs : s.limit ≤ r.length.toNat)
    (haddress : one.address.toNat = r.address.toNat + s.address.toNat) (hlength : one.length = s.length)
    (f : φ) (c : Access) : c.ask (⟨⟨f, r⟩, s⟩ : Window (Window φ)) =
      (c.ask (⟨f, one⟩ : Window φ)).map fun p => (p.1, ⟨⟨p.2.device, r⟩, s⟩) := by
  by_cases hc : (⟨⟨f, r⟩, s⟩ : Window (Window φ)).Holds c
  · have hflat : (⟨f, one⟩ : Window φ).Holds c := by
      unfold Holds
      rw [hlength]
      exact hc
    -- the sum of the outer window stays below the length of the inner one
    have houter : (⟨⟨f, r⟩, s⟩ : Window (Window φ)).Fits c := by
      have hlt : r.length.toNat < addressLimit := r.length.toNat_lt
      unfold Region.limit at hs
      unfold Holds at hc
      unfold Fits
      dsimp only at hc ⊢
      omega
    have hinner := holds_moved hs hc
    have hsum : (⟨f, r⟩ : Window φ).Fits (c.moved s.address) ↔ (⟨f, one⟩ : Window φ).Fits c := by
      unfold Fits
      dsimp only
      rw [address_of_fits houter, haddress, Nat.add_assoc]
    have hone : r.address + s.address = one.address := by
      have hlt := one.address.toNat_lt
      apply UInt32.toNat_inj.1
      rw [UInt32.toNat_add, ← haddress, Nat.mod_eq_of_lt hlt]
    rw [ask_of_fits hc houter]
    dsimp only
    by_cases h : (⟨f, one⟩ : Window φ).Fits c
    · rw [ask_of_fits hinner (hsum.2 h), ask_of_fits hflat h]
      dsimp only
      rw [Access.moved_moved, hone, Option.map_map, Option.map_map]
      rfl
    · rw [ask_of_overflow hinner (mt hsum.1 h), ask_of_overflow hflat h]
      rfl
  · have hflat : ¬(⟨f, one⟩ : Window φ).Holds c := by
      unfold Holds
      rw [hlength]
      exact hc
    rw [ask_of_not_holds hc, ask_of_not_holds hflat]
    rfl

/-- Many accesses, as far as the program comes. -/
theorem askAll_nested (hs : s.limit ≤ r.length.toNat)
    (haddress : one.address.toNat = r.address.toNat + s.address.toNat) (hlength : one.length = s.length)
    (cs : List Access) (f : φ) : cs.mapM Access.ask (⟨⟨f, r⟩, s⟩ : Window (Window φ)) =
      (cs.mapM Access.ask (⟨f, one⟩ : Window φ)).map fun p => (p.1, ⟨⟨p.2.device, r⟩, s⟩) := by
  induction cs generalizing f with
  | nil => rfl
  | cons c cs ih =>
    rw [List.mapM_cons, List.mapM_cons]
    change (c.ask (⟨⟨f, r⟩, s⟩ : Window (Window φ))).bind _ = ((c.ask (⟨f, one⟩ : Window φ)).bind _).map _
    rw [ask_nested hs haddress hlength]
    cases hask : c.ask (⟨f, one⟩ : Window φ) with
    | none => rfl
    | some p =>
      obtain ⟨answer, g, region⟩ := p
      obtain rfl : region = one := region_of_ask hask
      change (cs.mapM Access.ask (⟨⟨g, r⟩, s⟩ : Window (Window φ))).bind _ =
        ((cs.mapM Access.ask (⟨g, region⟩ : Window φ)).bind _).map _
      rw [ih]
      cases cs.mapM Access.ask (⟨g, region⟩ : Window φ) <;> rfl

/-! ### Confinement -/

/-- **What a window asks of its device.**  An access that runs past the end of the window is refused, and the
device is not asked.  Any other needs the sum of the two addresses.  If it stays in the address space, which it
does for all bytes of a region that lies there, then the device is asked for as many bytes from the sum on, and
these lie in the region.  If it leaves it, then a program that checks its sums ends before the device is asked;
one that does not asks the device about bytes that start in front of the region.  Accesses through a window of
a window go as through one window, for as long as the program goes on. -/
theorem window_confines (w : Window φ) (c : Access) :
    (w.region.length.toNat < c.address.toNat + c.length → c.ask w = some (.error .outOfRange, w)) ∧
    (c.address.toNat + c.length ≤ w.region.length.toNat →
      let d := c.moved w.region.address
      (w.region.limit ≤ addressLimit → 0 < c.length ∨ w.region.limit < addressLimit →
        w.region.address.toNat + c.address.toNat < addressLimit) ∧
      (w.region.address.toNat + c.address.toNat < addressLimit →
        c.ask w = (d.ask w.device).map (fun p => (p.1, { w with device := p.2 })) ∧
        d.length = c.length ∧ d.address.toNat = w.region.address.toNat + c.address.toNat ∧
        d.Inside w.region) ∧
      (addressLimit ≤ w.region.address.toNat + c.address.toNat → c.ask w = none ∧
        c.run w = ((d.run w.device).1, { w with device := (d.run w.device).2 }) ∧
        d.address.toNat < w.region.address.toNat)) ∧
    ∀ s one : Region, s.limit ≤ w.region.length.toNat →
      one.address.toNat = w.region.address.toNat + s.address.toNat → one.length = s.length →
      ∀ cs : List Access, cs.mapM Access.ask (⟨w, s⟩ : Window (Window φ)) =
        (cs.mapM Access.ask (⟨w.device, one⟩ : Window φ)).map
          fun p => (p.1, ⟨⟨p.2.device, w.region⟩, s⟩) := by
  refine ⟨fun h => ask_of_not_holds (Nat.not_le_of_lt h), fun hc => ⟨?_, ?_, ?_⟩, ?_⟩
  · exact fun hlimit hend => fits_of_limit hlimit hend hc
  · exact fun h => ⟨ask_of_fits hc h, c.length_moved _, address_of_fits h, inside_of_fits hc h⟩
  · intro h
    have hsum : ¬w.Fits c := Nat.not_lt_of_le h
    exact ⟨ask_of_overflow hc hsum, run_of_holds hc, address_of_overflow hsum⟩
  · exact fun s one hs haddress hlength cs => askAll_nested hs haddress hlength cs w.device

end asking

/-- A window on four bytes of a memory of eight. -/
def middle : Window Ram := ⟨⟨#[0, 1, 2, 3, 4, 5, 6, 7]⟩, ⟨2, 4⟩⟩

/-- The window has two bytes behind its second one, but not three; and its middle bytes are a window of the
memory. -/
theorem middle_confined :
    ((Access.read 2 3).ask middle = some (.error .outOfRange, middle)) ∧
    ((Access.read 2 2).ask middle = some (.ok (.bytes [4, 5]), middle) ∧
      ((Access.read 2 2).moved 2).Inside middle.region) ∧
    [.program 0 [9], .read 1 1].mapM Access.ask (⟨middle, ⟨1, 2⟩⟩ : Window (Window Ram)) =
      some ([.ok (.programmed 1), .ok (.bytes [4])], ⟨⟨⟨#[0, 1, 2, 9, 4, 5, 6, 7]⟩, ⟨2, 4⟩⟩, ⟨1, 2⟩⟩) := by
  have hrefused := (window_confines middle (.read 2 3)).1 (by decide)
  obtain ⟨hlimit, hread, -⟩ := (window_confines middle (.read 2 2)).2.1 (by decide)
  obtain ⟨hask, -, -, hinside⟩ := hread (hlimit (by decide) (.inl (by decide)))
  have hnested := (window_confines middle (.read 0 0)).2.2 ⟨1, 2⟩ ⟨3, 2⟩ (by decide) rfl rfl
    [.program 0 [9], .read 1 1]
  exact ⟨hrefused, ⟨hask.trans rfl, hinside⟩, hnested.trans rfl⟩

/-- A window on the last two bytes of the address space and two more. -/
def straddling : Window Ram := ⟨⟨#[0, 1, 2, 3, 4, 5, 6, 7]⟩, ⟨0xfffffffe, 4⟩⟩

/-- It has a byte for which the device has no address.  A program that checks its sums ends when it asks for
it; one that does not reads and programs the first byte of the device, which is not in the region. -/
theorem straddling_ends :
    (2 + 1 ≤ straddling.region.length.toNat ∧ straddling.region.address.toNat + 2 = addressLimit) ∧
    ((Access.read 2 1).ask straddling = none ∧ (Access.program 2 [9]).ask straddling = none) ∧
    ((Access.read 2 1).run straddling = (.ok (.bytes [0]), straddling) ∧
      (Access.program 2 [9]).run straddling =
        (.ok (.programmed 1), { straddling with device := ⟨#[9, 1, 2, 3, 4, 5, 6, 7]⟩ }) ∧
      0 ∉ straddling.region) :=
  ⟨by decide, ⟨rfl, rfl⟩, rfl, rfl, by decide⟩

end Window

end PlatformGuard.Flash
