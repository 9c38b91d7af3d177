import PlatformGuard.Manifest.View
import PlatformGuard.Proofs.Delimiting
import PlatformGuard.Proofs.Simulation
import Mathlib.Data.List.Forall2

/-!
# Lists that are read again

A list of records is walked over once, and what remains of it are its bytes and the number of its records.
Readers of records are local: what they made of the list as a part of the manifest they make of its bytes
alone.  So the second reading gives every record that the first one saw, and none fails.
-/

namespace PlatformGuard.Manifest

open Decoder

/-! ### Lookups -/

section lookups
variable {α γ : Type} {missing : Error}

/-- The first entry of a list with a property. -/
def lookup (q : α → Bool) (missing : Error) (as : List α) : Except Error α :=
  match as.find? q with
  | some a => .ok a
  | none => .error missing

theorem lookup_cons (q : α → Bool) (a : α) (as : List α) :
    lookup q missing (a :: as) = if q a then .ok a else lookup q missing as := by
  rw [lookup, List.find?_cons]
  cases q a <;> rfl

theorem lookup_map {g : α → γ} {q : γ → Bool} {p : α → Bool} {as : List α}
    (h : ∀ a ∈ as, q (g a) = p a) : lookup q missing (as.map g) = (lookup p missing as).map g := by
  induction as with
  | nil => rfl
  | cons a as ih =>
    rw [List.map_cons, lookup_cons, lookup_cons, h a List.mem_cons_self,
      ih fun b hb => h b (List.mem_cons_of_mem a hb)]
    cases p a <;> rfl

end lookups

namespace View

section records
variable {α β γ : Type} [Record β] {R : β → α → Prop} {check : β → Except Error Unit} {n : Nat}
  {s rest : Bytes} {bs : List β}

/-! ### Reading a list again -/

theorem readings_of_times (h : (times n Record.decoder).on s = (.ok bs, rest)) :
    readings n s = bs.map .ok := by
  induction n generalizing s bs with
  | zero => cases h; rfl
  | succ n ih =>
    obtain ⟨b, s₁, hb, h⟩ := on_bind_ok.1 h
    obtain ⟨bs', s₂, hbs, h⟩ := on_bind_ok.1 h
    cases h
    rw [readings, hb, List.map_cons, ← ih hbs]

/-- As many records are read as there should be if none fails. -/
theorem length_of_readings (h : readings n s = bs.map .ok) : bs.length = n := by
  induction n generalizing s bs with
  | zero => exact List.length_eq_zero_iff.2 (List.map_eq_nil_iff.1 h.symm)
  | succ n ih =>
    rw [readings] at h
    split at h
    case h_1 =>
      obtain ⟨b, bs', rfl, -, hbs⟩ := List.map_eq_cons_iff.1 h.symm
      rw [List.length_cons, ih hbs.symm]
    case h_2 =>
      obtain ⟨b, bs', -, hb, -⟩ := List.map_eq_cons_iff.1 h.symm
      cases hb

theorem on_checked_ok {b : β} :
    (readChecked check).on s = (.ok b, rest) ↔ Record.decoder.on s = (.ok b, rest) ∧ check b = .ok () := by
  constructor
  · intro h
    obtain ⟨b', s₁, hread, h⟩ := on_bind_ok.1 h
    obtain ⟨_, s₂, hcheck, h⟩ := on_bind_ok.1 h
    cases h
    obtain ⟨hpasses, rfl⟩ := on_lift_ok.1 hcheck
    exact ⟨hread, hpasses⟩
  · rintro ⟨hread, hcheck⟩
    exact on_bind_ok.2 ⟨b, rest, hread, on_bind_ok.2 ⟨(), rest, on_lift_ok.2 ⟨hcheck, rfl⟩, rfl⟩⟩

/-- What is read with a check is what is read without it and passes. -/
theorem on_times_checked_ok :
    (times n (readChecked check)).on s = (.ok bs, rest) ↔
      (times n Record.decoder).on s = (.ok bs, rest) ∧ ∀ b ∈ bs, check b = .ok () := by
  induction n generalizing s bs with
  | zero => exact ⟨fun h => ⟨h, by cases h; nofun⟩, And.left⟩
  | succ n ih =>
    constructor
    · intro h
      obtain ⟨b, s₁, hb, h⟩ := on_bind_ok.1 h
      obtain ⟨bs', s₂, hbs, h⟩ := on_bind_ok.1 h
      cases h
      obtain ⟨hread, hcheck⟩ := on_checked_ok.1 hb
      obtain ⟨hreads, hchecks⟩ := ih.1 hbs
      exact ⟨on_bind_ok.2 ⟨b, s₁, hread, on_bind_ok.2 ⟨bs', rest, hreads, rfl⟩⟩,
        List.forall_mem_cons.2 ⟨hcheck, hchecks⟩⟩
    · rintro ⟨h, hchecks⟩
      obtain ⟨b, s₁, hread, h⟩ := on_bind_ok.1 h
      obtain ⟨bs', s₂, hreads, h⟩ := on_bind_ok.1 h
      cases h
      obtain ⟨hcheck, hchecks⟩ := List.forall_mem_cons.1 hchecks
      exact on_bind_ok.2 ⟨b, s₁, on_checked_ok.2 ⟨hread, hcheck⟩,
        on_bind_ok.2 ⟨bs', rest, ih.2 ⟨hreads, hchecks⟩, rfl⟩⟩

variable (β) in
theorem isDelimited_checked (hd : IsDelimited (Record.decoder (β := β))) :
    IsDelimited (readChecked check) :=
  hd.bind fun b => (isDelimited_lift _).bind fun _ => isDelimited_pure b

theorem on_walk (check : β → Except Error Unit) (n : Nat) (s : Bytes) :
    (walk check n).on s = match (times n (readChecked check)).on s with
      | (.ok bs, rest) => (.ok (bs, s.take (s.length - rest.length)), rest)
      | (.error e, rest) => (.error e, rest) := rfl

/-- The bytes that were walked over are those from which the records are read once more. -/
theorem on_walk_ok (hd : IsDelimited (Record.decoder (β := β))) {span : Bytes} :
    (walk check n).on s = (.ok (bs, span), rest) ↔
      s = span ++ rest ∧ (times n (readChecked check)).Reads span bs := by
  rw [on_walk]
  constructor
  · intro h
    split at h
    case h_1 bs' rest' hread =>
      cases h
      obtain ⟨front, rfl, hfront⟩ := ((isDelimited_checked β hd).times n).isLocal hread
      have hspan : (front ++ rest).take ((front ++ rest).length - rest.length) = front := by
        rw [List.length_append, Nat.add_sub_cancel, List.take_left]
      rw [hspan]
      exact ⟨rfl, hfront⟩
    case h_2 => cases h
  · rintro ⟨rfl, hread⟩
    have hread : (times n (readChecked check)).on (span ++ rest) = (.ok bs, rest) := hread rest
    rw [hread]
    simp

theorem isDelimited_walk (hd : IsDelimited (Record.decoder (β := β))) : IsDelimited (walk check n) where
  isLocal := by
    intro s p rest h
    obtain ⟨rfl, hread⟩ := (on_walk_ok hd).1 h
    exact ⟨p.2, rfl, fun _ => (on_walk_ok hd).2 ⟨rfl, hread⟩⟩
  short front p h k hk := by
    obtain ⟨rfl, hread⟩ := (on_walk_ok hd).1 h.on_self
    rw [List.append_nil] at hk ⊢
    have hshort := ((isDelimited_checked β hd).times n).short hread k hk
    rw [read_eq_on] at hshort
    rw [read_eq_on, on_walk]
    split
    case h_1 hok => rw [hok] at hshort; cases hshort
    case h_2 herror => rw [herror] at hshort; cases hshort; rfl

/-- A list of records of which each can be read again, and that shows the records of another list. -/
def Records.Shows (R : β → α → Prop) (r : Records β) (as : List α) : Prop :=
  ∃ bs : List β, r.items = bs.map .ok ∧ List.Forall₂ R bs as

/-- A walk over records shows what is read as a list. -/
theorem simulates_walk (hd : IsDelimited (Record.decoder (β := β))) {e : Decoder Error α}
    (h : Simulates R (readChecked check) e) (n : Nat) :
    Simulates (fun p as => List.Forall₂ R p.1 as ∧ (⟨p.2, n⟩ : Records β).Shows R as)
      (walk check n) (times n e) := by
  intro s
  obtain ⟨hagree, hleft⟩ := h.times n s
  rcases hwalk : (walk check n).on s with ⟨e' | ⟨bs, span⟩, rest⟩
  · have hread : (times n (readChecked check)).on s = (.error e', rest) := by
      rw [on_walk] at hwalk
      split at hwalk <;> simp_all
    rw [hread] at hagree hleft
    exact ⟨Agree.error_iff.2 (Agree.error_iff.1 hagree), hleft⟩
  · obtain ⟨rfl, hread⟩ := (on_walk_ok hd).1 hwalk
    have hchecked : (times n (readChecked check)).on (span ++ rest) = (.ok bs, rest) := hread rest
    rw [hchecked] at hagree hleft
    obtain ⟨as, has, hbs⟩ := Agree.ok_iff.1 hagree
    have hitems := readings_of_times (on_times_checked_ok.1 hread.on_self).1
    exact ⟨Agree.ok_iff.2 ⟨as, has, hbs, bs, hitems, hbs⟩, hleft⟩

/-- A check that never fails is none. -/
theorem simulates_unchecked {e : Decoder Error α} (h : Simulates R Record.decoder e) :
    Simulates R (readChecked fun _ => .ok ()) e := by
  rw [← bind_pure e]
  exact h.bind fun b a hb => simulates_pure hb

/-! ### Using a list -/

variable {r : Records β} {as : List α}

/-- Going through the records gives as many as there should be, all of them with a property, and no
failure. -/
def Records.Complete (p : β → Prop) (r : Records β) : Prop :=
  ∃ bs : List β, r.items = bs.map .ok ∧ bs.length = r.count ∧ ∀ b ∈ bs, p b

theorem Records.Shows.complete {p : β → Prop} (h : r.Shows R as) (hp : ∀ b a, R b a → p b) :
    r.Complete p := by
  obtain ⟨bs, hitems, hbs⟩ := h
  have hall : List.Forall₂ (fun b a => p b ∧ R b a) bs as := hbs.imp fun b a h => ⟨hp b a h, h⟩
  exact ⟨bs, hitems, length_of_readings hitems, ((List.forall₂_and_left _ _).1 hall).1⟩

omit [Record β] in
theorem mapM_of_forall₂ {f : β → Except Error γ} {g : α → γ} (h : List.Forall₂ R bs as)
    (hf : ∀ b a, R b a → f b = .ok (g a)) :
    ((bs.map .ok).mapM fun item => item >>= f) = .ok (as.map g) := by
  induction h with
  | nil => rfl
  | @cons b a bs as hb _ ih =>
    rw [List.map_cons, List.mapM_cons, List.map_cons, ih]
    change (f b >>= _) = _
    rw [hf b a hb]
    rfl

theorem Records.Shows.collect {f : β → Except Error γ} {g : α → γ} (h : r.Shows R as)
    (hf : ∀ b a, R b a → f b = .ok (g a)) : r.collect f = .ok (as.map g) := by
  obtain ⟨bs, hitems, hbs⟩ := h
  rw [Records.collect, hitems]
  exact mapM_of_forall₂ hbs hf

theorem Records.Shows.firstWhere {p : β → Bool} {q : α → Bool} {missing : Error} (h : r.Shows R as)
    (hp : ∀ b a, R b a → p b = q a) :
    Agree R (View.firstWhere p missing r.items) (lookup q missing as) := by
  obtain ⟨bs, hitems, hbs⟩ := h
  rw [hitems]
  clear hitems
  induction hbs with
  | nil => exact .error missing
  | @cons b a bs as hb _ ih =>
    rw [lookup_cons, ← hp b a hb]
    change Agree R (if p b then .ok b else View.firstWhere p missing (bs.map .ok)) _
    cases p b with
    | true => exact .ok hb
    | false => exact ih

/-! ### Records apart from each other -/

section apart
variable {clash : β → β → Bool} {e : Error} {seen : List β}

theorem length_readings (n : Nat) (s : Bytes) : (readings n s : List (Except Error β)).length ≤ n := by
  induction n generalizing s with
  | zero => exact Nat.le_refl 0
  | succ n ih =>
    rw [readings]
    split
    · exact Nat.succ_le_succ (ih _)
    · exact Nat.succ_le_succ (Nat.zero_le n)

/-- Going through fewer records gives the same, as far as it goes. -/
theorem readings_take {k : Nat} (h : k ≤ n) (s : Bytes) :
    (readings k s : List (Except Error β)) = (readings n s).take k := by
  induction k generalizing n s with
  | zero => rfl
  | succ k ih =>
    obtain ⟨n, rfl⟩ := Nat.exists_eq_add_one_of_ne_zero (Nat.ne_zero_of_lt h)
    rw [readings, readings]
    split
    · rw [List.take_succ_cons, ← ih (Nat.le_of_succ_le_succ h)]
    · rw [List.take_succ_cons, List.take_nil]

/-- The check of records against those that were seen before. -/
def apart (clash : β → β → Bool) (e : Error) (seen : List β) : List (Except Error β) → Except Error Unit
  | [] => .ok ()
  | item :: items => do
    let b ← item
    if seen.any fun a => clash a b then throw e
    apart clash e (seen ++ [b]) items

theorem checkAgainst_eq {r : Records β} {k : Nat} (b : β)
    (h : ({ r with count := k } : Records β).items = seen.map .ok) :
    r.checkAgainst clash e k b = if seen.any fun a => clash a b then .error e else .ok () := by
  rw [Records.checkAgainst, h]
  clear h
  induction seen with
  | nil => rfl
  | cons a seen ih =>
    rw [List.any_cons]
    change ((if clash a b then throw e else pure () : Except Error Unit) >>= fun _ =>
      (seen.map Except.ok).forM _) = _
    cases clash a b with
    | true => rfl
    | false => exact ih

/-- The records that are still to be checked, behind those that were. -/
theorem forM_checkAgainst {r : Records β} (todo : List (Except Error β)) (done : List β)
    (h : r.items = done.map .ok ++ todo) :
    ((todo.zipIdx done.length).forM fun (item, seen) => do
      let b ← item
      r.checkAgainst clash e seen b) = apart clash e done todo := by
  induction todo generalizing done with
  | nil => rfl
  | cons item todo ih =>
    rw [List.zipIdx_cons, apart]
    cases item with
    | error e' => rfl
    | ok b =>
      have hle : done.length ≤ r.count := by
        have := length_readings (β := β) r.count r.bytes
        rw [← Records.items, h, List.length_append, List.length_map] at this
        omega
      have hseen : ({ r with count := done.length } : Records β).items = done.map .ok := by
        rw [Records.items, readings_take hle, ← Records.items, h, List.take_left' (List.length_map _)]
      have hnext := ih (done ++ [b]) (by rw [h, List.map_append, List.append_assoc]; rfl)
      rw [List.length_append] at hnext
      change (r.checkAgainst clash e done.length b >>= fun _ => List.forM _ _) =
        (if done.any fun a => clash a b then throw e else apart clash e (done ++ [b]) todo)
      rw [checkAgainst_eq b hseen]
      split
      · rfl
      · exact hnext

/-- Reading the earlier records once more for each record changes nothing. -/
theorem checkApart_eq (r : Records β) : r.checkApart clash e = apart clash e [] r.items :=
  forM_checkAgainst r.items [] rfl

end apart

end records

end View

end PlatformGuard.Manifest
