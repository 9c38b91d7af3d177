import PlatformGuard.Proofs.HexTexts

/-!
# Forms read back what they write

What a form reads of a text that it wrote is the value that it wrote, or the text is refused.  Which of the
two it is can be said beforehand (`Form.ReadsBack`), and what can be said of a record is put together from
what can be said of its fields, in the way that the form itself is put together.
-/

namespace PlatformGuard.Json

/-! ### Numbers -/

theorem digitValue?_digitChar {n : Nat} (hn : n < 16) :
    Scan.digitValue? 16 (Bytes.digitChar n) = some n := by
  revert n
  decide

/-- Digits in base 16 are read as the number that they were written for. -/
theorem readDigits_hexDigits {max n : Nat} (hn : n ≤ max) (cs : List Char) :
    Scan.readDigits 16 max 0 (Text.hexDigits n ++ cs) = Scan.readDigits 16 max n cs := by
  induction n using Nat.strongRecOn generalizing cs with
  | ind n ih =>
    rw [Text.hexDigits]
    split
    · rename_i h
      rw [List.singleton_append, Scan.readDigits, digitValue?_digitChar h]
      simp only [Nat.mul_zero, Nat.zero_add, if_pos hn]
    · rename_i h
      have hdiv : 16 * (n / 16) + n % 16 = n := Nat.div_add_mod n 16
      rw [List.append_assoc, ih (n / 16) (by omega) (by omega), List.singleton_append, Scan.readDigits,
        digitValue?_digitChar (Nat.mod_lt n (by decide))]
      simp only [hdiv, if_pos hn]

/-- Digits start with no sign. -/
theorem exists_hexDigits (n : Nat) : ∃ c cs, Text.hexDigits n = c :: cs ∧ c ≠ '+' := by
  induction n using Nat.strongRecOn with
  | ind n ih =>
    rw [Text.hexDigits]
    split
    · rename_i h
      have hne : ∀ n < 16, Bytes.digitChar n ≠ '+' := by decide
      exact ⟨_, [], rfl, hne n h⟩
    · obtain ⟨c, cs, hc, hne⟩ := ih (n / 16) (by omega)
      exact ⟨c, cs ++ [Bytes.digitChar (n % 16)], by rw [hc]; rfl, hne⟩

theorem readRadix_writeRadix {max n : Nat} (hn : n ≤ max) :
    Scan.readRadix max ('0' :: 'x' :: Text.hexDigits n) = .ok n := by
  obtain ⟨c, cs, hc, hne⟩ := exists_hexDigits n
  have hdigits := readDigits_hexDigits hn []
  rw [List.append_nil, hc] at hdigits
  rw [hc]
  change Scan.readInteger 16 max (c :: cs) = .ok n
  unfold Scan.readInteger
  split
  · contradiction
  · rename_i h
    exact absurd (List.cons.inj h).1 hne
  · rename_i h
    exact absurd (List.cons.inj h).1 hne
  · exact hdigits

theorem asRadix_tree {max n : Nat} (hn : n ≤ max) :
    Scan.asRadix max (Form.writeRadix n).tree = .ok n := by
  change (Scan.textOf (Bytes.ofText _) true >>= fun s => Scan.readRadix max s.toList) = .ok n
  rw [textOf_ofText]
  change Scan.readRadix max (String.ofList _).toList = .ok n
  rw [String.toList_ofList, readRadix_writeRadix hn]

theorem asUnsigned_tree {bits n : Nat} (hn : n < 1 <<< bits) (hb : bits ≤ 64) :
    Scan.asUnsigned bits (Value.number n).tree = .ok n := by
  have hle : 1 <<< bits ≤ 1 <<< 64 := by
    rw [Nat.one_shiftLeft, Nat.one_shiftLeft]
    exact Nat.pow_le_pow_right (by decide) hb
  have hinteger : (numberOf n).integer? = some (n : Int) :=
    integer?_numberOf (Nat.lt_of_lt_of_le hn hle)
  simp only [Value.tree, Scan.asUnsigned, hinteger]
  rw [if_pos ⟨Int.natCast_nonneg n, hn⟩]
  rfl

/-! ### Forms -/

variable {α β : Type}

/-- What the form writes it reads back where `p` holds, and refuses elsewhere. -/
def Form.ReadsBack (form : Form α) (p : α → Bool) : Prop :=
  ∀ a, form.read (form.write a).tree = if p a then .ok a else .error .malformed

/-- A form that reads back whatever it writes. -/
def Form.Faithful (form : Form α) : Prop := form.ReadsBack fun _ => true

namespace Form

theorem ReadsBack.congr {form : Form α} {p q : α → Bool} (h : form.ReadsBack p)
    (hpq : ∀ a, p a = q a) : form.ReadsBack q := by
  rwa [← funext hpq]

theorem faithful_bool : bool.Faithful := fun _ => rfl

theorem faithful_text : text.Faithful := textOf_ofText

theorem faithful_radix8 : radix8.Faithful := by
  intro n
  have hn : n.toNat ≤ 0xff := Nat.le_of_lt_succ n.toNat_lt
  change (Scan.asRadix 0xff (writeRadix n.toNat).tree).map UInt8.ofNat = .ok n
  rw [asRadix_tree hn, Except.map, UInt8.ofNat_toNat]

theorem faithful_radix32 : radix32.Faithful := by
  intro n
  have hn : n.toNat ≤ 0xffffffff := Nat.le_of_lt_succ n.toNat_lt
  change (Scan.asRadix 0xffffffff (writeRadix n.toNat).tree).map UInt32.ofNat = .ok n
  rw [asRadix_tree hn, Except.map, UInt32.ofNat_toNat]

theorem faithful_hex : hex.Faithful := by
  intro bs
  exact (hex_read_text bs.toHex).trans (readHex_toHex bs)

/-- An alternative is had back from its name, if no other has the name. -/
theorem faithful_variant [Coded α] (h : ∀ a : α, Coded.ofName? (Coded.name a) = some a) :
    (variant : Form α).Faithful := by
  intro a
  change (Scan.textOf (Bytes.ofText (Coded.name a)) true >>= Scan.variant) = .ok a
  rw [textOf_ofText]
  change Scan.variant (Coded.name a) = .ok a
  rw [Scan.variant, h a]

theorem mapM_trees {form : Form α} {p : α → Bool} (h : form.ReadsBack p) (as : List α) :
    (Value.trees (as.map form.write)).mapM form.read =
      if as.all p then .ok as else .error .malformed := by
  induction as with
  | nil => rfl
  | cons a as ih =>
    rw [List.map_cons, Value.trees, List.mapM_cons, h a, ih, List.all_cons]
    cases p a
    · rfl
    · cases as.all p <;> rfl

theorem readsBack_list {form : Form α} {p : α → Bool} (h : form.ReadsBack p) :
    (list form).ReadsBack fun as => as.all p := by
  intro as
  change ((Value.trees (as.map form.write)).mapM form.read >>= pure) = _
  rw [mapM_trees h, bind_pure]

theorem Faithful.list {form : Form α} (h : form.Faithful) : (Form.list form).Faithful :=
  (readsBack_list h).congr fun as => by simp

/-- Bytes are read back as a byte string if none of them is zero. -/
theorem readsBack_byteString : byteString.ReadsBack fun bs => bs.all (· != 0) := by
  intro bs
  have hitems : (Value.trees (bs.map fun b => .number b.toNat)).mapM (Scan.asUnsigned 8) =
      .ok (bs.map UInt8.toNat) := by
    induction bs with
    | nil => rfl
    | cons b bs ih =>
      rw [List.map_cons, Value.trees, List.mapM_cons, asUnsigned_tree b.toNat_lt (by decide), ih]
      rfl
  have hbytes : (bs.map UInt8.toNat).map UInt8.ofNat = bs := by
    rw [List.map_map]
    exact List.map_id'' (fun _ => UInt8.ofNat_toNat) bs
  have hzeros : bs.any (· == 0) = !bs.all (· != 0) := List.any_eq_not_all_not
  change ((Value.trees (bs.map fun b => .number b.toNat)).mapM (Scan.asUnsigned 8) >>= fun ns =>
    Scan.refuseZeros (ns.map UInt8.ofNat)) = _
  rw [hitems]
  change Scan.refuseZeros ((bs.map UInt8.toNat).map UInt8.ofNat) = _
  rw [hbytes, Scan.refuseZeros, hzeros]
  change _ = if bs.all (· != 0) then _ else _
  cases bs.all (· != 0) <;> rfl

/-- An option is read back if no value is written as what stands for none. -/
theorem Faithful.option {form : Form α} (h : form.Faithful)
    (hnull : ∀ a, (form.write a).tree ≠ .null) : (Form.option form).Faithful := by
  intro a
  cases a with
  | none => rfl
  | some a =>
    have hread : Scan.asOption form.read (form.write a).tree = (form.read (form.write a).tree).map some := by
      unfold Scan.asOption
      split
      · rename_i hn
        exact absurd hn (hnull a)
      · rfl
    change Scan.asOption form.read (form.write a).tree = _
    rw [hread, h a]
    rfl

end Form

/-! ### Members -/

/-- What was written follows the grammar. -/
theorem isSound_tree (v : Value) : v.tree.isSound = true := by
  induction v using Value.induction with
  | null | bool | number | text => rfl
  | array vs ih =>
    have hall : Scan.allSound (Value.trees vs) = true := by
      induction vs with
      | nil => rfl
      | cons v vs hvs =>
        obtain ⟨hv, ih⟩ := List.forall_mem_cons.1 ih
        rw [Value.trees, Scan.allSound, hv, hvs ih]
        rfl
    rw [Value.tree, Scan.isSound, hall]
    rfl
  | object ms ih =>
    have hall : Scan.allMembersSound (Value.memberTrees ms) = true := by
      induction ms with
      | nil => rfl
      | cons m ms hms =>
        obtain ⟨hm, ih⟩ := List.forall_mem_cons.1 ih
        rw [Value.memberTrees, Scan.allMembersSound, hm, hms ih]
        rfl
    rw [Value.tree, Scan.isSound, hall]
    rfl

/-- Takes in members one after the other, and leaves out those that are no fields. -/
def collect {σ : Type} (put : σ → String → Scan → Option (Except Error σ)) (s : σ) :
    List (String × Value) → Except Error σ
  | [] => .ok s
  | m :: ms => (put s m.1 m.2.tree).getD (.ok s) >>= fun t => collect put t ms

theorem collect_append {σ : Type} (put : σ → String → Scan → Option (Except Error σ)) (s : σ)
    (ms ns : List (String × Value)) :
    collect put s (ms ++ ns) = collect put s ms >>= fun t => collect put t ns := by
  induction ms generalizing s with
  | nil => rfl
  | cons m ms ih =>
    rw [List.cons_append, collect, collect, bind_assoc]
    exact congrArg _ (funext fun t => ih t)

/-! ### Fields -/

namespace Fields

/-- A record that was written is read member by member. -/
theorem foldlM_member (f : Fields α) (s : f.Slots) (ms : List (String × Value)) :
    (Value.memberTrees ms).foldlM f.member s = collect f.put s ms := by
  have hmember : ∀ (s : f.Slots) (m : String × Value),
      f.member s (Bytes.ofText m.1, true, m.2.tree) = (f.put s m.1 m.2.tree).getD (.ok s) := by
    intro s m
    unfold member
    rw [textOf_ofText]
    simp only [bind, Except.bind, isSound_tree, if_true]
    cases f.put s m.1 m.2.tree <;> rfl
  induction ms generalizing s with
  | nil => rfl
  | cons m ms ih =>
    rw [Value.memberTrees, List.foldlM_cons, hmember, collect]
    exact congrArg _ (funext fun t => ih t)

/-- What the fields write they collect where `p` holds, and refuse elsewhere.  They take in no members
but those with their names. -/
structure ReadsBack (f : Fields α) (p : α → Bool) : Prop where
  put_isSome : ∀ s n v, (f.put s n v).isSome = true ↔ n ∈ f.names
  names : ∀ a, ∀ m ∈ f.members a, m.1 ∈ f.names
  accept : ∀ a, p a = true → ∃ s, collect f.put f.empty (f.members a) = .ok s ∧ f.finish s = .ok a
  refuse : ∀ a, p a = false → collect f.put f.empty (f.members a) = .error .malformed

/-- Fields that are read back whatever they hold. -/
def Faithful (f : Fields α) : Prop := f.ReadsBack fun _ => true

theorem ReadsBack.congr {f : Fields α} {p q : α → Bool} (hf : f.ReadsBack p)
    (hpq : ∀ a, p a = q a) : f.ReadsBack q := by
  rwa [← funext hpq]

theorem ReadsBack.put_eq_none {f : Fields α} {p : α → Bool} (hf : f.ReadsBack p) {n : String}
    (hn : n ∉ f.names) (s : f.Slots) (v : Scan) : f.put s n v = none := by
  rw [← Option.not_isSome_iff_eq_none]
  exact fun h => hn ((hf.put_isSome s n v).1 h)

/-! ### Single fields -/

section single
variable {form : Form α} {p : α → Bool} {name : String} {default : Option α} {hidden : α → Bool}

theorem members_hidden {a : α} (ha : hidden a = true) :
    (field name form default hidden).members a = [] := if_pos ha

theorem members_shown {a : α} (ha : hidden a = false) :
    (field name form default hidden).members a = [(name, form.write a)] := if_neg (by simp [ha])

/-- A field that is written is read by its form. -/
theorem collect_field (a : α) :
    collect (field name form default hidden).put (field name form default hidden).empty
      [(name, form.write a)] = (form.read (form.write a).tree).map some := by
  have hput : (field name form default hidden).put (field name form default hidden).empty name
      (form.write a).tree = some ((form.read (form.write a).tree).map some) := if_pos rfl
  rw [collect, hput]
  cases form.read (form.write a).tree <;> rfl

/-- A field is read back where its form does so, and where it is left out for its default. -/
theorem readsBack_field (h : form.ReadsBack p) (hd : ∀ a, hidden a = true → default = some a) :
    (field name form default hidden).ReadsBack fun a => hidden a || p a where
  put_isSome s n v := by
    simp only [field, List.mem_singleton]
    by_cases hn : n = name
    · cases s <;> simp [hn]
    · simp [hn]
  names a m hm := by
    simp only [field] at hm
    split at hm
    · cases hm
    · obtain rfl := List.mem_singleton.1 hm
      exact List.mem_singleton_self name
  accept a ha := by
    cases hh : hidden a with
    | true =>
      rw [members_hidden hh]
      refine ⟨none, rfl, ?_⟩
      obtain rfl := hd a hh
      rfl
    | false =>
      rw [hh, Bool.false_or] at ha
      rw [members_shown hh, collect_field, h a, if_pos ha]
      exact ⟨some a, rfl, rfl⟩
  refuse a ha := by
    obtain ⟨hh, hp⟩ := Bool.or_eq_false_iff.1 ha
    rw [members_shown hh, collect_field, h a, hp]
    rfl

theorem readsBack_required (h : form.ReadsBack p) : (required name form).ReadsBack p :=
  readsBack_field h fun _ => nofun

theorem readsBack_defaulted (h : form.ReadsBack p) (d : α) : (defaulted name form d).ReadsBack p :=
  readsBack_field h fun _ => nofun

theorem faithful_omissible [BEq α] [LawfulBEq α] (h : form.Faithful) (d : α) :
    (omissible name form d).Faithful :=
  (readsBack_field h fun _ ha => congrArg some (beq_iff_eq.1 ha).symm).congr fun _ => Bool.or_true _

end single

/-! ### Groups of fields -/

section both
variable {f : Fields α} {g : Fields β} {p : α → Bool} {q : β → Bool} {ms : List (String × Value)}

/-- The slots of two groups. -/
def slots (s : f.Slots) (t : g.Slots) : (f.both g).Slots := (s, t)

theorem put_left {s : f.Slots} {n : String} {v : Scan} {r : Except Error f.Slots}
    (h : f.put s n v = some r) (t : g.Slots) :
    (f.both g).put (slots s t) n v = some (r.map fun s => slots s t) := by
  simp only [both, slots, h]

theorem put_right {s : f.Slots} {n : String} {v : Scan} (h : f.put s n v = none) (t : g.Slots) :
    (f.both g).put (slots s t) n v = (g.put t n v).map fun r => r.map fun t => slots s t := by
  simp only [both, slots, h]

/-- Members of the first group do not touch the slots of the second. -/
theorem collect_left (hf : f.ReadsBack p) (hms : ∀ m ∈ ms, m.1 ∈ f.names) (s : f.Slots)
    (t : g.Slots) : collect (f.both g).put (slots s t) ms = (collect f.put s ms).map fun s => slots s t := by
  induction ms generalizing s with
  | nil => rfl
  | cons m ms ih =>
    obtain ⟨hm, hms⟩ := List.forall_mem_cons.1 hms
    obtain ⟨r, hr⟩ := Option.isSome_iff_exists.1 ((hf.put_isSome s m.1 m.2.tree).2 hm)
    rw [collect, collect, put_left hr, hr]
    cases r with
    | error e => rfl
    | ok s => exact ih hms s

/-- Members that are none of the first group do not touch the slots of it. -/
theorem collect_right (hf : f.ReadsBack p) (hms : ∀ m ∈ ms, m.1 ∉ f.names) (s : f.Slots)
    (t : g.Slots) : collect (f.both g).put (slots s t) ms = (collect g.put t ms).map fun t => slots s t := by
  induction ms generalizing t with
  | nil => rfl
  | cons m ms ih =>
    obtain ⟨hm, hms⟩ := List.forall_mem_cons.1 hms
    rw [collect, collect, put_right (hf.put_eq_none hm s _)]
    rcases g.put t m.1 m.2.tree with _ | e | t'
    · exact ih hms t
    · rfl
    · exact ih hms t'

/-- Two groups without a name in common are read back where both are. -/
theorem ReadsBack.both (hf : f.ReadsBack p) (hg : g.ReadsBack q)
    (hdisjoint : ∀ n ∈ g.names, n ∉ f.names) : (f.both g).ReadsBack fun a => p a.1 && q a.2 where
  put_isSome s n v := by
    change ((f.both g).put (slots s.1 s.2) n v).isSome = true ↔ n ∈ f.names ++ g.names
    rw [List.mem_append, ← hf.put_isSome s.1 n v, ← hg.put_isSome s.2 n v]
    cases h : f.put s.1 n v with
    | some r => simp [put_left h]
    | none => simp [put_right h]
  names a m hm := by
    change m.1 ∈ f.names ++ g.names
    rcases List.mem_append.1 hm with hm | hm
    · exact List.mem_append_left _ (hf.names a.1 m hm)
    · exact List.mem_append_right _ (hg.names a.2 m hm)
  accept a ha := by
    obtain ⟨hp, hq⟩ := Bool.and_eq_true_iff.1 ha
    obtain ⟨s, hs, hsa⟩ := hf.accept a.1 hp
    obtain ⟨t, ht, hta⟩ := hg.accept a.2 hq
    have hms : ∀ m ∈ g.members a.2, m.1 ∉ f.names := fun m hm => hdisjoint _ (hg.names a.2 m hm)
    refine ⟨slots s t, ?_, ?_⟩
    · change collect (f.both g).put (slots f.empty g.empty) (f.members a.1 ++ g.members a.2) = _
      rw [collect_append, collect_left hf (hf.names a.1), hs]
      change collect (f.both g).put (slots s g.empty) (g.members a.2) = _
      rw [collect_right hf hms, ht]
      rfl
    · change (f.finish s >>= fun x => g.finish t >>= fun y => Except.ok (x, y)) = .ok a
      rw [hsa, hta]
      rfl
  refuse a ha := by
    have hms : ∀ m ∈ g.members a.2, m.1 ∉ f.names := fun m hm => hdisjoint _ (hg.names a.2 m hm)
    change collect (f.both g).put (slots f.empty g.empty) (f.members a.1 ++ g.members a.2) = _
    rw [collect_append, collect_left hf (hf.names a.1)]
    -- the first group is refused, or it is taken in and the second is refused
    cases hp : p a.1 with
    | false =>
      rw [hf.refuse a.1 hp]
      rfl
    | true =>
      rw [hp, Bool.true_and] at ha
      obtain ⟨s, hs, -⟩ := hf.accept a.1 hp
      rw [hs]
      change collect (f.both g).put (slots s g.empty) (g.members a.2) = _
      rw [collect_right hf hms, hg.refuse a.2 ha]
      rfl

theorem Faithful.both (hf : f.Faithful) (hg : g.Faithful) (hdisjoint : ∀ n ∈ g.names, n ∉ f.names) :
    (f.both g).Faithful := ReadsBack.both hf hg hdisjoint

theorem Faithful.both_readsBack (hf : f.Faithful) (hg : g.ReadsBack q)
    (hdisjoint : ∀ n ∈ g.names, n ∉ f.names) : (f.both g).ReadsBack fun a => q a.2 :=
  ReadsBack.both hf hg hdisjoint

theorem ReadsBack.both_faithful (hf : f.ReadsBack p) (hg : g.Faithful)
    (hdisjoint : ∀ n ∈ g.names, n ∉ f.names) : (f.both g).ReadsBack fun a => p a.1 :=
  (hf.both hg hdisjoint).congr fun _ => Bool.and_true _

end both

/-! ### Records -/

theorem ReadsBack.convert {f : Fields α} {p : α → Bool} (hf : f.ReadsBack p) {make : α → β}
    {parts : β → α} (h : ∀ b, make (parts b) = b) :
    (f.convert make parts).ReadsBack fun b => p (parts b) where
  put_isSome := hf.put_isSome
  names b := hf.names (parts b)
  accept b hb := by
    obtain ⟨s, hs, ha⟩ := hf.accept (parts b) hb
    refine ⟨s, hs, ?_⟩
    change (f.finish s).map make = .ok b
    rw [ha, Except.map, h]
  refuse b := hf.refuse (parts b)

theorem ReadsBack.form {f : Fields α} {p : α → Bool} (hf : f.ReadsBack p) : f.form.ReadsBack p := by
  intro a
  change ((Value.memberTrees (f.members a)).foldlM f.member f.empty >>= f.finish) = _
  rw [foldlM_member]
  cases ha : p a with
  | true =>
    obtain ⟨s, hs, hfinish⟩ := hf.accept a ha
    rw [hs]
    exact hfinish
  | false =>
    rw [hf.refuse a ha]
    rfl

/-- A record is read back where its fields are, if nothing is lost when it is taken apart. -/
theorem ReadsBack.record {f : Fields α} {p : α → Bool} {q : β → Bool} (hf : f.ReadsBack p)
    {make : α → β} {parts : β → α} (h : ∀ b, make (parts b) = b) (hpq : ∀ b, p (parts b) = q b) :
    (f.convert make parts).form.ReadsBack q :=
  ((hf.convert h).congr hpq).form

theorem Faithful.record {f : Fields α} (hf : f.Faithful) {make : α → β} {parts : β → α}
    (h : ∀ b, make (parts b) = b) : (f.convert make parts).form.Faithful :=
  ReadsBack.record hf h fun _ => rfl

end Fields

/-! ### Whole texts -/

/-- What is scanned as the tree of what a form wrote is read back by the form, or refused. -/
theorem Form.ReadsBack.read_document {form : Form α} {p : α → Bool} (h : form.ReadsBack p) {a : α}
    {text : Bytes} (ht : Scan.document text = ((form.write a).tree, true)) :
    Json.read form text = if p a then .ok a else .error .malformed := by
  rw [Json.read, ht]
  change (form.read (form.write a).tree >>= pure) = _
  rw [bind_pure, h a]

/-- **A form reads back the text of what it wrote**, compact or indented, or it refuses both. -/
theorem Form.ReadsBack.read_render {form : Form α} {p : α → Bool} (h : form.ReadsBack p) (a : α) :
    Json.read form (Bytes.ofText (form.write a).render) = if p a then .ok a else .error .malformed :=
  h.read_document (Scan.document_render _)

theorem Form.ReadsBack.read_renderIndented {form : Form α} {p : α → Bool} (h : form.ReadsBack p)
    (a : α) : Json.read form (Bytes.ofText (form.write a).renderIndented) =
      if p a then .ok a else .error .malformed :=
  h.read_document (Scan.document_renderIndented _)

end PlatformGuard.Json
