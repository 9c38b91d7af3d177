import PlatformGuard.Proofs.Tokens

/-!
# Texts that are written can be scanned

Both texts of a value are spellings of it: the same tokens, with blanks in different places.  A scanner that
meets a spelling, with anything behind it that ends a value, takes all of it and nothing else, and what it
makes of it is the tree of the value (`Scan.value_spell`).  So the compact text and the indented one are
understood alike.

The fuel of the scanner is counted in characters: twice the length of a spelling is enough for it.
-/

namespace PlatformGuard.Json

/-! ### Trees of values -/

namespace Value

/-- What holds of a value if it holds of its parts holds of every value. -/
theorem induction {P : Value → Prop} (null : P .null) (bool : ∀ b, P (.bool b))
    (number : ∀ n, P (.number n)) (text : ∀ s, P (.text s))
    (array : ∀ vs, (∀ v ∈ vs, P v) → P (.array vs))
    (object : ∀ ms, (∀ m ∈ ms, P m.2) → P (.object ms)) (v : Value) : P v :=
  @Value.rec P (fun vs => ∀ v ∈ vs, P v) (fun ms => ∀ m ∈ ms, P m.2) (fun m => P m.2)
    null bool number text array object (by simp)
    (fun _ _ hv hvs => List.forall_mem_cons.2 ⟨hv, hvs⟩) (by simp)
    (fun _ _ hm hms => List.forall_mem_cons.2 ⟨hm, hms⟩) (fun _ _ hv => hv) v

mutual

/-- The tree that a scanner makes of a text of the value. -/
def tree : Value → Scan
  | null => .null
  | bool b => .bool b
  | number n => .number (numberOf n)
  | text s => .string (Bytes.ofText s) true
  | array items => .array (trees items) true
  | object members => .object (memberTrees members) true

def trees : List Value → List Scan
  | [] => []
  | v :: vs => v.tree :: trees vs

def memberTrees : List (String × Value) → List (Bytes × Bool × Scan)
  | [] => []
  | (k, v) :: ms => (Bytes.ofText k, true, v.tree) :: memberTrees ms

end

end Value

/-! ### Spellings -/

/-- Where the blanks of a text stand. -/
structure Layout where
  /-- In front of what stands on a level. -/
  gap : (level : Nat) → List Char
  /-- Behind a colon. -/
  space : List Char
  gap_blank : ∀ level, ∀ b ∈ bytesOf (gap level), Mark.isBlank b = true
  space_blank : ∀ b ∈ bytesOf space, Mark.isBlank b = true

namespace Layout

/-- No blanks at all. -/
def compact : Layout where
  gap _ := []
  space := []
  gap_blank _ := by simp
  space_blank := by simp

/-- One item or member on a line. -/
def indented : Layout where
  gap := Value.lineBreak
  space := [' ']
  gap_blank level := by
    have hblanks : ∀ n, ∀ b ∈ bytesOf (List.replicate n ' '), b = 0x20 := by
      intro n
      induction n with
      | zero => simp
      | succ n ih =>
        rw [List.replicate_succ, bytesOf_cons_of_le (by decide)]
        exact List.forall_mem_cons.2 ⟨rfl, ih⟩
    rw [Value.lineBreak, bytesOf_cons_of_le (by decide)]
    refine List.forall_mem_cons.2 ⟨rfl, fun b hb => ?_⟩
    rw [hblanks _ b hb]
    rfl
  space_blank := by
    rw [bytesOf_cons_of_le (by decide)]
    exact List.forall_mem_singleton.2 rfl

mutual

/-- The text of a value at a level of nesting. -/
def spell (l : Layout) (level : Nat) : Value → List Char
  | .null => Json.null
  | .bool b => Json.bool b
  | .number n => (toString n).toList
  | .text s => quote s
  | .array [] => ['[', ']']
  | .array items =>
    '[' :: l.gap (level + 1) ++ spellItems l (level + 1) items ++ l.gap level ++ [']']
  | .object [] => [openBrace, closeBrace]
  | .object members =>
    openBrace :: l.gap (level + 1) ++ spellMembers l (level + 1) members ++ l.gap level ++ [closeBrace]

def spellItems (l : Layout) (level : Nat) : List Value → List Char
  | [] => []
  | [v] => spell l level v
  | v :: vs => spell l level v ++ ',' :: l.gap level ++ spellItems l level vs

def spellMembers (l : Layout) (level : Nat) : List (String × Value) → List Char
  | [] => []
  | [(k, v)] => quote k ++ ':' :: l.space ++ spell l level v
  | (k, v) :: ms =>
    quote k ++ ':' :: l.space ++ spell l level v ++ ',' :: l.gap level ++ spellMembers l level ms

end

section lists
variable (l : Layout) (level : Nat) (v w : Value) (vs : List Value) (m n : String × Value)
  (ms : List (String × Value))

theorem spell_array : l.spell level (.array (v :: vs)) =
    '[' :: l.gap (level + 1) ++ l.spellItems (level + 1) (v :: vs) ++ l.gap level ++ [']'] := rfl

theorem spell_object : l.spell level (.object (m :: ms)) =
    openBrace :: l.gap (level + 1) ++ l.spellMembers (level + 1) (m :: ms) ++ l.gap level ++
      [closeBrace] := rfl

theorem spellItems_cons : l.spellItems level (v :: w :: vs) =
    l.spell level v ++ ',' :: l.gap level ++ l.spellItems level (w :: vs) := rfl

theorem spellMembers_singleton : l.spellMembers level [m] =
    quote m.1 ++ ':' :: l.space ++ l.spell level m.2 := rfl

theorem spellMembers_cons : l.spellMembers level (m :: n :: ms) =
    quote m.1 ++ ':' :: l.space ++ l.spell level m.2 ++ ',' :: l.gap level ++
      l.spellMembers level (n :: ms) := rfl

end lists

/-- The compact text is a spelling. -/
theorem spell_compact (v : Value) (level : Nat) : compact.spell level v = v.compact := by
  induction v using Value.induction generalizing level with
  | null | bool | number | text => rfl
  | array vs ih =>
    have hitems : compact.spellItems (level + 1) vs = Value.compactItems vs := by
      induction vs with
      | nil => rfl
      | cons v vs hvs =>
        obtain ⟨hv, ih⟩ := List.forall_mem_cons.1 ih
        cases vs with
        | nil => exact hv _
        | cons w vs =>
          rw [spellItems_cons, hv, hvs ih]
          exact List.append_assoc _ [','] _
    cases vs with
    | nil => rfl
    | cons v vs =>
      rw [spell_array, hitems]
      exact congrArg (· ++ [']']) (List.append_nil _)
  | object ms ih =>
    have hmembers : compact.spellMembers (level + 1) ms = Value.compactMembers ms := by
      induction ms with
      | nil => rfl
      | cons m ms hms =>
        obtain ⟨hm, ih⟩ := List.forall_mem_cons.1 ih
        cases ms with
        | nil =>
          rw [spellMembers_singleton, hm]
          exact List.append_assoc _ [':'] _
        | cons n ms =>
          rw [spellMembers_cons, hm, hms ih]
          change _ = quote m.1 ++ ':' :: m.2.compact ++ ',' :: Value.compactMembers (n :: ms)
          simp [compact]
    cases ms with
    | nil => rfl
    | cons m ms =>
      rw [spell_object, hmembers]
      exact congrArg (· ++ [closeBrace]) (List.append_nil _)

/-- The indented text is a spelling. -/
theorem spell_indented (v : Value) (level : Nat) : indented.spell level v = v.indented level := by
  induction v using Value.induction generalizing level with
  | null | bool | number | text => rfl
  | array vs ih =>
    have hitems : indented.spellItems (level + 1) vs = Value.indentedItems (level + 1) vs := by
      induction vs with
      | nil => rfl
      | cons v vs hvs =>
        obtain ⟨hv, ih⟩ := List.forall_mem_cons.1 ih
        cases vs with
        | nil => exact hv _
        | cons w vs =>
          rw [spellItems_cons, hv, hvs ih]
          rfl
    cases vs with
    | nil => rfl
    | cons v vs =>
      rw [spell_array, hitems]
      rfl
  | object ms ih =>
    have hmembers : indented.spellMembers (level + 1) ms = Value.indentedMembers (level + 1) ms := by
      induction ms with
      | nil => rfl
      | cons m ms hms =>
        obtain ⟨hm, ih⟩ := List.forall_mem_cons.1 ih
        cases ms with
        | nil =>
          rw [spellMembers_singleton, hm]
          exact List.append_assoc _ [':', ' '] _
        | cons n ms =>
          rw [spellMembers_cons, hm, hms ih]
          change _ = quote m.1 ++ ':' :: ' ' :: m.2.indented (level + 1) ++
            ',' :: Value.lineBreak (level + 1) ++ Value.indentedMembers (level + 1) (n :: ms)
          simp [indented]
    cases ms with
    | nil => rfl
    | cons m ms =>
      rw [spell_object, hmembers]
      rfl

end Layout

/-! ### Blanks -/

theorem skipBlanks_append {a s : Bytes} (ha : ∀ b ∈ a, Mark.isBlank b = true)
    (hs : ∀ b ∈ s.head?, Mark.isBlank b = false) : skipBlanks (a ++ s) = s := by
  rw [skipBlanks, List.dropWhile_append_of_pos ha]
  cases s with
  | nil => rfl
  | cons b s => exact List.dropWhile_cons_of_neg (by simp [hs b rfl])

/-- What stands in front of a blank may stand in front of any number of them. -/
theorem Stops.append {a s : Bytes} (ha : ∀ b ∈ a, Mark.isBlank b = true) (hs : Stops s) :
    Stops (a ++ s) := by
  cases a with
  | nil => exact hs
  | cons b a =>
    intro c hc
    obtain rfl : b = c := Option.some.inj hc
    exact .inl (ha b List.mem_cons_self)

/-- The first byte of a value: neither a blank nor the end of an array. -/
def Starts (s : Bytes) : Prop :=
  ∃ b t, s = b :: t ∧ Mark.isBlank b = false ∧ b ≠ Mark.closeBracket

theorem Starts.head {s : Bytes} (hs : Starts s) : ∀ b ∈ s.head?, Mark.isBlank b = false := by
  obtain ⟨b, s, rfl, hb, -⟩ := hs
  intro c hc
  obtain rfl : b = c := Option.some.inj hc
  exact hb

theorem starts_of_isDigit {b : UInt8} (hb : Mark.isDigit b = true) (t : Bytes) : Starts (b :: t) := by
  refine ⟨b, t, rfl, ?_, ?_⟩
  · rw [Bool.eq_false_iff]
    intro h
    simp only [Mark.isBlank, Bool.or_eq_true, beq_iff_eq] at h
    rcases h with ((rfl | rfl) | rfl) | rfl
    all_goals exact absurd hb (by decide)
  · rintro rfl
    exact absurd hb (by decide)

/-- A number starts with a digit. -/
theorem exists_digit (n : Nat) : ∃ b t, bytesOf (Nat.toDigits 10 n) = b :: t ∧ Mark.isDigit b = true := by
  cases hc : Nat.toDigits 10 n with
  | nil => exact absurd hc Nat.toDigits_ne_nil
  | cons c cs =>
    have hd : c.isDigit = true :=
      Nat.isDigit_of_mem_toDigits (b := 10) (n := n) (by decide) (by decide) (by simp [hc])
    obtain ⟨hle, hb, -⟩ := isDigit_byte hd
    exact ⟨_, _, bytesOf_cons_of_le hle cs, hb⟩

namespace Scan

/-! ### Words and numbers -/

theorem value_null (fuel : Nat) (rest : Bytes) :
    value (fuel + 1) (bytesOf Json.null ++ rest) = (null, some rest) := rfl

theorem value_bool (fuel : Nat) (b : Bool) (rest : Bytes) :
    value (fuel + 1) (bytesOf (Json.bool b) ++ rest) = (bool b, some rest) := by
  cases b
  · rfl
  · rfl

theorem value_number (fuel n : Nat) {rest : Bytes} (hr : Stops rest) :
    value (fuel + 1) (bytesOf (toString n).toList ++ rest) = (number (numberOf n), some rest) := by
  obtain ⟨b, t, hb, hd⟩ := exists_digit n
  have hscan := scanNumber_append n hr
  have hlist : (toString n).toList = Nat.toDigits 10 n := Nat.toList_repr
  rw [hlist]
  rw [hb, List.cons_append] at hscan ⊢
  have hne : ∀ c : UInt8, Mark.isDigit c = false → c ≠ b := by
    rintro c hc rfl
    rw [hc] at hd
    cases hd
  have hwords : ∀ w ∈ words, w.1.isPrefixOf (b :: (t ++ rest)) = false := by
    have hn := hne 0x6e rfl
    have ht := hne 0x74 rfl
    have hf := hne 0x66 rfl
    change ∀ w ∈ [([0x6e, 0x75, 0x6c, 0x6c], null), ([0x74, 0x72, 0x75, 0x65], bool true),
      ([0x66, 0x61, 0x6c, 0x73, 0x65], bool false)], _
    simp [List.isPrefixOf, hn, ht, hf]
  rw [value]
  · rw [scalar, List.find?_eq_none.2]
    · simp only [hscan]
    · intro w hw
      rw [Bool.not_eq_true]
      exact hwords w hw
  · intro s hs
    exact hne Mark.quote rfl (List.cons.inj hs).1.symm
  · intro s hs
    exact hne Mark.openBracket rfl (List.cons.inj hs).1.symm
  · intro s hs
    exact hne Mark.openBrace rfl (List.cons.inj hs).1.symm

/-! ### Texts -/

theorem bytesOf_quote (s : String) (rest : Bytes) : bytesOf (quote s) ++ rest =
    Mark.quote :: (bytesOf (s.toList.flatMap escape) ++ Mark.quote :: rest) := by
  have hquote : quote s = ['"'] ++ s.toList.flatMap escape ++ ['"'] := rfl
  rw [hquote, bytesOf_append, bytesOf_append, List.append_assoc, List.append_assoc]
  rfl

theorem value_text (fuel : Nat) (s : String) (rest : Bytes) :
    value (fuel + 1) (bytesOf (quote s) ++ rest) = (string (Bytes.ofText s) true, some rest) := by
  obtain ⟨ps, hscan, hps⟩ := scanPieces_quoted s.toList rest
  rw [bytesOf_quote]
  refine (value.eq_2 fuel _).trans ?_
  rw [hscan]
  simp only [hps]
  rfl

/-! ### Arrays -/

theorem value_array {fuel : Nat} {s t : Bytes} (hskip : skipBlanks s = t) (ht : Starts t) :
    value (fuel + 1) (Mark.openBracket :: s) =
      (array (elements fuel t).1 (elements fuel t).2.isSome, (elements fuel t).2) := by
  obtain ⟨b, t, rfl, -, hb⟩ := ht
  refine (value.eq_3 fuel s).trans ?_
  rw [hskip]
  split
  · rename_i h
    exact absurd (List.cons.inj h).1 hb
  · rfl

theorem elements_last {fuel : Nat} {s r rest : Bytes} {v : Scan} (hv : value fuel s = (v, some r))
    (hr : skipBlanks r = Mark.closeBracket :: rest) : elements (fuel + 1) s = ([v], some rest) := by
  simp only [elements, hv, Option.map_some, hr]
  rfl

theorem elements_comma {fuel : Nat} {s r t rest : Bytes} {v : Scan} {vs : List Scan}
    (hv : value fuel s = (v, some r)) (hr : skipBlanks r = Mark.comma :: t)
    (hvs : elements fuel (skipBlanks t) = (vs, some rest)) :
    elements (fuel + 1) s = (v :: vs, some rest) := by
  simp only [elements, hv, Option.map_some, hr]
  change (v :: (elements fuel (skipBlanks t)).1, (elements fuel (skipBlanks t)).2) = _
  rw [hvs]

/-! ### Objects -/

theorem value_object {fuel : Nat} {s t : Bytes} (hskip : skipBlanks s = Mark.quote :: t) :
    value (fuel + 1) (Mark.openBrace :: s) =
      (object (members fuel (Mark.quote :: t)).1 (members fuel (Mark.quote :: t)).2.isSome,
        (members fuel (Mark.quote :: t)).2) := by
  refine (value.eq_4 fuel s).trans ?_
  rw [hskip]
  rfl

theorem skipBlanks_colon (s : Bytes) : skipBlanks (Mark.colon :: s) = Mark.colon :: s := rfl

theorem members_last {fuel : Nat} {k : String} {s r rest : Bytes} {v : Scan}
    (hv : value fuel (skipBlanks s) = (v, some r)) (hr : skipBlanks r = Mark.closeBrace :: rest) :
    members (fuel + 1) (bytesOf (quote k) ++ Mark.colon :: s) =
      ([(Bytes.ofText k, true, v)], some rest) := by
  obtain ⟨ps, hscan, hps⟩ := scanPieces_quoted k.toList (Mark.colon :: s)
  rw [bytesOf_quote]
  refine (members.eq_2 fuel _).trans ?_
  rw [hscan]
  simp only [skipBlanks_colon, hps]
  split
  · rename_i h
    obtain ⟨-, rfl⟩ := List.cons.inj h
    simp only [hv, Option.map_some, hr]
    rfl
  · rename_i h
    exact absurd rfl (h s)

theorem members_comma {fuel : Nat} {k : String} {s r t rest : Bytes} {v : Scan}
    {ms : List (Bytes × Bool × Scan)} (hv : value fuel (skipBlanks s) = (v, some r))
    (hr : skipBlanks r = Mark.comma :: t) (hms : members fuel (skipBlanks t) = (ms, some rest)) :
    members (fuel + 1) (bytesOf (quote k) ++ Mark.colon :: s) =
      ((Bytes.ofText k, true, v) :: ms, some rest) := by
  obtain ⟨ps, hscan, hps⟩ := scanPieces_quoted k.toList (Mark.colon :: s)
  rw [bytesOf_quote]
  refine (members.eq_2 fuel _).trans ?_
  rw [hscan]
  simp only [skipBlanks_colon, hps]
  split
  · rename_i h
    obtain ⟨-, rfl⟩ := List.cons.inj h
    simp only [hv, Option.map_some, hr]
    change ((Bytes.ofText k, true, v) :: (members fuel (skipBlanks t)).1,
      (members fuel (skipBlanks t)).2) = _
    rw [hms]
  · rename_i h
    exact absurd rfl (h s)

/-! ### Spellings -/

section spellings
variable {l : Layout} {level fuel : Nat}

theorem bytesOf_array (v : Value) (vs : List Value) (rest : Bytes) :
    bytesOf (l.spell level (.array (v :: vs))) ++ rest = Mark.openBracket ::
      (bytesOf (l.gap (level + 1)) ++ (bytesOf (l.spellItems (level + 1) (v :: vs)) ++
        (bytesOf (l.gap level) ++ Mark.closeBracket :: rest))) := by
  rw [Layout.spell_array]
  simp only [bytesOf_append, bytesOf_cons, List.append_assoc]
  rfl

theorem bytesOf_items (v w : Value) (vs : List Value) (rest : Bytes) :
    bytesOf (l.spellItems level (v :: w :: vs)) ++ rest = bytesOf (l.spell level v) ++
      Mark.comma :: (bytesOf (l.gap level) ++ (bytesOf (l.spellItems level (w :: vs)) ++ rest)) := by
  rw [Layout.spellItems_cons]
  simp only [bytesOf_append, bytesOf_cons, List.append_assoc]
  rfl

theorem bytesOf_object (m : String × Value) (ms : List (String × Value)) (rest : Bytes) :
    bytesOf (l.spell level (.object (m :: ms))) ++ rest = Mark.openBrace ::
      (bytesOf (l.gap (level + 1)) ++ (bytesOf (l.spellMembers (level + 1) (m :: ms)) ++
        (bytesOf (l.gap level) ++ Mark.closeBrace :: rest))) := by
  rw [Layout.spell_object]
  simp only [bytesOf_append, bytesOf_cons, List.append_assoc]
  rfl

theorem bytesOf_member (m : String × Value) (rest : Bytes) :
    bytesOf (l.spellMembers level [m]) ++ rest = bytesOf (quote m.1) ++
      Mark.colon :: (bytesOf l.space ++ (bytesOf (l.spell level m.2) ++ rest)) := by
  rw [Layout.spellMembers_singleton]
  simp only [bytesOf_append, bytesOf_cons, List.append_assoc]
  rfl

theorem bytesOf_members (m n : String × Value) (ms : List (String × Value)) (rest : Bytes) :
    bytesOf (l.spellMembers level (m :: n :: ms)) ++ rest = bytesOf (quote m.1) ++
      Mark.colon :: (bytesOf l.space ++ (bytesOf (l.spell level m.2) ++ Mark.comma ::
        (bytesOf (l.gap level) ++ (bytesOf (l.spellMembers level (n :: ms)) ++ rest)))) := by
  rw [Layout.spellMembers_cons]
  simp only [bytesOf_append, bytesOf_cons, List.append_assoc]
  rfl

/-- A spelling starts as a value does. -/
theorem starts_spell (v : Value) (rest : Bytes) : Starts (bytesOf (l.spell level v) ++ rest) := by
  cases v with
  | null => exact ⟨_, _, rfl, rfl, by decide⟩
  | bool b => cases b <;> exact ⟨_, _, rfl, rfl, by decide⟩
  | number n =>
    obtain ⟨b, t, hb, hd⟩ := exists_digit n
    have hlist : l.spell level (.number n) = Nat.toDigits 10 n := Nat.toList_repr
    rw [hlist, hb]
    exact starts_of_isDigit hd _
  | text s => exact ⟨_, _, bytesOf_quote s rest, rfl, by decide⟩
  | array vs => cases vs <;> exact ⟨_, _, rfl, rfl, by decide⟩
  | object ms => cases ms <;> exact ⟨_, _, rfl, rfl, by decide⟩

theorem starts_spellItems (v : Value) (vs : List Value) (rest : Bytes) :
    Starts (bytesOf (l.spellItems level (v :: vs)) ++ rest) := by
  cases vs with
  | nil => exact starts_spell v rest
  | cons w vs =>
    rw [bytesOf_items]
    exact starts_spell v _

theorem exists_quote_spellMembers (m : String × Value) (ms : List (String × Value)) (rest : Bytes) :
    ∃ t, bytesOf (l.spellMembers level (m :: ms)) ++ rest = Mark.quote :: t := by
  cases ms with
  | nil => exact ⟨_, (bytesOf_member m rest).trans (bytesOf_quote _ _)⟩
  | cons n ms => exact ⟨_, (bytesOf_members m n ms rest).trans (bytesOf_quote _ _)⟩

/-- No spelling is empty, so there is fuel for a step if there is enough for a spelling. -/
theorem exists_fuel {v : Value} (hf : 2 * (l.spell level v).length ≤ fuel) : ∃ k, fuel = k + 1 := by
  have hpos : 0 < (l.spell level v).length := by
    rw [List.length_pos_iff]
    intro h
    have hstart : Starts (bytesOf (l.spell level v) ++ []) := starts_spell v []
    obtain ⟨b, t, hb, -, -⟩ := hstart
    rw [h] at hb
    cases hb
  exact ⟨fuel - 1, by omega⟩

/-- A spelling of a value can be scanned, whatever stands behind it. -/
def Scans (l : Layout) (level : Nat) (v : Value) : Prop :=
  ∀ {fuel : Nat} {rest : Bytes}, Stops rest → 2 * (l.spell level v).length ≤ fuel →
    value fuel (bytesOf (l.spell level v) ++ rest) = (v.tree, some rest)

theorem stops_comma (rest : Bytes) : Stops (Mark.comma :: rest) := by
  intro b hb
  exact .inr (.inl (Option.some.inj hb).symm)

theorem stops_closeBracket (rest : Bytes) : Stops (Mark.closeBracket :: rest) := by
  intro b hb
  exact .inr (.inr (.inl (Option.some.inj hb).symm))

theorem stops_closeBrace (rest : Bytes) : Stops (Mark.closeBrace :: rest) := by
  intro b hb
  exact .inr (.inr (.inr (Option.some.inj hb).symm))

/-- Items are scanned one by one, if each can be scanned. -/
theorem elements_spell {v : Value} {vs : List Value} {a : Bytes}
    (hscan : ∀ w ∈ v :: vs, Scans l level w) (ha : ∀ b ∈ a, Mark.isBlank b = true)
    (hf : 2 * (l.spellItems level (v :: vs)).length + 1 ≤ fuel) (rest : Bytes) :
    elements fuel (bytesOf (l.spellItems level (v :: vs)) ++ (a ++ Mark.closeBracket :: rest)) =
      (Value.trees (v :: vs), some rest) := by
  induction vs generalizing v fuel with
  | nil =>
    obtain ⟨fuel, rfl⟩ : ∃ k, fuel = k + 1 := ⟨fuel - 1, by omega⟩
    have hv := hscan v List.mem_cons_self ((stops_closeBracket rest).append ha)
      (Nat.le_of_succ_le_succ hf)
    exact elements_last hv (skipBlanks_append ha (by rintro _ ⟨⟩; rfl))
  | cons w vs ih =>
    obtain ⟨hv, hvs⟩ := List.forall_mem_cons.1 hscan
    have hlength : (l.spellItems level (v :: w :: vs)).length = (l.spell level v).length + 1 +
        (l.gap level).length + (l.spellItems level (w :: vs)).length := by
      rw [Layout.spellItems_cons]
      simp
      omega
    obtain ⟨fuel, rfl⟩ : ∃ k, fuel = k + 1 := ⟨fuel - 1, by omega⟩
    have hstart : Starts (bytesOf (l.spellItems level (w :: vs)) ++ (a ++ Mark.closeBracket :: rest)) :=
      starts_spellItems w vs _
    have hskip := skipBlanks_append (l.gap_blank level) hstart.head
    have hrest := ih hvs (by omega : 2 * (l.spellItems level (w :: vs)).length + 1 ≤ fuel)
    rw [← hskip] at hrest
    rw [bytesOf_items]
    exact elements_comma (hv (stops_comma _) (by omega)) rfl hrest

/-- Members are scanned one by one, if the value of each can be scanned. -/
theorem members_spell {m : String × Value} {ms : List (String × Value)} {a : Bytes}
    (hscan : ∀ n ∈ m :: ms, Scans l level n.2) (ha : ∀ b ∈ a, Mark.isBlank b = true)
    (hf : 2 * (l.spellMembers level (m :: ms)).length + 1 ≤ fuel) (rest : Bytes) :
    members fuel (bytesOf (l.spellMembers level (m :: ms)) ++ (a ++ Mark.closeBrace :: rest)) =
      (Value.memberTrees (m :: ms), some rest) := by
  have hvalue : ∀ {fuel : Nat} {v : Value} {t : Bytes}, Scans l level v → Stops t →
      2 * (l.spell level v).length ≤ fuel →
      value fuel (skipBlanks (bytesOf l.space ++ (bytesOf (l.spell level v) ++ t))) =
        (v.tree, some t) := by
    intro fuel v t hv ht hf
    rw [skipBlanks_append l.space_blank (starts_spell v t).head]
    exact hv ht hf
  induction ms generalizing m fuel with
  | nil =>
    have hlength : (l.spellMembers level [m]).length =
        (quote m.1).length + 1 + l.space.length + (l.spell level m.2).length := by
      rw [Layout.spellMembers_singleton]
      simp
      omega
    obtain ⟨fuel, rfl⟩ : ∃ k, fuel = k + 1 := ⟨fuel - 1, by omega⟩
    have hm := hvalue (hscan m List.mem_cons_self) ((stops_closeBrace rest).append ha)
      (by omega : _ ≤ fuel)
    rw [bytesOf_member]
    exact members_last hm (skipBlanks_append ha (by rintro _ ⟨⟩; rfl))
  | cons n ms ih =>
    obtain ⟨hm, hms⟩ := List.forall_mem_cons.1 hscan
    have hlength : (l.spellMembers level (m :: n :: ms)).length = (quote m.1).length + 1 +
        l.space.length + (l.spell level m.2).length + 1 + (l.gap level).length +
        (l.spellMembers level (n :: ms)).length := by
      rw [Layout.spellMembers_cons]
      simp
      omega
    obtain ⟨fuel, rfl⟩ : ∃ k, fuel = k + 1 := ⟨fuel - 1, by omega⟩
    obtain ⟨t, ht⟩ : ∃ t, bytesOf (l.spellMembers level (n :: ms)) ++ (a ++ Mark.closeBrace :: rest) =
        Mark.quote :: t := exists_quote_spellMembers n ms _
    have hskip := skipBlanks_append (s := Mark.quote :: t) (l.gap_blank level) (by rintro _ ⟨⟩; rfl)
    have hrest := ih hms (by omega : 2 * (l.spellMembers level (n :: ms)).length + 1 ≤ fuel)
    rw [ht, ← hskip] at hrest
    rw [bytesOf_members, ht]
    exact members_comma (hvalue hm (stops_comma _) (by omega)) rfl hrest

/-- **Core.**  With enough fuel, a spelling is scanned as the tree of its value, and all that stands
behind it is left. -/
theorem value_spell (l : Layout) (v : Value) (level : Nat) : Scans l level v := by
  induction v using Value.induction generalizing level with
  | null =>
    intro fuel rest _ hf
    obtain ⟨fuel, rfl⟩ := exists_fuel hf
    exact value_null fuel rest
  | bool b =>
    intro fuel rest _ hf
    obtain ⟨fuel, rfl⟩ := exists_fuel hf
    exact value_bool fuel b rest
  | number n =>
    intro fuel rest hr hf
    obtain ⟨fuel, rfl⟩ := exists_fuel hf
    exact value_number fuel n hr
  | text s =>
    intro fuel rest _ hf
    obtain ⟨fuel, rfl⟩ := exists_fuel hf
    exact value_text fuel s rest
  | array vs ih =>
    intro fuel rest _ hf
    obtain ⟨fuel, rfl⟩ := exists_fuel hf
    cases vs with
    | nil => rfl
    | cons v vs =>
      have hlength : (l.spell level (.array (v :: vs))).length = 1 + (l.gap (level + 1)).length +
          (l.spellItems (level + 1) (v :: vs)).length + (l.gap level).length + 1 := by
        rw [Layout.spell_array]
        simp
        omega
      have hstart : Starts (bytesOf (l.spellItems (level + 1) (v :: vs)) ++
          (bytesOf (l.gap level) ++ Mark.closeBracket :: rest)) := starts_spellItems v vs _
      have hskip := skipBlanks_append (l.gap_blank (level + 1)) hstart.head
      have hitems := elements_spell (fun w hw => ih w hw (level + 1)) (l.gap_blank level)
        (by omega : 2 * (l.spellItems (level + 1) (v :: vs)).length + 1 ≤ fuel) rest
      rw [bytesOf_array, value_array hskip hstart, hitems]
      rfl
  | object ms ih =>
    intro fuel rest _ hf
    obtain ⟨fuel, rfl⟩ := exists_fuel hf
    cases ms with
    | nil => rfl
    | cons m ms =>
      have hlength : (l.spell level (.object (m :: ms))).length = 1 + (l.gap (level + 1)).length +
          (l.spellMembers (level + 1) (m :: ms)).length + (l.gap level).length + 1 := by
        rw [Layout.spell_object]
        simp
        omega
      obtain ⟨t, ht⟩ : ∃ t, bytesOf (l.spellMembers (level + 1) (m :: ms)) ++
          (bytesOf (l.gap level) ++ Mark.closeBrace :: rest) = Mark.quote :: t :=
        exists_quote_spellMembers m ms _
      have hskip := skipBlanks_append (s := Mark.quote :: t) (l.gap_blank (level + 1))
        (by rintro _ ⟨⟩; rfl)
      have hmembers := members_spell (fun n hn => ih n hn (level + 1)) (l.gap_blank level)
        (by omega : 2 * (l.spellMembers (level + 1) (m :: ms)).length + 1 ≤ fuel) rest
      rw [ht] at hmembers
      rw [bytesOf_object, ht, value_object hskip, hmembers]
      rfl

end spellings

/-! ### Whole texts -/

theorem document_spell (l : Layout) (v : Value) :
    document (bytesOf (l.spell 0 v)) = (v.tree, true) := by
  have hstart : Starts (bytesOf (l.spell 0 v) ++ []) := starts_spell v []
  have hskip := skipBlanks_append (a := []) (by simp) hstart.head
  have hlength := length_le_bytesOf (l.spell 0 v)
  have hstops : Stops [] := by rintro _ ⟨⟩
  have hv : value (2 * (bytesOf (l.spell 0 v)).length + 2) (bytesOf (l.spell 0 v) ++ []) =
      (v.tree, some []) := value_spell l v 0 hstops (by omega)
  rw [List.nil_append, List.append_nil] at hskip
  rw [List.append_nil] at hv
  rw [document, hskip, hv]
  rfl

/-- **What is written is scanned as it was meant**, in the compact text. -/
theorem document_render (v : Value) : document (Bytes.ofText v.render) = (v.tree, true) := by
  rw [Value.render, ofText_ofList, ← Layout.spell_compact v 0]
  exact document_spell .compact v

/-- The same for the indented text. -/
theorem document_renderIndented (v : Value) :
    document (Bytes.ofText v.renderIndented) = (v.tree, true) := by
  rw [Value.renderIndented, ofText_ofList, ← Layout.spell_indented v 0]
  exact document_spell .indented v

end Scan

end PlatformGuard.Json
