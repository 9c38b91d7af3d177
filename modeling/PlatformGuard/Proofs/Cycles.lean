import PlatformGuard.Proofs.Authentication
import PlatformGuard.Proofs.HashSessions
import PlatformGuard.Proofs.Runs

/-!
# Cycles do not leak into each other

A load forgets everything that was cached before, so that it leaves what a stored manifest at the same place
would be left with: with a device that reads alike, the same base, and caches of the same sizes.  Two stored
manifests that are `Alike` cannot be told apart any more, whatever is asked of them.

The two run side by side (`Steps.Parallel`), each step of the one with the same step of the other.
-/

namespace PlatformGuard

/-! ### Steps side by side -/

namespace Steps

section parallel
variable {σ τ ε α β : Type} {R S : σ → τ → Prop} {x : ExceptT ε (StateM σ) α} {y : ExceptT ε (StateM τ) α}

/-- From related states two steps have the same outcome, and lead to related states. -/
def Parallel (R S : σ → τ → Prop) (x : ExceptT ε (StateM σ) α) (y : ExceptT ε (StateM τ) α) : Prop :=
  ∀ ⦃s t⦄, R s t → (x s).1 = (y t).1 ∧ S (x s).2 (y t).2

theorem parallel_ofExcept (r : Except ε α) :
    Parallel R R (MonadExcept.ofExcept r : ExceptT ε (StateM σ) α) (MonadExcept.ofExcept r) := by
  intro s t h
  rw [ofExcept_apply, ofExcept_apply]
  exact ⟨rfl, h⟩

theorem Parallel.bind {k : α → ExceptT ε (StateM σ) β} {l : α → ExceptT ε (StateM τ) β}
    (hx : Parallel R S x y) (hk : ∀ a, Parallel S S (k a) (l a)) : Parallel R S (x >>= k) (y >>= l) := by
  intro s t h
  obtain ⟨hr, hs⟩ := hx h
  rw [bind_apply, bind_apply]
  rcases hx' : x s with ⟨e | a, s'⟩ <;> rcases hy' : y t with ⟨e' | a', t'⟩ <;> rw [hx', hy'] at hr hs
  · exact ⟨congrArg _ (Except.error.inj hr), hs⟩
  · cases hr
  · cases hr
  · obtain rfl := Except.ok.inj hr
    exact hk a hs

end parallel

section failing
variable {σ ε κ α β : Type} {view : σ → κ} {P : ε → Prop} {x : ExceptT ε (StateM σ) α}
  {k : α → ExceptT ε (StateM σ) β}

/-- The step fails for reasons of one kind only, and leaves what is seen of the state as it was. -/
def Fails (view : σ → κ) (P : ε → Prop) (x : ExceptT ε (StateM σ) α) : Prop :=
  ∀ ⦃s e t⦄, x s = (.error e, t) → P e ∧ view t = view s

theorem fails_pure (a : α) : Fails view P (pure a : ExceptT ε (StateM σ) α) := by
  intro s e t h
  cases h

theorem fails_ofExcept {r : Except ε α} (hr : ∀ e, r = .error e → P e) :
    Fails view P (MonadExcept.ofExcept r : ExceptT ε (StateM σ) α) := by
  intro s e t h
  rw [ofExcept_apply] at h
  obtain ⟨he, rfl⟩ := Prod.mk.inj h
  exact ⟨hr e he, rfl⟩

theorem Fails.bind (hx : Fails view P x) (hkeeps : Keeps view x) (hk : ∀ a, Fails view P (k a)) :
    Fails view P (x >>= k) := by
  intro s e t h
  rcases bind_eq_error.1 h with h | ⟨a, u, ha, h⟩
  · exact hx h
  · obtain ⟨he, ht⟩ := hk a h
    refine ⟨he, ht.trans ?_⟩
    rw [← hkeeps s, ha]

theorem Fails.map (f : α → β) (hx : Fails view P x) : Fails view P (f <$> x) := by
  intro s e t h
  rw [map_apply] at h
  rcases hr : x s with ⟨e' | a, u⟩ <;> rw [hr] at h <;> cases h
  exact hx hr

end failing

end Steps

/-! ### Reading a header -/

namespace Decoder

open Steps

section failing
variable {ε α : Type} {P : ε → Prop}

theorem fails_take [Truncation ε] (hP : P Truncation.truncated) (n : Nat) :
    Fails (fun _ => ()) P (take n : Decoder ε Bytes) := by
  intro s e t h
  unfold take at h
  by_cases hn : (s.take n).length = n
  · rw [if_pos hn] at h
    cases h
  · rw [if_neg hn] at h
    cases h
    exact ⟨hP, rfl⟩

theorem fails_some? {e : ε} (hP : P e) (x : Option α) : Fails (fun _ => ()) P (some? x e) := by
  cases x with
  | some a => exact fails_pure a
  | none =>
    intro s e t h
    cases h
    exact ⟨hP, rfl⟩

theorem fails_require {e : ε} (hP : P e) (p : Bool) : Fails (fun _ => ()) P (require p e) := by
  cases p with
  | true => exact fails_pure ()
  | false =>
    intro s e t h
    cases h
    exact ⟨hP, rfl⟩

end failing

end Decoder

namespace Manifest

open Steps Decoder

/-- It is the reader of a header, not its decoder, that says that there is no manifest. -/
theorem Header.fails_decoder : Fails (fun _ => ()) (· ≠ .noManifest) Header.decoder := by
  have hn : ∀ n, Fails (fun _ => ()) (· ≠ .noManifest) (little n : Decoder Error Nat) := fun n =>
    (fails_take nofun n).map _
  have hunit : ∀ {α : Type} (d : Decoder Error α), Keeps (fun _ => ()) d := fun _ _ => rfl
  refine ((hn 2).map _).bind (hunit _) fun length => ((hn 2).map _).bind (hunit _) fun magic =>
    ((hn 4).map _).bind (hunit _) fun id => ((hn 2).map _).bind (hunit _) fun signatureLength =>
    ((hn 1).map _).bind (hunit _) fun scheme => ((hn 1).map _).bind (hunit _) fun _ => ?_
  refine (fails_some? nofun _).bind (hunit _) fun format =>
    (fails_some? nofun _).bind (hunit _) fun scheme =>
    (fails_require nofun _).bind (hunit _) fun _ => (fails_require nofun _).bind (hunit _) fun _ => ?_
  exact fails_pure _

/-- The header at the front of a byte string; another magic number means that there is no manifest. -/
def headerIn (raw : Bytes) : Except Error Header :=
  match Header.decoder.read raw with
  | .error (.badMagic _) => .error .noManifest
  | r => r

/-- The sizes of the caches. -/
def Caches.room (c : Caches) : Nat × Nat × Nat × Nat :=
  (c.manifest.length, c.platformId.length, c.signature.length, c.key.length)

/-- Caches of the same sizes are the same once they are cleared. -/
theorem Caches.clear_eq {c d : Caches} (h : c.room = d.room) : c.clear = d.clear := by
  obtain ⟨hm, hp, hs, hk⟩ : c.manifest.length = d.manifest.length ∧
      c.platformId.length = d.platformId.length ∧ c.signature.length = d.signature.length ∧
      c.key.length = d.key.length := by simpa [room] using h
  unfold clear
  rw [hm, hp, hs, hk]

@[simp]
theorem Caches.room_clear (c : Caches) : c.clear.room = c.room := by
  obtain ⟨hm, hp, hs, hk⟩ := StoredManifest.length_clear c
  unfold room
  rw [hm, hp, hs, hk]

end Manifest

namespace StoredManifest

open Manifest Steps

/-! ### What a load leaves in place -/

section places
variable {φ : Type}

/-- Where a stored manifest is, and the room that it has. -/
def place (s : StoredManifest φ) : φ × UInt32 × (Nat × Nat × Nat × Nat) := (s.flash, s.base, s.caches.room)

/-- Everything but what the caches hold. -/
def shell (s : StoredManifest φ) :
    (φ × UInt32 × (Nat × Nat × Nat × Nat)) × Option Header × Nat × Stage :=
  (s.place, s.header, s.idLength, s.stage)

theorem shell_recached {s : StoredManifest φ} {c : Caches} (h : c.room = s.caches.room) :
    ({ s with caches := c } : StoredManifest φ).shell = s.shell := by
  unfold shell place
  rw [h]

theorem length_fillFront? {cache bs c : Bytes} (h : fillFront? cache bs = some c) :
    c.length = cache.length := by
  obtain ⟨hle, rfl⟩ := fillFront?_eq_some.1 h
  rw [List.length_append, List.length_drop]
  omega

theorem keeps_cachePlatformId (id : Bytes) : Keeps shell (cachePlatformId id : Step φ Unit) := by
  intro s
  unfold cachePlatformId
  split
  · rename_i c hc
    exact shell_recached (by simp only [Caches.room, length_fillFront? hc])
  · rfl

theorem keeps_cacheSignature (signature : Bytes) : Keeps shell (cacheSignature signature : Step φ Unit) := by
  intro s
  unfold cacheSignature
  split
  · rename_i c hc
    exact shell_recached (by simp only [Caches.room, length_fillFront? hc])
  · rfl

variable [Flash φ]

theorem length_filled {s : StoredManifest φ} {cache bs : Bytes} {offset n : Nat}
    (h : s.readAt offset n = .ok bs) (hroom : ¬cache.length < n) :
    (bs ++ cache.drop n).length = cache.length := by
  rw [List.length_append, List.length_drop, length_readAt h]
  omega

theorem keeps_cacheManifest (n : Nat) : Keeps shell (cacheManifest n : Step φ Bytes) := by
  intro s
  unfold cacheManifest
  split
  · rfl
  · rename_i hroom
    split
    · rfl
    · rename_i bs hbs
      exact shell_recached (by simp only [Caches.room, length_filled hbs hroom])

theorem keeps_cacheKey (n : Nat) : Keeps shell (cacheKey n : Step φ Bytes) := by
  intro s
  unfold cacheKey
  split
  · rfl
  · split
    · rfl
    · rename_i hroom
      split
      · rfl
      · rename_i bs hbs
        exact shell_recached (by simp only [Caches.room, length_filled hbs hroom])

theorem keeps_storedKey (header : Header) : Keeps shell (storedKey header : Step φ (Option PublicKey)) := by
  unfold storedKey
  cases header.format with
  | legacy => exact keeps_pure none
  | v2 =>
    refine (keeps_cacheKey _).bind fun blob => ?_
    cases PublicKey.ofBlob blob with
    | ok key => exact keeps_pure (some key)
    | error e => exact fun _ => rfl

/-- The stored manifest after a header was looked for with this outcome. -/
def looked (s : StoredManifest φ) {α : Type} : Except Error α → StoredManifest φ
  | .error .noManifest => s.withStage .invalid
  | _ => s

theorem readAt_ne_noManifest {s : StoredManifest φ} {offset n : Nat} {e : Error}
    (h : s.readAt offset n = .error e) : e ≠ .noManifest := by
  unfold readAt at h
  split at h
  · rcases hf : Flash.read s.flash (s.base + UInt32.ofNat offset) n with x | bs
    · rw [hf] at h
      cases h
      exact nofun
    · rw [hf] at h
      cases h
  · cases h
    exact nofun

omit [Flash φ] in
theorem looked_of_ne {s : StoredManifest φ} {α : Type} {e : Error} (he : e ≠ .noManifest) :
    s.looked (.error e : Except Error α) = s := by
  unfold looked
  split
  · rename_i h
    exact absurd (Except.error.inj h) he
  · rfl

/-- Looking for a header tells its outcome and marks a place without a manifest. -/
theorem readHeader_eq (s : StoredManifest φ) : readHeader s =
    ((s.readAt 0 headerLength).bind headerIn, s.looked ((s.readAt 0 headerLength).bind headerIn)) := by
  unfold readHeader
  cases hraw : s.readAt 0 headerLength with
  | error e => exact Prod.ext rfl (looked_of_ne (readAt_ne_noManifest hraw)).symm
  | ok raw =>
    dsimp only [Except.bind]
    unfold headerIn
    cases hdecoded : Header.decoder.read raw with
    | ok header => rfl
    | error e =>
      obtain ⟨hne, -⟩ := Header.fails_decoder (show Header.decoder raw = (.error e, _) from
        Prod.ext hdecoded rfl)
      -- one reason is renamed, one does not occur, and all others are passed on
      cases e with
      | noManifest => exact absurd rfl hne
      | _ => rfl

theorem fails_cacheManifest (n : Nat) :
    Fails shell (· ≠ .noManifest) (cacheManifest n : Step φ Bytes) := by
  intro s e t h
  have ht := cacheManifest_error h
  refine ⟨?_, congrArg shell ht⟩
  unfold cacheManifest at h
  split at h
  · cases h
    exact nofun
  · split at h
    · rename_i hread
      cases h
      exact readAt_ne_noManifest hread
    · cases h

omit [Flash φ] in
theorem fails_cachePlatformId (id : Bytes) :
    Fails shell (· ≠ .noManifest) (cachePlatformId id : Step φ Unit) := by
  intro s e t h
  unfold cachePlatformId at h
  split at h
  · cases h
  · cases h
    exact ⟨nofun, rfl⟩

omit [Flash φ] in
theorem fails_cacheSignature (signature : Bytes) :
    Fails shell (· ≠ .noManifest) (cacheSignature signature : Step φ Unit) := by
  intro s e t h
  unfold cacheSignature at h
  split at h
  · cases h
  · cases h
    exact ⟨nofun, rfl⟩

theorem platformIdOf_ne_noManifest (body : Bytes) (e : Error) (h : platformIdOf body = .error e) :
    e ≠ .noManifest := by
  unfold platformIdOf at h
  split at h
  · cases h
    exact nofun
  · split at h
    · cases h
    · cases h
      exact nofun

/-- What a load does once it has the header. -/
def cacheParts (header : Header) : Step φ Unit := do
  let bytes ← cacheManifest header.length.toNat
  let envelope : Envelope := ⟨header, bytes⟩
  let id ← MonadExcept.ofExcept (platformIdOf envelope.body)
  cachePlatformId id
  cacheSignature envelope.signature
  modify fun s => { s with header := some header, idLength := id.length, stage := .loaded }

theorem load_eq : (load : Step φ Unit) = (do
    modify reset
    let header ← readHeader
    cacheParts header) := rfl

/-- Once there is a header, a load can still fail, but not for lack of a manifest. -/
theorem fails_cacheParts (header : Header) :
    Fails shell (· ≠ .noManifest) (cacheParts header : Step φ Unit) := by
  refine (fails_cacheManifest _).bind (keeps_cacheManifest _) fun bytes => ?_
  refine (fails_ofExcept (platformIdOf_ne_noManifest _)).bind (keeps_ofExcept _) fun id => ?_
  refine (fails_cachePlatformId id).bind (keeps_cachePlatformId id) fun _ => ?_
  refine (fails_cacheSignature _).bind (keeps_cacheSignature _) fun _ => ?_
  intro s e t h
  cases h

/-- The stage after a load that fails says why it failed. -/
theorem stage_of_load_error {s t : StoredManifest φ} {e : Error} (h : s.load = (.error e, t)) :
    t.header = none ∧ t.stage = if e = .noManifest then .invalid else .empty := by
  refine ⟨(load_error h).1, ?_⟩
  rw [load_eq] at h
  rcases bind_eq_error.1 h with h | ⟨_, u, hu, h⟩
  · cases h
  cases hu
  rcases bind_eq_error.1 h with h | ⟨header, u, hu, h⟩
  · rw [readHeader_eq] at h
    obtain ⟨hr, rfl⟩ := Prod.mk.inj h
    rw [hr]
    by_cases he : e = .noManifest
    · subst he
      rfl
    · rw [looked_of_ne he, if_neg he]
      rfl
  · obtain ⟨rfl, -⟩ := readHeader_eq_ok.1 hu
    obtain ⟨he, hshell⟩ := fails_cacheParts header h
    rw [if_neg he]
    exact congrArg (fun c => c.2.2.2) hshell

/-! ### Events and places -/

/-- The room and the base stay whatever happens. -/
theorem keeps_load : Keeps place (load : Step φ Unit) := by
  have hplace : ∀ {α : Type} {x : Step φ α}, Keeps shell x → Keeps place x := fun hx s =>
    congrArg Prod.fst (hx s)
  rw [load_eq]
  refine Keeps.bind (fun s => ?_) fun _ => Keeps.bind (fun s => ?_) fun header => ?_
  · change (_, _, s.caches.clear.room) = _
    rw [Caches.room_clear]
    rfl
  · rw [readHeader_eq]
    unfold looked
    split <;> rfl
  · refine (hplace (keeps_cacheManifest _)).bind fun bytes => (keeps_ofExcept _).bind fun id => ?_
    refine (hplace (keeps_cachePlatformId id)).bind fun _ => ?_
    exact (hplace (keeps_cacheSignature _)).bind fun _ _ => rfl

section verifying
variable {η ν : Type} [Hash.Engine η] [Signature.Verifier ν]

theorem place_verify (s : StoredManifest φ) (anchor : Anchor) (expected : Option Bytes)
    (e : Engines η ν) : (s.verify anchor expected e).2.1.place = s.place := by
  unfold verify
  split
  · rename_i header _ _
    exact congrArg Prod.fst (keeps_storedKey header s)
  · rfl

/-- Nothing that happens moves a stored manifest or changes its room, though the device may be replaced. -/
theorem place_after (s : StoredManifest φ) (e : Event φ η ν) : (s.after e).place.2 = s.place.2 := by
  cases e with
  | load => exact congrArg Prod.snd (keeps_load s)
  | verify anchor expected e => exact congrArg Prod.snd (place_verify s anchor expected e)
  | reset =>
    change (_, s.caches.clear.room) = _
    rw [Caches.room_clear]
    rfl
  | flash device => rfl

theorem place_run (s : StoredManifest φ) (es : List (Event φ η ν)) : (s.run es).place.2 = s.place.2 := by
  induction es generalizing s with
  | nil => rfl
  | cons e es ih => exact (ih (s.after e)).trans (place_after s e)

end verifying

end places

/-! ### Two stored manifests -/

section pairs
variable {φ ψ : Type} [Flash φ] [Flash ψ]

/-- The one is where the other is: the devices read alike, and the caches have the same sizes. -/
structure SamePlace (s : StoredManifest φ) (t : StoredManifest ψ) : Prop where
  read : ∀ a n, Flash.read s.flash a n = Flash.read t.flash a n
  place : s.place.2 = t.place.2

/-- They have everything in common, and their devices read alike. -/
structure Alike (s : StoredManifest φ) (t : StoredManifest ψ) : Prop where
  read : ∀ a n, Flash.read s.flash a n = Flash.read t.flash a n
  base : s.base = t.base
  caches : s.caches = t.caches
  header : s.header = t.header
  idLength : s.idLength = t.idLength
  stage : s.stage = t.stage

variable {s : StoredManifest φ} {t : StoredManifest ψ}

theorem SamePlace.base (h : s.SamePlace t) : s.base = t.base := congrArg Prod.fst h.place

theorem SamePlace.room (h : s.SamePlace t) : s.caches.room = t.caches.room := congrArg Prod.snd h.place

theorem Alike.samePlace (h : s.Alike t) : s.SamePlace t := by
  refine ⟨h.read, ?_⟩
  unfold place
  rw [h.base, h.caches]

theorem Alike.cached (h : s.Alike t) (header : Header) : s.cached header = t.cached header := by
  unfold StoredManifest.cached
  rw [h.caches]

theorem Alike.withStage (h : s.Alike t) (stage : Stage) : (s.withStage stage).Alike (t.withStage stage) :=
  ⟨h.read, h.base, h.caches, h.header, h.idLength, rfl⟩

theorem Alike.readAt (h : s.Alike t) (offset n : Nat) : s.readAt offset n = t.readAt offset n := by
  unfold StoredManifest.readAt
  rw [h.base, h.read]

/-- Once they are reset, two at the same place are alike. -/
theorem SamePlace.reset (h : s.SamePlace t) : s.reset.Alike t.reset :=
  ⟨h.read, h.base, Caches.clear_eq h.room, rfl, rfl, rfl⟩

/-! ### Loading side by side -/

theorem parallel_readHeader :
    Parallel Alike Alike (readHeader : Step φ Header) (readHeader : Step ψ Header) := by
  intro s t h
  rw [readHeader_eq, readHeader_eq, h.readAt]
  refine ⟨rfl, ?_⟩
  generalize (t.readAt 0 headerLength).bind headerIn = r
  by_cases hr : r = .error .noManifest
  · rw [hr]
    exact h.withStage .invalid
  · cases r with
    | ok header => exact h
    | error e =>
      have he : e ≠ .noManifest := fun he => hr (congrArg Except.error he)
      rw [looked_of_ne he, looked_of_ne he]
      exact h

theorem parallel_cacheManifest (n : Nat) :
    Parallel Alike Alike (cacheManifest n : Step φ Bytes) (cacheManifest n : Step ψ Bytes) := by
  intro s t h
  unfold cacheManifest
  rw [h.readAt, h.caches]
  by_cases hroom : t.caches.manifest.length < n
  · rw [if_pos hroom, if_pos hroom]
    exact ⟨rfl, h⟩
  · rw [if_neg hroom, if_neg hroom]
    cases t.readAt 0 n with
    | error e => exact ⟨rfl, h⟩
    | ok bs => exact ⟨rfl, h.read, h.base, rfl, h.header, h.idLength, h.stage⟩

theorem parallel_cachePlatformId (id : Bytes) :
    Parallel Alike Alike (cachePlatformId id : Step φ Unit) (cachePlatformId id : Step ψ Unit) := by
  intro s t h
  unfold cachePlatformId
  rw [h.caches]
  cases fillFront? t.caches.platformId (id ++ [0]) with
  | none => exact ⟨rfl, h⟩
  | some c => exact ⟨rfl, h.read, h.base, rfl, h.header, h.idLength, h.stage⟩

theorem parallel_cacheSignature (signature : Bytes) :
    Parallel Alike Alike (cacheSignature signature : Step φ Unit)
      (cacheSignature signature : Step ψ Unit) := by
  intro s t h
  unfold cacheSignature
  rw [h.caches]
  cases fillFront? t.caches.signature signature with
  | none => exact ⟨rfl, h⟩
  | some c => exact ⟨rfl, h.read, h.base, rfl, h.header, h.idLength, h.stage⟩

/-- **A load forgets what was before**: it needs two stored manifests at the same place only, and leaves them
alike. -/
theorem parallel_load : Parallel SamePlace Alike (load : Step φ Unit) (load : Step ψ Unit) := by
  rw [load_eq, load_eq]
  refine Parallel.bind (S := Alike) (fun s t h => ⟨rfl, h.reset⟩) fun _ => ?_
  refine parallel_readHeader.bind fun header => ?_
  refine (parallel_cacheManifest _).bind fun bytes => (parallel_ofExcept _).bind fun id => ?_
  refine (parallel_cachePlatformId id).bind fun _ => (parallel_cacheSignature _).bind fun _ => ?_
  exact fun s t h => ⟨rfl, h.read, h.base, h.caches, rfl, rfl, rfl⟩

/-! ### Verifying side by side -/

theorem parallel_cacheKey (n : Nat) :
    Parallel Alike Alike (cacheKey n : Step φ Bytes) (cacheKey n : Step ψ Bytes) := by
  intro s t h
  have hlength : s.keyBlobLength n = t.keyBlobLength n := by
    unfold keyBlobLength
    simp only [h.readAt]
  unfold cacheKey
  rw [hlength, h.caches]
  cases t.keyBlobLength n with
  | error e => exact ⟨rfl, h⟩
  | ok k =>
    dsimp only
    rw [h.readAt]
    by_cases hroom : t.caches.key.length < k
    · rw [if_pos hroom, if_pos hroom]
      exact ⟨rfl, h⟩
    · rw [if_neg hroom, if_neg hroom]
      cases t.readAt n k with
      | error e => exact ⟨rfl, h⟩
      | ok bs => exact ⟨rfl, h.read, h.base, rfl, h.header, h.idLength, h.stage⟩

theorem parallel_storedKey (header : Header) :
    Parallel Alike Alike (storedKey header : Step φ (Option PublicKey))
      (storedKey header : Step ψ (Option PublicKey)) := by
  unfold storedKey
  cases header.format with
  | legacy => exact fun s t h => ⟨rfl, h⟩
  | v2 =>
    refine (parallel_cacheKey _).bind fun blob => ?_
    cases PublicKey.ofBlob blob with
    | ok key => exact fun s t h => ⟨rfl, h⟩
    | error e => exact fun s t h => ⟨rfl, h⟩

section verifying
variable {η ν : Type} [Hash.Engine η] [Signature.Verifier ν]

theorem Alike.verify (h : s.Alike t) (anchor : Anchor) (expected : Option Bytes) (e : Engines η ν) :
    (s.verify anchor expected e).1 = (t.verify anchor expected e).1 ∧
      (s.verify anchor expected e).2.2 = (t.verify anchor expected e).2.2 ∧
      (s.verify anchor expected e).2.1.Alike (t.verify anchor expected e).2.1 := by
  by_cases hloaded : t.stage = .loaded
  · cases hheader : t.header with
    | none =>
      unfold StoredManifest.verify
      rw [h.stage, h.header, hloaded, hheader]
      exact ⟨rfl, rfl, h⟩
    | some header =>
      obtain ⟨hkey, halike⟩ := parallel_storedKey header h
      rw [verify_eq hloaded hheader,
        verify_eq (h.stage.trans hloaded) (h.header.trans hheader), h.cached, hkey]
      exact ⟨rfl, rfl, halike.withStage _⟩
  · rw [verify_of_ne_loaded hloaded, verify_of_ne_loaded fun hs => hloaded (h.stage.symm.trans hs)]
    exact ⟨rfl, rfl, h⟩

end verifying

end pairs

/-! ### From a load on -/

/-- What can be done with a stored manifest, besides asking it. -/
inductive Use (η ν : Type) where
  | load
  | verify (anchor : Anchor) (expected : Option Bytes) (engines : Engines η ν)
  | reset

/-- What comes of it: an outcome, and the engines if there are any. -/
abbrev Report (η ν : Type) := Except Error Unit × Option (Engines η ν)

section uses
variable {φ ψ η ν : Type} [Flash φ] [Flash ψ] [Hash.Engine η] [Signature.Verifier ν]

def use (s : StoredManifest φ) : Use η ν → Report η ν × StoredManifest φ
  | .load => ((s.load.1, none), s.load.2)
  | .verify anchor expected e =>
    let r := s.verify anchor expected e
    ((r.1, some r.2.2), r.2.1)
  | .reset => ((.ok (), none), s.reset)

def useAll (s : StoredManifest φ) (us : List (Use η ν)) : List (Report η ν) × StoredManifest φ :=
  Automaton.useAll (fun u s => s.use u) us s

theorem Alike.use {s : StoredManifest φ} {t : StoredManifest ψ} (h : s.Alike t) (u : Use η ν) :
    (s.use u).1 = (t.use u).1 ∧ (s.use u).2.Alike (t.use u).2 := by
  cases u with
  | load =>
    obtain ⟨hr, halike⟩ := parallel_load h.samePlace
    exact ⟨Prod.ext hr rfl, halike⟩
  | verify anchor expected e =>
    obtain ⟨hr, he, halike⟩ := h.verify anchor expected e
    exact ⟨Prod.ext hr (congrArg some he), halike⟩
  | reset => exact ⟨rfl, h.samePlace.reset⟩

theorem Alike.useAll {s : StoredManifest φ} {t : StoredManifest ψ} (h : s.Alike t) (us : List (Use η ν)) :
    (s.useAll us).1 = (t.useAll us).1 ∧ (s.useAll us).2.Alike (t.useAll us).2 :=
  Automaton.useAll_alike (fun u h => h.use u) h us

end uses

section queries
variable {φ ψ : Type}

/-- Every query has the same answer. -/
structure AnswersAlike (s : StoredManifest φ) (t : StoredManifest ψ) : Prop where
  id : s.id = t.id
  platformId : s.platformId = t.platformId
  signature : s.signature = t.signature
  digest : ∀ {κ : Type} [Hash.Engine κ] (n : Nat),
    (s.digest n : ExceptT Error (StateM κ) Bytes) = t.digest n
  manifest : s.manifest = t.manifest
  isEmpty : s.isEmpty = t.isEmpty
  firmware : s.firmware = t.firmware
  supportedVersions : ∀ id, s.supportedVersions id = t.supportedVersions id
  rwRegions : ∀ id version, s.rwRegions id version = t.rwRegions id version
  images : ∀ id version, s.images id version = t.images id version

theorem Alike.answers [Flash φ] [Flash ψ] {s : StoredManifest φ} {t : StoredManifest ψ} (h : s.Alike t) :
    s.AnswersAlike t := by
  have hheader : s.loadedHeader = t.loadedHeader := by
    unfold loadedHeader
    rw [h.stage, h.header]
  have hmanifest : s.manifest = t.manifest := by
    unfold manifest
    rw [h.stage, h.header, h.caches]
  refine ⟨?_, ?_, ?_, fun {κ _} n => ?_, hmanifest, congrArg (Except.map _) hmanifest,
    congrArg (Except.map _) hmanifest, fun id => congrArg (Except.bind · _) hmanifest,
    fun id version => congrArg (Except.bind · _) hmanifest,
    fun id version => congrArg (Except.bind · _) hmanifest⟩
  · unfold StoredManifest.id
    rw [hheader]
  · unfold platformId
    rw [hheader, h.caches, h.idLength]
  · unfold signature
    rw [hheader, h.caches]
  · unfold digest
    rw [h.header, h.caches]

/-- No query has an answer, not even for the digest of what is cached. -/
structure Mute (s : StoredManifest φ) : Prop where
  id : s.id = .error .noManifest
  platformId : s.platformId = .error .noManifest
  signature : s.signature = .error .noManifest
  digest : ∀ {κ : Type} [Hash.Engine κ] (n : Nat) (e : κ), s.digest n e = (.error .noManifest, e)
  manifest : s.manifest = .error .noManifest
  isEmpty : s.isEmpty = .error .noManifest
  firmware : s.firmware = .error .noManifest
  supportedVersions : ∀ id, s.supportedVersions id = .error .noManifest
  rwRegions : ∀ id version, s.rwRegions id version = .error .noManifest
  images : ∀ id version, s.images id version = .error .noManifest

theorem mute_of_none {s : StoredManifest φ} (h : s.header = none) : s.Mute := by
  have hheader : s.loadedHeader = .error .noManifest := by
    unfold loadedHeader
    rw [h]
    cases s.stage <;> rfl
  have hmanifest : s.manifest = .error .noManifest := by
    unfold manifest
    rw [h]
    cases s.stage <;> rfl
  refine ⟨congrArg (Except.map _) hheader, congrArg (Except.map _) hheader,
    congrArg (Except.map _) hheader, fun {κ _} n e => ?_, hmanifest, congrArg (Except.map _) hmanifest,
    congrArg (Except.map _) hmanifest, fun id => congrArg (Except.bind · _) hmanifest,
    fun id version => congrArg (Except.bind · _) hmanifest,
    fun id version => congrArg (Except.bind · _) hmanifest⟩
  unfold digest
  rw [h]
  rfl

end queries

/-- **Cycles do not leak into each other.**  Two stored manifests with the same base and the same room,
whatever they held at first and whatever has happened to them, are left alike by a load from devices that
read alike; and from then on they report and answer the same.  A load that fails leaves nothing that would
answer. -/
theorem cycles_independent {φ ψ η₁ η₂ ν₁ ν₂ : Type} [Flash φ] [Flash ψ] [Hash.Engine η₁] [Hash.Engine η₂]
    [Signature.Verifier ν₁] [Signature.Verifier ν₂] (f : φ) (g : ψ) (base : UInt32) (c d : Caches)
    (hroom : c.room = d.room) (es : List (Event φ η₁ ν₁)) (fs : List (Event ψ η₂ ν₂))
    (hread : ∀ a n, Flash.read ((init f base c).run es).flash a n =
      Flash.read ((init g base d).run fs).flash a n) :
    let s := (init f base c).run es
    let t := (init g base d).run fs
    (s.load.1 = t.load.1 ∧ s.load.2.Alike t.load.2) ∧
    (∀ {η ν : Type} [Hash.Engine η] [Signature.Verifier ν] (us : List (Use η ν)),
      (s.load.2.useAll us).1 = (t.load.2.useAll us).1 ∧
        (s.load.2.useAll us).2.AnswersAlike (t.load.2.useAll us).2) ∧
    ∀ e, s.load.1 = .error e →
      s.load.2.stage = (if e = .noManifest then .invalid else .empty) ∧ s.load.2.Mute := by
  intro s t
  have hs : s.place.2 = (base, c.room) := place_run (init f base c) es
  have ht : t.place.2 = (base, d.room) := place_run (init g base d) fs
  have hplace : s.place.2 = t.place.2 := by rw [hs, ht, hroom]
  obtain ⟨hr, halike⟩ := parallel_load ⟨hread, hplace⟩
  refine ⟨⟨hr, halike⟩, fun {η ν _ _} us => ?_, fun e he => ?_⟩
  · obtain ⟨hrs, hend⟩ := halike.useAll us
    exact ⟨hrs, hend.answers⟩
  · obtain ⟨hnone, hstage⟩ := stage_of_load_error (show s.load = (.error e, _) from Prod.ext he rfl)
    exact ⟨hstage, mute_of_none hnone⟩

/-- A device with the idle manifest that cannot be written, under caches full of other bytes. -/
def dirtyStored : StoredManifest Flash.Rom :=
  init ⟨idleManifest.toArray⟩ 0 ⟨List.replicate 276 0xff, [1, 1], List.replicate 256 0xff, []⟩

/-- One stored manifest has been valid and has lost its device in between, and the other is new. -/
theorem idleRun_dirtyStored :
    let s := idleStored.run (idleRun ++ [.flash ⟨idleManifest.toArray⟩])
    dirtyStored.load.1.toOption = some () ∧ s.load.1 = dirtyStored.load.1 ∧
      s.load.2.Alike dirtyStored.load.2 := by
  have hroom : idleStored.caches.room = dirtyStored.caches.room := by decide +kernel
  have h := (cycles_independent idleStored.flash dirtyStored.flash 0 idleStored.caches dirtyStored.caches
    hroom (idleRun ++ [.flash ⟨idleManifest.toArray⟩])
    ([] : List (Event Flash.Rom Hash.SoftEngine (Signature.Forced Rsa.SoftVerifier))) fun a n => by
      rw [run_snoc]
      rfl).1
  exact ⟨by decide +kernel, h⟩

end StoredManifest

end PlatformGuard
