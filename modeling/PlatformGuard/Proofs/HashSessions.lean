import PlatformGuard.Manifest.Draft
import PlatformGuard.Manifest.Integrity
import PlatformGuard.Manifest.Stored
import PlatformGuard.Proofs.Hashing
import PlatformGuard.Recovery

/-!
# Sessions are left as they were found

An engine holds one session, and whoever opens it has to close it on every path.  Here an engine is any
engine with a view of its session that keeps the contract of the calls (`Hash.Contract`); its calls may fail
at any point, and nothing is assumed about writes.

Every operation that hashes has the same shape: it opens a session, does whatever it does, and ends with a
step that closes the session from any state (`Closes`).  Such an operation is `Guarded`: it leaves the session
as it was before, so a closed engine stays closed and an open session keeps its data, and it fails if there was
one.  That property goes through everything that is built from such operations.
-/

namespace PlatformGuard

/-! ### Steps and what is open -/

namespace Steps

section sessions
variable {σ ε δ κ α β : Type}

/-- The step leaves what is seen of the state as it was, whether or not it fails. -/
def Keeps (view : σ → κ) (x : ExceptT ε (StateM σ) α) : Prop := ∀ s, view (x s).2 = view s

/-- The step closes whatever is open, whether or not it fails. -/
def Closes (session : σ → Option δ) (x : ExceptT ε (StateM σ) α) : Prop := ∀ s, session (x s).2 = none

/-- The step fails where something is open. -/
def Refuses (session : σ → Option δ) (x : ExceptT ε (StateM σ) α) : Prop :=
  ∀ s, (session s).isSome → ∃ e, (x s).1 = .error e

/-- The step may open something, unless it fails or something is open. -/
structure Opens (session : σ → Option δ) (x : ExceptT ε (StateM σ) α) : Prop where
  failed : ∀ s e t, x s = (.error e, t) → session t = session s
  refuses : Refuses session x

/-- What is open stays as it is, and nothing else is left open; the step fails where something is open. -/
structure Guarded (session : σ → Option δ) (x : ExceptT ε (StateM σ) α) : Prop where
  keeps : Keeps session x
  refuses : Refuses session x

variable {view : σ → κ} {session : σ → Option δ} {x : ExceptT ε (StateM σ) α}
  {k : α → ExceptT ε (StateM σ) β}

theorem keeps_pure (a : α) : Keeps view (pure a : ExceptT ε (StateM σ) α) := fun _ => rfl

theorem keeps_ofExcept (r : Except ε α) :
    Keeps view (MonadExcept.ofExcept r : ExceptT ε (StateM σ) α) := by
  intro s
  rw [ofExcept_apply]

theorem guarded_throw (e : ε) : Guarded session (throw e : ExceptT ε (StateM σ) α) :=
  ⟨fun _ => rfl, fun _ _ => ⟨e, rfl⟩⟩

/-- What holds of the state behind a step, and is passed on by what follows, holds in the end. -/
theorem state_bind {p : σ → Prop} {s : σ} (hx : p (x s).2) (hk : ∀ a t, p t → p (k a t).2) :
    p ((x >>= k) s).2 := by
  rw [bind_apply]
  revert hx
  rcases x s with ⟨e | a, t⟩
  · exact fun ht => ht
  · exact hk a t

theorem Keeps.bind (hx : Keeps view x) (hk : ∀ a, Keeps view (k a)) : Keeps view (x >>= k) := fun s =>
  state_bind (p := fun t => view t = view s) (hx s) fun a t ht => (hk a t).trans ht

/-- What is closed stays closed. -/
theorem Closes.bind (hx : Closes session x) (hk : ∀ a, Keeps session (k a)) : Closes session (x >>= k) :=
  fun s => state_bind (p := fun t => session t = none) (hx s) fun a t ht => (hk a t).trans ht

theorem Refuses.bind (hx : Refuses session x) : Refuses session (x >>= k) := by
  intro s hs
  obtain ⟨e, he⟩ := hx s hs
  rw [bind_apply]
  rcases hr : x s with ⟨e | a, t⟩
  · exact ⟨e, rfl⟩
  · rw [hr] at he
    cases he

/-- Whatever is opened is closed in the end. -/
theorem Opens.guarded (hx : Opens session x) (hk : ∀ a, Closes session (k a)) :
    Guarded session (x >>= k) := by
  refine ⟨fun s => ?_, hx.refuses.bind⟩
  have hrefuses := hx.refuses s
  rw [bind_apply]
  rcases hr : x s with ⟨e | a, t⟩
  · exact hx.failed s e t hr
  · -- a success means that nothing was open, so to close is to restore
    have hclosed : session s = none := by
      rw [← Option.not_isSome_iff_eq_none]
      intro hs
      obtain ⟨e, he⟩ := hrefuses hs
      rw [hr] at he
      cases he
    exact (hk a t).trans hclosed.symm

theorem Guarded.bind (hx : Guarded session x) (hk : ∀ a, Keeps session (k a)) :
    Guarded session (x >>= k) := ⟨hx.keeps.bind hk, hx.refuses.bind⟩

theorem Keeps.bind_guarded (hx : Keeps session x) (hk : ∀ a, Guarded session (k a)) :
    Guarded session (x >>= k) := by
  refine ⟨hx.bind fun a => (hk a).keeps, fun s hs => ?_⟩
  rw [← hx s] at hs
  rw [bind_apply]
  revert hs
  rcases x s with ⟨e | a, t⟩
  · exact fun _ => ⟨e, rfl⟩
  · exact (hk a).refuses t

section adapting
variable {ε' : Type} (f : ε → ε')

theorem Closes.adapt (hx : Closes session x) : Closes session (ExceptT.adapt f x) := by
  intro s
  rw [adapt_apply]
  exact hx s

theorem Refuses.adapt (hx : Refuses session x) : Refuses session (ExceptT.adapt f x) := by
  intro s hs
  obtain ⟨e, he⟩ := hx s hs
  rw [adapt_apply, he]
  exact ⟨f e, rfl⟩

theorem Opens.adapt (hx : Opens session x) : Opens session (ExceptT.adapt f x) := by
  refine ⟨fun s e t h => ?_, hx.refuses.adapt f⟩
  rw [adapt_apply] at h
  rcases hr : x s with ⟨e' | a, u⟩
  · rw [hr] at h
    cases h
    exact hx.failed s e' u hr
  · rw [hr] at h
    cases h

theorem Guarded.adapt (hx : Guarded session x) : Guarded session (ExceptT.adapt f x) := by
  refine ⟨fun s => ?_, hx.refuses.adapt f⟩
  rw [adapt_apply]
  exact hx.keeps s

end adapting

end sessions

end Steps

/-! ### The contract of an engine -/

namespace Hash

open Steps

/-- What an engine owes to those who use it, in terms of its session and the data of it. -/
structure Contract {η δ : Type} [Engine η] (session : η → Option δ) : Prop where
  /-- A start that fails opens nothing. -/
  start_failed : ∀ {a : Algorithm} {e e' : η} {x : Error}, session e = none →
    Engine.start a e = (.error x, e') → session e' = none
  /-- There is one session at a time. -/
  start_busy : ∀ {a : Algorithm} {e : η}, (session e).isSome →
    ∃ x e', Engine.start a e = (.error x, e') ∧ session e' = session e
  /-- No session outlives its end, not even an end that fails. -/
  finish : ∀ (n : Nat) (e : η), session (Engine.finish n e).2 = none
  cancel : ∀ e : η, session (Engine.cancel e) = none

/-- Writes byte strings whatever becomes of them. -/
def writeAnyway {η : Type} [Engine η] : List Bytes → ExceptT Error (StateM η) Unit
  | [] => pure ()
  | bs :: rest => fun e => writeAnyway rest (Engine.write bs e).2

/-- Opens a session, writes byte strings whatever becomes of them, and ends the session in some way. -/
def hashing {η α : Type} [Engine η] (a : Algorithm) (pieces : List Bytes)
    (ending : ExceptT Error (StateM η) α) : ExceptT Error (StateM η) α := do
  Engine.start a
  writeAnyway pieces
  ending

/-- Gives a session up. -/
def drop {η : Type} [Engine η] : ExceptT Error (StateM η) Unit := fun e => (.ok (), Engine.cancel e)

section contract
variable {η δ ε α : Type} [Engine η] {session : η → Option δ}

theorem Contract.opens (hc : Contract session) (a : Algorithm) :
    Opens session (Engine.start a : ExceptT Error (StateM η) Unit) := by
  refine ⟨fun e x e' h => ?_, fun e hs => ?_⟩
  · cases hs : session e with
    | none => exact hc.start_failed hs h
    | some d =>
      obtain ⟨y, e₁, h₁, hkept⟩ := hc.start_busy (a := a) (e := e) (by rw [hs]; rfl)
      rw [h] at h₁
      cases h₁
      exact hkept.trans hs
  · obtain ⟨x, e', h, -⟩ := hc.start_busy (a := a) hs
    exact ⟨x, congrArg Prod.fst h⟩

theorem Contract.closes_close (hc : Contract session) (a : Algorithm) (n : Nat) :
    Closes session (close a n : ExceptT Error (StateM η) Bytes) := by
  intro e
  unfold close
  by_cases hn : n = a.size
  · rw [if_pos hn]
    exact hc.finish n e
  · rw [if_neg hn]
    exact hc.cancel e

theorem Contract.closes_expect (hc : Contract session) (a : Algorithm) (expected : Bytes) :
    Closes session (expect a expected : ExceptT Error (StateM η) Unit) := by
  refine (hc.closes_close a a.size).bind fun d e => ?_
  by_cases hd : Bytes.ctEq d expected = true
  · rw [if_pos hd]
    rfl
  · rw [if_neg hd]
    rfl

/-- Feeding fails with the session closed; otherwise what comes after closes it. -/
theorem Contract.closes_feeding (hc : Contract session) (feed : ExceptT ε (StateM η) Unit)
    {k : Unit → ExceptT ε (StateM η) α} (hk : Closes session (k ())) :
    Closes session (feeding feed >>= k) := by
  intro e
  rw [bind_apply]
  unfold feeding
  rcases feed e with ⟨x | _, e'⟩
  · exact hc.cancel e'
  · exact hk e'

theorem Contract.guarded_contiguous (hc : Contract session) (a : Algorithm) (message : Bytes) (n : Nat) :
    Guarded session (contiguous a message n : ExceptT Error (StateM η) Bytes) :=
  (hc.opens a).guarded fun _ => hc.closes_feeding _ (hc.closes_close a n)

/-- Whatever is written, a session ends with its ending. -/
theorem Contract.guarded_hashing (hc : Contract session) (a : Algorithm) (pieces : List Bytes)
    {ending : ExceptT Error (StateM η) α} (he : Closes session ending) :
    Guarded session (hashing a pieces ending) := by
  refine (hc.opens a).guarded fun _ => ?_
  induction pieces with
  | nil => exact he
  | cons bs rest ih => exact fun e => ih (Engine.write bs e).2

end contract

/-! ### Engines that keep the contract -/

theorem contract_softEngine : Contract (Lawful.session : SoftEngine → _) := by
  refine ⟨fun {a e e' x} hs h => ?_, fun {a e} hs => ?_, fun n e => ?_, fun _ => rfl⟩
  · cases e with
    | idle => cases h
    | hashing b w => cases hs
  · cases e with
    | idle => cases hs
    | hashing b w => exact ⟨_, _, rfl, rfl⟩
  · cases e with
    | idle => rfl
    | hashing b w =>
      simp only [Engine.finish]
      split <;> rfl

/-- An engine with a fault keeps the contract that the engine keeps. -/
theorem Contract.faulty {η δ : Type} [Engine η] {session : η → Option δ} (hc : Contract session) :
    Contract fun f : Faulty η => session f.engine := by
  have hcall : ∀ {α : Type} (c : Call) (step : ExceptT Error (StateM η) α) (failed : η → η)
      (f : Faulty η), (∃ x, Faulty.call c step failed f = (.error x, { f with engine := failed f.engine })) ∨
        (Faulty.call c step failed f).1 = (step f.engine).1 ∧
          (Faulty.call c step failed f).2.engine = (step f.engine).2 := by
    intro α c step failed f
    unfold Faulty.call
    split
    · exact .inl ⟨_, rfl⟩
    · exact .inr ⟨rfl, rfl⟩
  refine ⟨fun {a f f' x} hs h => ?_, fun {a f} hs => ?_, fun n f => ?_, fun f => hc.cancel f.engine⟩
  · rcases hcall .start (Engine.start a) id f with ⟨y, hy⟩ | ⟨hr, he⟩
    · cases hy.symm.trans h
      exact hs
    · refine hc.start_failed (a := a) (x := x) hs (Prod.ext ?_ ?_)
      · exact hr.symm.trans (congrArg Prod.fst h)
      · exact he.symm.trans (congrArg (fun r => r.2.engine) h)
  · rcases hcall .start (Engine.start a) id f with ⟨y, hy⟩ | ⟨hr, he⟩
    · exact ⟨y, _, hy, rfl⟩
    · obtain ⟨x, e', hx, hkept⟩ := hc.start_busy (a := a) hs
      rw [hx] at hr he
      exact ⟨x, _, Prod.ext hr rfl, (congrArg session he).trans hkept⟩
  · rcases hcall .finish (Engine.finish n) Engine.cancel f with ⟨y, hy⟩ | ⟨-, he⟩
    · exact (congrArg (fun r => session r.2.engine) hy).trans (hc.cancel f.engine)
    · exact (congrArg session he).trans (hc.finish n f.engine)

end Hash

/-! ### Operations -/

namespace Engines

open Steps

section pairs
variable {η δ κ ε ε' α : Type} {session : η → Option δ} {x : ExceptT ε (StateM η) α}

theorem keeps_onHash (cause : ε → ε') (hx : Keeps session x) :
    Keeps (fun e : Engines η κ => session e.hash) (onHash cause x) := fun e => hx e.hash

theorem guarded_onHash (cause : ε → ε') (hx : Guarded session x) :
    Guarded (fun e : Engines η κ => session e.hash) (onHash cause x) := by
  refine ⟨keeps_onHash cause hx.keeps, fun e hs => ?_⟩
  obtain ⟨y, hy⟩ := hx.refuses e.hash hs
  exact ⟨cause y, congrArg (Except.mapError cause) hy⟩

theorem keeps_onSignature (cause : ε → ε') {y : ExceptT ε (StateM κ) α} :
    Keeps (fun e : Engines η κ => session e.hash) (onSignature cause y) := fun _ => rfl

end pairs

theorem guarded_verifySigned {η δ ν ε : Type} [Hash.Engine η] [Signature.Verifier ν]
    {session : η → Option δ} (hc : Hash.Contract session) (refusal : ε) (key : PublicKey)
    (covered signature : Bytes) (expected : Option Bytes) :
    Guarded (fun e : Engines η ν => session e.hash)
      (verifySigned refusal key covered signature expected) := by
  refine (guarded_onHash _ (hc.guarded_contiguous _ _ _)).bind fun digest => ?_
  dsimp only
  split
  · exact (guarded_throw refusal).keeps.bind fun _ => keeps_onSignature _
  · exact keeps_onSignature _

end Engines

namespace Hash.Contract

open Steps Manifest

variable {η δ : Type} [Engine η] {session : η → Option δ}

theorem guarded_expectBlob (hc : Contract session) (key : PublicKey) (digest : Bytes) :
    Guarded session (Anchor.expectBlob key digest : ExceptT Error (StateM η) Unit) :=
  (hc.opens .sha256).guarded fun _ => hc.closes_feeding _ (hc.closes_expect .sha256 digest)

/-- A root key is compared without the engine. -/
theorem admits_rootKey (root key : PublicKey) (e : η) : ((Anchor.rootKey root).admits key e).2 = e := by
  unfold Anchor.admits
  dsimp only
  split <;> rfl

theorem keeps_admits (hc : Contract session) (a : Anchor) (key : PublicKey) :
    Keeps session (a.admits key : ExceptT Manifest.Error (StateM η) Unit) := by
  cases a with
  | rootKey root => exact fun e => congrArg session (admits_rootKey root key e)
  | keyDigest digest => exact ((hc.guarded_expectBlob key digest).adapt _).keeps

theorem keeps_signer (hc : Contract session) (a : Anchor) (stored : Option PublicKey) :
    Keeps session (a.signer stored : ExceptT Manifest.Error (StateM η) PublicKey) := by
  cases stored with
  | some key => exact (hc.keeps_admits a key).bind fun _ => keeps_pure key
  | none =>
    cases a with
    | rootKey root => exact keeps_pure root
    | keyDigest digest => exact (guarded_throw _).keeps

theorem guarded_judge {ν : Type} [Signature.Verifier ν] (hc : Contract session) (envelope : Envelope)
    (key : Except Manifest.Error (Option PublicKey)) (anchor : Anchor) (expected : Option Bytes) :
    Guarded (fun e : Engines η ν => session e.hash)
      (StoredManifest.judge envelope key anchor expected) := by
  refine (keeps_ofExcept key).bind_guarded fun stored => ?_
  refine Keeps.bind_guarded (Engines.keeps_onHash _ (hc.keeps_signer anchor stored)) fun key => ?_
  refine (Engines.guarded_verifySigned hc _ _ _ _ _).bind fun _ => ?_
  exact (keeps_ofExcept _).bind fun _ => keeps_pure ()

theorem guarded_verify {φ ν : Type} [Flash φ] [Signature.Verifier ν] (hc : Contract session)
    (s : StoredManifest φ) (anchor : Anchor) (expected : Option Bytes) :
    Guarded (fun e : Engines η ν => session e.hash) fun e =>
      ((s.verify anchor expected e).1, (s.verify anchor expected e).2.2) := by
  have hjudge := fun key (t : StoredManifest φ) header =>
    hc.guarded_judge (ν := ν) (t.cached header) key anchor expected
  unfold StoredManifest.verify
  cases s.stage with
  | loaded =>
    cases s.header with
    | some header =>
      let read := StoredManifest.storedKey header s
      exact hjudge read.1 read.2 header
    | none => exact guarded_throw _
  | empty | valid | invalid => exact guarded_throw _

theorem guarded_digest {φ : Type} (hc : Contract session) (s : StoredManifest φ) (size : Nat) :
    Guarded session (s.digest size : ExceptT Manifest.Error (StateM η) Bytes) := by
  unfold StoredManifest.digest
  cases s.header with
  | none => exact guarded_throw _
  | some header => exact (hc.guarded_contiguous _ _ _).adapt _

theorem guarded_imageDigest {φ : Type} [Flash φ] (hc : Contract session) (i : Image) (f : φ) :
    Guarded session (i.digest f : ExceptT Manifest.Error (StateM η) Bytes) :=
  ((hc.opens i.algorithm).adapt _).guarded fun _ =>
    hc.closes_feeding _ ((hc.closes_close i.algorithm i.algorithm.size).adapt _)

theorem guarded_imageVerify {φ ν : Type} [Flash φ] [Signature.Verifier ν] (hc : Contract session)
    (i : Image) (f : φ) : Guarded (fun e : Engines η ν => session e.hash) (i.verify f) := by
  refine (Engines.guarded_onHash _ (hc.guarded_imageDigest i f)).bind fun digest => ?_
  cases i.check with
  | hash expected =>
    dsimp only
    split
    · exact keeps_pure ()
    · exact (guarded_throw _).keeps
  | signature signature key => exact Engines.keeps_onSignature _

theorem guarded_sign {σ : Type} [Signature.Signer σ] (hc : Contract session) (d : Draft) :
    Guarded (fun e : Engines η σ => session e.hash) d.sign := by
  unfold Draft.sign
  refine Keeps.bind_guarded (fun _ => rfl) fun e => ?_
  cases d.encodeSigned (Signature.Signer.size e.signature) with
  | error x => exact guarded_throw x
  | ok covered =>
    refine (Engines.guarded_onHash _ (hc.guarded_contiguous _ _ _)).bind fun digest => ?_
    exact Keeps.bind (Engines.keeps_onSignature _) fun signature => keeps_pure _

end Hash.Contract

namespace Hash

open Steps Manifest Signature

/-- Every operation that hashes leaves the session of the engine as it was, and fails if there is one.  A root
key is compared without hashing. -/
structure Leakless {η δ : Type} [Engine η] (session : η → Option δ) : Prop where
  contiguous : ∀ (a : Algorithm) (message : Bytes) (n : Nat), Guarded session (Hash.contiguous a message n)
  finish : ∀ (a : Algorithm) (pieces : List Bytes) (n : Nat),
    Guarded session (hashing a pieces (close a n))
  expect : ∀ (a : Algorithm) (pieces : List Bytes) (expected : Bytes),
    Guarded session (hashing a pieces (Hash.expect a expected))
  drop : ∀ (a : Algorithm) (pieces : List Bytes), Guarded session (hashing a pieces Hash.drop)
  rootKey : ∀ (root key : PublicKey) (e : η), ((Anchor.rootKey root).admits key e).2 = e
  keyDigest : ∀ (digest : Bytes) (key : PublicKey),
    Guarded session ((Anchor.keyDigest digest).admits key)
  verify : ∀ {φ ν : Type} [Flash φ] [Verifier ν] (s : StoredManifest φ) (anchor : Anchor)
    (expected : Option Bytes), Guarded (fun e : Engines η ν => session e.hash) fun e =>
      ((s.verify anchor expected e).1, (s.verify anchor expected e).2.2)
  digest : ∀ {φ : Type} (s : StoredManifest φ) (n : Nat), Guarded session (s.digest n)
  image : ∀ {φ ν : Type} [Flash φ] [Verifier ν] (i : Image) (f : φ),
    Guarded (fun e : Engines η ν => session e.hash) (i.verify f)
  recovery : ∀ {ν : Type} [Verifier ν] (i : RecoveryImage) (key : PublicKey),
    Guarded (fun e : Engines η ν => session e.hash) (i.verify key)
  sign : ∀ {σ : Type} [Signer σ] (d : Draft), Guarded (fun e : Engines η σ => session e.hash) d.sign

/-- **No operation leaks a session**, whatever fails on the way: calls of the engine, reads of the flash, and
the other engine. -/
theorem Contract.leakless {η δ : Type} [Engine η] {session : η → Option δ} (hc : Contract session) :
    Leakless session where
  contiguous := hc.guarded_contiguous
  finish a pieces n := hc.guarded_hashing a pieces (hc.closes_close a n)
  expect a pieces expected := hc.guarded_hashing a pieces (hc.closes_expect a expected)
  drop a pieces := hc.guarded_hashing a pieces hc.cancel
  rootKey := admits_rootKey
  keyDigest digest key := (hc.guarded_expectBlob key digest).adapt _
  verify := hc.guarded_verify
  digest := hc.guarded_digest
  image := hc.guarded_imageVerify
  recovery i key := Engines.guarded_verifySigned hc _ key i.signed i.signature none
  sign := hc.guarded_sign

/-- An idle software engine of which the first finish fails. -/
def unfinished : Faulty SoftEngine := ⟨.idle, some ⟨.finish, 0, .unspecified⟩⟩

/-- The software engine keeps the contract with any fault; where its finish fails, no session is left. -/
theorem unfinished_leakless : Leakless (fun f : Faulty SoftEngine => Lawful.session f.engine) ∧
    (Hash.contiguous .sha256 [1] 32 unfinished).1.toOption = none ∧
    Lawful.session (Hash.contiguous .sha256 [1] 32 unfinished).2.engine = none := by
  have hleakless := Contract.leakless contract_softEngine.faulty
  exact ⟨hleakless, rfl, (hleakless.contiguous .sha256 [1] 32).keeps unfinished⟩

end Hash

end PlatformGuard
