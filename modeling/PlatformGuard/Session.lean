import PlatformGuard.Exclusive
import PlatformGuard.Filter.Policy
import PlatformGuard.Manifest.Stored
import PlatformGuard.Session.Options
import PlatformGuard.Update.Host

/-!
# Sessions

A session verifies a manifest, updates the host's flash where the manifest allows it, and derives and
programs the filter policy.  The engines are shared with others, so a session claims them for each
verification.  Only what a verified manifest says lets an update begin or a policy be derived, and a
new verification ends both.
-/

namespace PlatformGuard

namespace Session

/-- Why a session refuses. -/
inductive Error where
  /-- The options or the caches do not fit. -/
  | invalidArgument
  /-- Somebody else has an engine. -/
  | busy
  /-- There is no verified manifest. -/
  | notVerified
  /-- There is no policy. -/
  | notSynthesized
  | updateInProgress
  /-- The target of an update is no region that may be written. -/
  | regionNotWritable
  | manifest (cause : Manifest.Error)
  | update (cause : Update.Error)
  | filter (cause : Filter.Error)
  deriving DecidableEq, Repr

namespace Error

def plain : List Error :=
  [invalidArgument, busy, notVerified, notSynthesized, updateInProgress, regionNotWritable]

def label : Error → String
  | invalidArgument => "InvalidArgument"
  | busy => "Busy"
  | notVerified => "NotVerified"
  | notSynthesized => "NotSynthesized"
  | updateInProgress => "UpdateInProgress"
  | regionNotWritable => "RegionNotWritable"
  | manifest e => Status.withPayload "Manifest" (Status.label e)
  | update e => Status.withPayload "Update" (Status.label e)
  | filter e => Status.withPayload "Filter" (Status.label e)

instance : Status Error where
  subsystem
    | manifest e => Status.subsystem e
    | update e => Status.subsystem e
    | filter e => Status.subsystem e
    | _ => .session
  localCode
    | invalidArgument => 0
    | busy => 1
    | notVerified => 2
    | notSynthesized => 3
    | updateInProgress => 4
    | regionNotWritable => 5
    | manifest e => Status.localCode e
    | update e => Status.localCode e
    | filter e => Status.localCode e
  label := label
  ofLabel? s :=
    Status.find? label plain s
      <|> Status.wrapped? "Manifest" manifest s
      <|> Status.wrapped? "Update" update s
      <|> Status.wrapped? "Filter" filter s

def ofExclusive : Exclusive.Error → Error
  | .busy => busy

end Error

/-- The part of the caches that the options ask for; the cache of the key is used as a whole. -/
def trim (o : Options) (c : Manifest.Caches) : Except Error Manifest.Caches :=
  if c.manifest.length < o.maxManifest.toNat ∨ c.platformId.length < o.maxPlatformId.toNat
      ∨ c.signature.length < o.maxSignature.toNat then
    .error .invalidArgument
  else
    .ok { c with
      manifest := c.manifest.take o.maxManifest.toNat
      platformId := c.platformId.take o.maxPlatformId.toNat
      signature := c.signature.take o.maxSignature.toNat }

end Session

/-- A session with a store for the manifest and the host's flash. -/
structure Session (σ υ : Type) where
  options : Session.Options
  stored : StoredManifest σ
  host : Update.Host υ
  policy : Option Filter.Policy := none

namespace Session

variable {σ υ : Type}

/-- A session that has done nothing yet. -/
def make (o : Options) (store : σ) (host : υ) (c : Manifest.Caches) : Except Error (Session σ υ) :=
  if o.updateRegion.end?.isNone then .error .invalidArgument
  else
    (trim o c).map fun caches =>
      { options := o
        stored := { flash := store, base := o.manifestAddress, caches }
        host := .resting host }

def isVerified (s : Session σ υ) : Bool := s.stored.stage == .valid

def requireVerified (s : Session σ υ) : Except Error Unit :=
  if s.isVerified then .ok () else .error .notVerified

/-- Releases the update, if there is one. -/
def endUpdate (s : Session σ υ) : Session σ υ := { s with host := s.host.release }

/-- Ends the update and forgets the policy. -/
def abandon (s : Session σ υ) : Session σ υ := { s.endUpdate with policy := none }

/-- Forgets everything. -/
def reset (s : Session σ υ) : Session σ υ := { s.abandon with stored := s.stored.reset }

/-! ### Verification -/

section verifying
variable {η ν : Type} [Flash σ] [Hash.Engine η] [Signature.Verifier ν]

/-- Loads the manifest from its store and verifies it. -/
def reload (anchor : Manifest.Anchor) (s : StoredManifest σ) (e : Engines η ν) :
    Except Manifest.Error Unit × StoredManifest σ × Engines η ν :=
  match s.load with
  | (.ok (), s) => s.verify anchor none e
  | (.error x, s) => (.error x, s, e)

/-- Begins anew: claims both engines, ends what was going on, and verifies the manifest.  If an engine
is taken, nothing changes. -/
def loadAndVerify (anchor : Manifest.Anchor) (s : Session σ υ)
    (e : Engines (Exclusive η) (Exclusive ν)) :
    Except Error Unit × Session σ υ × Engines (Exclusive η) (Exclusive ν) :=
  match Exclusive.claim e.hash, Exclusive.claim e.signature with
  | (.ok (), h), (.ok (), v) =>
    let s := s.abandon
    let (r, stored, k) := reload anchor s.stored ⟨h.value, v.value⟩
    (r.mapError .manifest, { s with stored },
      ⟨{ h with value := k.hash }.release, { v with value := k.signature }.release⟩)
  | (.error x, _), _ | _, (.error x, _) => (.error (.ofExclusive x), s, e)

end verifying

/-! ### Updates -/

/-- The region that an update is for: a region of the verified manifest that the host may write, inside
the part of the flash that updates may write. -/
def updateTarget (s : Session σ υ) (firmware : Option Bytes) (version : Bytes) (index : Nat) :
    Except Error Region := do
  s.requireVerified
  if s.host.isUpdating then throw .updateInProgress
  let m ← s.stored.manifest.mapError .manifest
  let regions ← (m.rwRegions firmware version).mapError .manifest
  match regions[index]? with
  | some rw =>
    if rw.region.isWithin s.options.updateRegion then return rw.region
    else throw .regionNotWritable
  | none => throw .regionNotWritable

section updating
variable [Flash υ]

/-- Runs a step of the updater; there is no result where there is no update. -/
def onUpdater {α : Type} (step : Updater.Step υ α) (s : Session σ υ) :
    Option (Except Update.Error α) × Session σ υ :=
  let (r, h) := s.host.onUpdater step
  (r, { s with host := h })

/-- Lends the host's flash to an updater of a region. -/
def lend (region : Region) : ExceptT Error (StateM (Session σ υ)) Unit := fun s =>
  let (r, h) := Update.Host.lend region s.options.eraseUnit s.host
  (r.mapError .update, { s with host := h })

/-- Prepares the update of `n` bytes. -/
def prepare (n : Nat) : ExceptT Error (StateM (Session σ υ)) Unit := fun s =>
  match s.onUpdater (if s.options.eraseAll then Updater.prepareErased n else Updater.prepare n) with
  | (some r, s) => (r.mapError .update, s)
  | (none, s) => (.error .updateInProgress, s)

/-- Begins an update of `n` bytes.  An update that cannot be prepared has to be ended nevertheless. -/
def beginUpdate (firmware : Option Bytes) (version : Bytes) (index n : Nat) :
    ExceptT Error (StateM (Session σ υ)) Unit := do
  let s ← get
  let region ← MonadExcept.ofExcept (s.updateTarget firmware version index)
  lend region
  prepare n

end updating

/-! ### Policies -/

section filtering
variable {δ : Type} [Filter.Hardware δ]

/-- Derives the policy for one version of a firmware. -/
def synthesize (firmware : Option Bytes) (version : Bytes) (s : Session σ υ) (d : δ) :
    Except Error Filter.Policy × Session σ υ × δ :=
  match s.requireVerified.bind fun _ => s.stored.manifest.mapError .manifest with
  | .error e => (.error e, s, d)
  | .ok m =>
    match Filter.Policy.synthesize m firmware version s.options.target d with
    | (.ok p, d) => (.ok p, { s with policy := some p }, d)
    | (.error e, d) => (.error (.filter e), s, d)

/-- Programs the policy, and locks the filters if asked to. -/
def apply (s : Session σ υ) (lock : Bool) : ExceptT Error (StateM δ) Unit :=
  match s.policy with
  | none => throw .notSynthesized
  | some p => ExceptT.adapt .filter (p.apply lock)

end filtering

end Session

end PlatformGuard
