import PlatformGuard.Update

/-!
# Lending a device to an updater

An updater owns its device.  A host keeps the device while there is no updater and gets it back from
the one that it was lent to, so that the device is always in exactly one place.
-/

namespace PlatformGuard.Update

/-- A device at rest, or the updater that it was lent to. -/
inductive Host (φ : Type) where
  | resting (device : φ)
  | updating (updater : Updater φ)
  deriving Repr

namespace Host

variable {φ α : Type}

def device : Host φ → φ
  | resting f => f
  | updating u => u.device

def updater? : Host φ → Option (Updater φ)
  | resting _ => none
  | updating u => some u

def isUpdating (h : Host φ) : Bool := h.updater?.isSome

/-- Changes the device, wherever it is. -/
def mapDevice (f : φ → φ) : Host φ → Host φ
  | resting d => resting (f d)
  | updating u => updating { u with device := f u.device }

/-- Runs a step of the device, wherever it is. -/
def onDevice (step : φ → α × φ) (h : Host φ) : α × Host φ :=
  let (a, f) := step h.device
  (a, h.mapDevice fun _ => f)

/-- Releases the updater, if there is one, and takes the device back. -/
def release (h : Host φ) : Host φ := resting h.device

variable [Flash φ]

/-- Lends the device to a new updater of a region. -/
def lend (region : Region) (unit : EraseUnit) : ExceptT Error (StateM (Host φ)) Unit := fun h =>
  match Updater.start h.device region unit with
  | .ok u => (.ok (), updating u)
  | .error e => (.error e, h)

/-- Runs a step of the updater; there is no result where there is no updater. -/
def onUpdater (step : Updater.Step φ α) : Host φ → Option (Except Error α) × Host φ
  | resting f => (none, resting f)
  | updating u =>
    let (r, u) := step u
    (some r, updating u)

end Host

end PlatformGuard.Update
