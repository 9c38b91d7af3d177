import PlatformGuard.Filter

/-!
# Events of the filters

The hardware reports every transaction that it drops.  Reports wait in a queue of limited room; those
that find it full are counted and lost.
-/

namespace PlatformGuard.Filter

/-- A transaction that was dropped. -/
inductive Event where
  | spi (device command : UInt8) (address : Option UInt32)
  | i2c (bus device offset : UInt8)
  deriving DecidableEq, Repr

/-- The largest count of lost events. -/
def maxDropped : Nat := 0xffffffff

/-- A queue of at most `capacity` events, oldest first. -/
structure EventQueue where
  capacity : Nat
  events : List Event := []
  /-- How many events were lost since the queue was last split. -/
  dropped : Nat := 0
  deriving DecidableEq, Repr

namespace EventQueue

/-- Gives the queue to a new pair of users, whose count of lost events starts over. -/
def split (q : EventQueue) : EventQueue := { q with dropped := 0 }

def isFull (q : EventQueue) : Bool := decide (q.capacity ≤ q.events.length)

def isEmpty (q : EventQueue) : Bool := q.events.isEmpty

/-- Appends an event, or counts it as lost. -/
def push (e : Event) : ExceptT Error (StateM EventQueue) Unit := fun q =>
  if q.isFull then (.error .full, { q with dropped := min (q.dropped + 1) maxDropped })
  else (.ok (), { q with events := q.events ++ [e] })

/-- Takes the oldest event. -/
def pop (q : EventQueue) : Option Event × EventQueue :=
  (q.events.head?, { q with events := q.events.tail })

/-- Takes the oldest `n` events. -/
def drain (q : EventQueue) (n : Nat) : List Event × EventQueue :=
  (q.events.take n, { q with events := q.events.drop n })

end EventQueue

end PlatformGuard.Filter
