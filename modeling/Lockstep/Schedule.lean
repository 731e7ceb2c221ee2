import Lockstep.Journal

/-!
A schedule of events on a clock. Events come out in the order of their times, those of one time in the
order in which they were scheduled. A schedule holds only so many events and drops what does not fit.
-/

namespace Lockstep

/-- An event that has come out, and by how much it is late. -/
structure Due (κ : Type) where
  kind : κ
  lateBy : Nat
deriving DecidableEq, Repr

structure Planned (κ : Type) where
  kind : κ
  time : Nat
deriving DecidableEq, Repr

structure Schedule (κ : Type) where
  now : Nat := 0
  /-- The waiting events, soonest first. -/
  events : List (Planned κ) := []
deriving Repr

namespace Schedule

variable {κ : Type}

instance : Inhabited (Schedule κ) := ⟨{}⟩

def capacity : Nat := 32

/-- The last point in time that the clock can show. -/
def lastTime : Nat := 0xFFFFFFFFFFFFFFFF

/-- Insert an event after all those that are not later. -/
def insert (e : Planned κ) : List (Planned κ) → List (Planned κ)
  | [] => [e]
  | x :: xs => if x.time ≤ e.time then x :: insert e xs else e :: x :: xs

/-- Plan an event for a point in time, unless the schedule is full. -/
def plan? (s : Schedule κ) (kind : κ) (time : Nat) : Option (Schedule κ) :=
  if s.events.length < capacity then some { s with events := insert ⟨kind, time⟩ s.events } else none

/-- Plan an event for a point in time; if it has to be dropped, the journal says so. An event planned for
the past is due at once. -/
def planAt (s : Schedule κ) (kind : κ) (time : Nat) (journal : Journal) : Schedule κ × Journal :=
  match s.plan? kind time with
  | some s => (s, journal)
  | none =>
    (s, journal.note .error ("Scheduler is full, dropping event scheduled at " ++ toString time))

def planAfter (s : Schedule κ) (kind : κ) (delay : Nat) (journal : Journal) : Schedule κ × Journal :=
  s.planAt kind (min (s.now + delay) lastTime) journal

def advance (s : Schedule κ) (cycles : Nat) : Schedule κ := { s with now := s.now + cycles }

def takeDue (s : Schedule κ) : Option (Due κ) × Schedule κ :=
  match s.events with
  | [] => (none, s)
  | e :: rest =>
    if e.time ≤ s.now then (some ⟨e.kind, s.now - e.time⟩, { s with events := rest }) else (none, s)

/-- Take out the next event, moving the clock to its time if that is in the future. -/
def take (s : Schedule κ) : Option (Due κ) × Schedule κ :=
  match s.events with
  | [] => (none, s)
  | e :: rest =>
    let now := max s.now e.time
    (some ⟨e.kind, now - e.time⟩, { now, events := rest })

def cancel [DecidableEq κ] (s : Schedule κ) (kind : κ) : Schedule κ :=
  { s with events := s.events.filter (·.kind ≠ kind) }

def pending (s : Schedule κ) : Nat := s.events.length

def nextTime (s : Schedule κ) : Option Nat := s.events.head?.map (·.time)

def isDue (s : Schedule κ) : Bool := s.events.head?.any (·.time ≤ s.now)

def untilNext (s : Schedule κ) : Option Nat := s.nextTime.map (· - s.now)

end Schedule

end Lockstep
