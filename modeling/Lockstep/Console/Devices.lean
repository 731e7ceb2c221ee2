import Lockstep.Console.Waitstates
import Lockstep.Schedule

/-!
Devices are what the console does not have itself. They answer accesses to their registers and handle the
events that they scheduled; in doing so they see the clock, the schedule and the interrupt lines.
-/

namespace Lockstep.Console

inductive DisplayPhase where
  | lineBlankStart
  | lineBlankEnd
  | frameBlankStart
  | frameBlankEnd
deriving DecidableEq, Repr

inductive DeviceEvent where
  | display (phase : DisplayPhase)
  /-- A memory transfer goes on. -/
  | transfer (id : ProcessorId) (channel : BitVec 8)
deriving DecidableEq, Repr

inductive SystemEvent where
  | pause
  | device (e : DeviceEvent)
deriving DecidableEq, Repr

structure Each (α : Type) where
  arm7 : α
  arm9 : α
deriving DecidableEq, Repr

namespace Each

variable {α : Type}

def both (a : α) : Each α := ⟨a, a⟩

def get (e : Each α) : ProcessorId → α
  | .arm7 => e.arm7
  | .arm9 => e.arm9

def set (e : Each α) (id : ProcessorId) (a : α) : Each α :=
  match id with
  | .arm7 => { e with arm7 := a }
  | .arm9 => { e with arm9 := a }

instance [Inhabited α] : Inhabited (Each α) := ⟨both default⟩

end Each

/-- What devices see of the console. -/
structure DeviceContext where
  schedule : Schedule SystemEvent
  /-- Interrupts that were raised and have not reached the processors yet. -/
  raised : Each Word
  journal : Journal

namespace DeviceContext

variable (c : DeviceContext)

def now : Nat := c.schedule.now

def plan (e : SystemEvent) (delay : Nat) : DeviceContext :=
  let (schedule, journal) := c.schedule.planAfter e delay c.journal
  { c with schedule, journal }

def scheduleAfter (e : DeviceEvent) (delay : Nat) : DeviceContext := c.plan (.device e) delay

def cancel (e : DeviceEvent) : DeviceContext := { c with schedule := c.schedule.cancel (.device e) }

def raise (id : ProcessorId) (line : Nat) : DeviceContext :=
  { c with raised := c.raised.set id (c.raised.get id ||| (1#32 <<< line)) }

/-- Stop the console once the current step is done. -/
def pause : DeviceContext := c.plan .pause 0

end DeviceContext

/-- Devices with a state of their own. By default they answer nothing. -/
structure Devices (δ : Type) where
  /-- Read the word at a word address, if there is a register. -/
  read : ProcessorId → Address → δ → DeviceContext → Option Word × δ × DeviceContext :=
    fun _ _ d c => (none, d, c)
  /-- Write those bits of the word at a word address that a mask selects, if there is a register. -/
  write : ProcessorId → Address → (v mask : Word) → δ → DeviceContext → Bool × δ × DeviceContext :=
    fun _ _ _ _ d c => (false, d, c)
  /-- Handle an event, told how late it is. -/
  handle : DeviceEvent → (lateBy : Nat) → δ → DeviceContext → δ × DeviceContext :=
    fun _ _ d c => (d, c)

def Devices.none : Devices Unit := {}

end Lockstep.Console
