import Lockstep.Console.Views
import Lockstep.Step

/-!
The console. Its two processors run in lockstep: the system clock counts cycles of the ARM7, and before it
moves on both processors catch up with it, first the ARM9, which runs twice as fast. Then the clock
moves to the next event, but not too far at once, and the events that are due are dispatched.
-/

namespace Lockstep.Console

structure Board (δ : Type) where
  cpu9 : Processor
  cpu7 : Processor
  hardware : Hardware δ
  /-- Cleared by a pause and by a failure. -/
  running : Bool
  journal : Journal

inductive Failure where
  /-- A processor met a fault. -/
  | stopped (id : ProcessorId) (cause : Fault)
  /-- A processor is halted for good: nothing wakes it and no time passes while it waits. -/
  | stalled (id : ProcessorId)
  /-- Events went on scheduling events that are due at once. -/
  | flooded
  /-- A clock went past the last time that it can show. -/
  | overrun
deriving DecidableEq, Repr

def Failure.message : Failure → String
  | .stopped id _ => id.label ++ " stopped"
  | .stalled id => id.label ++ " stalled"
  | .flooded => "events without end"
  | .overrun => "clock overrun"

/-- The stack pointers that the firmware of the ARM9 leaves behind. -/
def stacks9 : StackTops := ⟨0x03002F7C, 0x03003F80, 0x03003FC0⟩

def stacks7 : StackTops := ⟨0x0380FD80, 0x0380FF80, 0x0380FFC0⟩

namespace Board

variable {δ : Type}

/-- Reset the processors and all hardware; memory and devices keep what they hold. -/
def reset (s : Board δ) : Board δ :=
  let hardware := s.hardware.reset
  { s with
    cpu9 := { s.cpu9 with exceptionBase := hardware.control.exceptionBase }.reset
    cpu7 := s.cpu7.reset
    hardware
    running := true }

def powerOn (config : Configuration) (devices : δ) : Board δ :=
  reset
    { cpu9 := .powerOn .v5
      cpu7 := .powerOn .v4
      hardware := .powerOn config devices
      running := true
      journal := #[] }

def note (s : Board δ) (level : Level) (text : String) : Board δ :=
  { s with journal := s.journal.note level text }

/-- Start both processors at their entry points with what firmware leaves behind. -/
def enterProgram (s : Board δ) (entry9 entry7 : Address) : Board δ :=
  let s :=
    { s with
      cpu9 := s.cpu9.enterProgram entry9 stacks9
      cpu7 := s.cpu7.enterProgram entry7 stacks7
      hardware := { s.hardware with bootFlags := .both 1 } }
  s.note .info ("Direct boot: ARM9 at " ++ Text.address entry9.toNat ++ ", ARM7 at " ++
    Text.address entry7.toNat)

/-- Start from a reset, either at the entry points or in the firmware. -/
def boot (s : Board δ) (entry9 entry7 : Address) : Board δ :=
  let s := s.reset
  if s.hardware.config.skipBoot then s.enterProgram entry9 entry7 else s

/-- The current system time, in cycles of the ARM7. -/
def now (s : Board δ) : Nat := s.hardware.schedule.now

def processor (s : Board δ) : ProcessorId → Processor
  | .arm7 => s.cpu7
  | .arm9 => s.cpu9

def mapProcessor (id : ProcessorId) (f : Processor → Processor) (s : Board δ) : Board δ :=
  match id with
  | .arm7 => { s with cpu7 := f s.cpu7 }
  | .arm9 => { s with cpu9 := f s.cpu9 }

def withNode {α : Type} (id : ProcessorId) (act : Node δ → α × Node δ) (s : Board δ) : α × Board δ :=
  match id, s with
  | .arm9, ⟨cpu9, cpu7, hardware, running, journal⟩ =>
    let (a, m) := act ⟨cpu9, hardware, journal⟩
    (a, ⟨m.cpu, cpu7, m.system, running, m.journal⟩)
  | .arm7, ⟨cpu9, cpu7, hardware, running, journal⟩ =>
    let (a, m) := act ⟨cpu7, hardware, journal⟩
    (a, ⟨cpu9, m.cpu, m.system, running, m.journal⟩)

def requestInterrupt (s : Board δ) (id : ProcessorId) (line : Nat) : Board δ :=
  s.mapProcessor id (·.requestInterrupt line)

def takesInterrupt (s : Board δ) (id : ProcessorId) : Bool := (s.processor id).serviceable

def scheduleAfter (s : Board δ) (e : DeviceEvent) (delay : Nat) : Board δ :=
  let (schedule, journal) := s.hardware.schedule.planAfter (.device e) delay s.journal
  { s with hardware := { s.hardware with schedule }, journal }

def deliverInterrupts (s : Board δ) : Board δ :=
  let raised := s.hardware.raised
  { s with
    cpu9 := s.cpu9.requestInterrupts raised.arm9
    cpu7 := s.cpu7.requestInterrupts raised.arm7
    hardware := { s.hardware with raised := .both 0 } }

variable (devices : Devices δ)

def bus : ProcessorId → Bus (Hardware δ)
  | .arm7 => bus7 devices
  | .arm9 => bus9 devices

def storeBytes (id : ProcessorId) : List (BitVec 8) → Address → Board δ → Board δ
  | [], _, s => s
  | b :: rest, a, s =>
    let ((), s) := s.withNode id fun m => ((), (bus devices id).store .byte a (b.setWidth 32) m)
    storeBytes id rest (a + 1) s

/-- Write bytes as a processor would, but without spending time. -/
def writeBytes (s : Board δ) (id : ProcessorId) (a : Address) (bytes : List (BitVec 8)) : Board δ :=
  storeBytes devices id bytes a s

def writeWord (s : Board δ) (id : ProcessorId) (a : Address) (v : Word) : Board δ :=
  (s.withNode id fun m => ((), (bus devices id).store .word a v m)).2

def readWord (s : Board δ) (id : ProcessorId) (a : Address) : Word × Board δ :=
  s.withNode id ((bus devices id).load .word a)

end Board

/-- Driving a console, which can fail; the console is kept as the failure left it. -/
abbrev Drive (δ : Type) := EStateM Failure (Board δ)

namespace Drive

variable {δ : Type} (devices : Devices δ)

/-- Fail unless a clock can show a time. All clocks have 64 bits, and what is added up on them is checked: a sum that
does not fit ends a call without success. -/
def ensureShown (time : Nat) : Drive δ Unit := do
  unless time ≤ Schedule.lastTime do throw .overrun

/-- Step a processor until its clock reaches `target`. A step takes time unless it only wakes the processor
up, so twice the missing cycles are enough steps for a processor that is not stalled. -/
def catchUp (id : ProcessorId) (target : Nat) : Drive δ Unit := do
  let steps := 2 * (target - ((← get).processor id).timestamp)
  let run (m : Node δ) : Except Failure Unit × Node δ :=
    match (Exec.stepWhile (Board.bus devices id) (·.cpu.timestamp < target) steps).run m with
    | .ok true m => (.ok (), m)
    | .ok false m => (.error (.stalled id), m)
    | .error e m => (.error (.stopped id e), m)
  let outcome ← modifyGet (Board.withNode id run)
  -- a step that overruns the clock has passed the target, so none comes after it
  ensureShown ((← get).processor id).timestamp
  match outcome with
  | .ok () => pure ()
  | .error e => throw e

def runProcessors : Drive δ Unit := do
  let now := (← get).now
  ensureShown (2 * now)
  catchUp devices .arm9 (2 * now)
  catchUp devices .arm7 now

/-- How far the clock moves: to the next event, but by at least one cycle and at most `longestStep`. -/
def stepLength (s : Board δ) : Nat :=
  let most := max s.hardware.config.longestStep 1
  match s.hardware.schedule.untilNext with
  | some n => max 1 (min n most)
  | none => most

def dispatch (e : Due SystemEvent) (s : Board δ) : Board δ :=
  match e.kind with
  | .pause => { s with running := false }
  | .device event =>
    let act (d : δ) (c : DeviceContext) : Unit × δ × DeviceContext :=
      ((), devices.handle event e.lateBy d c)
    let ((), hardware, journal) := s.hardware.withDevices act s.journal
    { s with hardware, journal }.deliverInterrupts

/-- Dispatch all events that are due, `limit` of them at most. -/
def dispatchDue : (limit : Nat) → Drive δ Unit
  | 0 => do if (← get).hardware.schedule.isDue then throw .flooded
  | limit + 1 => do
    let (e, schedule) := (← get).hardware.schedule.takeDue
    match e with
    | none => pure ()
    | some e =>
      modify fun s => dispatch devices e { s with hardware := { s.hardware with schedule } }
      dispatchDue limit

/-- Let both processors catch up, move the clock on, and dispatch what is due, `limit` events at most. -/
def advance (limit : Nat) : Drive δ Unit := do
  try runProcessors devices
  catch e =>
    modify fun s => { s.note .error ("Emulation stopped: " ++ e.message) with running := false }
    throw e
  modify Board.deliverInterrupts
  let s ← get
  ensureShown (s.now + stepLength s)
  set { s with hardware := { s.hardware with schedule := s.hardware.schedule.advance (stepLength s) } }
  dispatchDue devices limit

/-- Advance until the clock reaches `target` or something pauses the console. The clock moves each time, so
the missing cycles bound how often. -/
def advanceUntil (limit target : Nat) : (steps : Nat) → Drive δ Unit
  | 0 => pure ()
  | steps + 1 => do
    let s ← get
    if s.running && s.now < target then
      advance devices limit
      advanceUntil limit target steps

def runFor (limit cycles : Nat) : Drive δ Unit := do
  let target := (← get).now + cycles
  ensureShown target
  modify ({ · with running := true })
  advanceUntil devices limit target cycles

end Drive

end Lockstep.Console
