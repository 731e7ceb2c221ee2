import Lockstep.Console.MemoryMap
import Lockstep.Firmware

/-!
The console as each of its processors sees it. The tightly coupled memories are on the ARM9's own bus and
never make it wait.
-/

namespace Lockstep.Console

variable {δ : Type} (devices : Devices δ)

/-- Firmware calls go to the console if it is configured to carry them out. -/
def offerCall (bus : Bus (Hardware δ)) (number : BitVec 8) : Exec (Hardware δ) Bool := do
  if (← get).system.config.emulateCalls then Firmware.call bus number else return false

def memoryBus7 : Bus (Hardware δ) where
  architecture := .v4
  get := Node.read7 devices
  set := Node.write7 devices
  waitTime w a kind m := (m.system.waitstates.get .arm7 a (.of w kind), m)

def bus7 : Bus (Hardware δ) :=
  { memoryBus7 devices with
    softwareCall := offerCall (memoryBus7 devices)
    tracing := (·.config.traceInstructions)
    dozeLength := (·.config.dozeLength) }

def waitTime9 (w : Width) (a : Address) (kind : Access) (h : Hardware δ) : Nat :=
  let hit := if kind.write then h.control.writeHit? a else h.control.readHit? a
  if hit.isSome then 1 else h.waitstates.get .arm9 a (.of w kind)

def memoryBus9 : Bus (Hardware δ) where
  architecture := .v5
  get := Node.read9 devices
  set := Node.write9 devices
  waitTime w a kind m := (waitTime9 w a kind m.system, m)

def readControl (reg : ControlRegister) (m : Node δ) : Option Word × Node δ :=
  let (v, journal) := m.system.control.read reg m.journal
  (some v, { m with journal })

/-- Write to the system control coprocessor, which can halt the processor and move its exception vectors. -/
def writeControl (reg : ControlRegister) (v : Word) (m : Node δ) : Bool × Node δ :=
  let (control, journal) := m.system.control.write reg v m.journal
  let cpu := if SystemControl.waits reg then m.cpu.halt else m.cpu
  (true,
    { cpu := { cpu with exceptionBase := control.exceptionBase }
      system := { m.system with control }
      journal })

def bus9 : Bus (Hardware δ) :=
  { memoryBus9 devices with
    softwareCall := offerCall (memoryBus9 devices)
    controlRead := readControl
    controlWrite := writeControl
    tracing := (·.config.traceInstructions)
    dozeLength := (·.config.dozeLength) }

end Lockstep.Console
