import Lockstep.Journal
import Lockstep.Processor

/-!
A machine is a processor together with the system around it and the journal of both. The bus is all that
the processor knows of that system. Its operations see the whole machine, so that a device register can
raise an interrupt or halt the processor that accesses it.
-/

namespace Lockstep

structure Machine (σ : Type) where
  cpu : Processor
  system : σ
  journal : Journal

namespace Machine

variable {σ : Type} (m : Machine σ)

def mapCpu (f : Processor → Processor) : Machine σ := { m with cpu := f m.cpu }

def mapSystem (f : σ → σ) : Machine σ := { m with system := f m.system }

def mapRegs (f : Registers → Registers) : Machine σ := m.mapCpu (·.mapRegs f)

def note (level : Level) (text : String) : Machine σ := { m with journal := m.journal.note level text }

def idle (cycles : Nat) : Machine σ := m.mapCpu (·.idle cycles)

def idleNonsequential : Machine σ := m.mapCpu (·.idleNonsequential)

def setFetchKind (a : Access) : Machine σ := m.mapCpu ({ · with fetchKind := a })

def setFlag (x : Flag) (b : Bool) : Machine σ := m.mapRegs (·.setFlag x b)

def reg (r : Register) : Word := m.cpu.regs.read r

def regLate (r : Register) : Word := m.cpu.regs.readLate r

def flag (x : Flag) : Bool := m.cpu.regs.flag x

end Machine

/-- Execution that a fault can end. The machine is kept as the fault left it. -/
abbrev Exec (σ : Type) := EStateM Fault (Machine σ)

structure ControlRegister where
  opcode1 : Nat := 0
  primary : Nat
  secondary : Nat
  opcode2 : Nat
deriving DecidableEq, Repr

/-- The four numbers in the order of their place in the instruction. -/
def ControlRegister.text (r : ControlRegister) : String :=
  toString r.opcode1 ++ ", C" ++ toString r.primary ++ ", C" ++ toString r.secondary ++ ", " ++
    toString r.opcode2

/-- What a system offers to its processor. The last five have a meaning for a system without any of
what they are about. -/
structure Bus (σ : Type) where
  architecture : Architecture
  /-- The contents of memory at an address. -/
  get : Width → Address → Machine σ → Word × Machine σ
  set : Width → Address → Word → Machine σ → Machine σ
  /-- The cycles that an access takes. -/
  waitTime : Width → Address → Access → Machine σ → Nat × Machine σ
  /-- Offered each software interrupt; answers whether the system has carried it out itself. -/
  softwareCall : BitVec 8 → Exec σ Bool := fun _ => pure false
  /-- Read a coprocessor register, unless there is no coprocessor. -/
  controlRead : ControlRegister → Machine σ → Option Word × Machine σ := fun _ m => (none, m)
  controlWrite : ControlRegister → Word → Machine σ → Bool × Machine σ := fun _ _ m => (false, m)
  /-- Whether executed instructions go into the journal. -/
  tracing : σ → Bool := fun _ => false
  /-- The cycles that a halted processor lets pass before it looks for interrupts. -/
  dozeLength : σ → Nat := fun _ => 4

namespace Bus

variable {σ : Type} (bus : Bus σ)

def isV5 : Bool := bus.architecture.isV5

/-- Get memory without spending time. -/
def load (w : Width) (a : Address) (m : Machine σ) : Word × Machine σ :=
  let (v, m) := bus.get w a m
  (w.truncate v, m)

def store (w : Width) (a : Address) (v : Word) (m : Machine σ) : Machine σ :=
  bus.set w a (w.truncate v) m

def wait (w : Width) (a : Address) (kind : Access) (m : Machine σ) : Machine σ :=
  let (cycles, m) := bus.waitTime w a kind m
  m.idle cycles

/-- Read memory. The older architecture rotates a halfword that lies at an odd address. -/
def read (w : Width) (a : Address) (kind : Access) (m : Machine σ) : Word × Machine σ :=
  let (v, m) := bus.load w a (bus.wait w a kind m)
  (if !bus.isV5 && w == .half && a.getLsbD 0 then v.rotateRight 8 else v, m)

def write (w : Width) (a : Address) (v : Word) (kind : Access) (m : Machine σ) : Machine σ :=
  bus.store w a v (bus.wait w a kind.asWrite m)

/-- Read a signed halfword. At an odd address the older architecture gives its upper byte. -/
def readSignedHalf (a : Address) (kind : Access) (m : Machine σ) : Word × Machine σ :=
  let (v, m) := bus.load .half a (bus.wait .half a kind m)
  (if !bus.isV5 && a.getLsbD 0 then Word.extend (v.extractLsb' 8 8) else Word.extend (v.setWidth 16), m)

/-- Read a word. An address inside a word rotates it, so that the addressed byte comes lowest. -/
def readRotated (a : Address) (kind : Access) (m : Machine σ) : Word × Machine σ :=
  let (v, m) := bus.read .word (Word.alignDown a 4) kind m
  (v.rotateRight (8 * (a.toNat % 4)), m)

end Bus

end Lockstep
