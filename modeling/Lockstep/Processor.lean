import Lockstep.Access
import Lockstep.Condition
import Lockstep.Exception

/-!
The state of one processor. Between instructions the program counter is one instruction ahead of the
one that executes next; while an instruction executes it is two ahead of that one.
-/

namespace Lockstep

inductive Architecture where
  /-- ARMv4T. -/
  | v4
  /-- ARMv5TE, which has more instructions and switches instruction sets on loads. -/
  | v5
deriving DecidableEq, Repr

namespace Architecture

def isV5 (a : Architecture) : Bool := a == .v5

def exceptionBase : Architecture → Address
  | .v4 => 0
  | .v5 => 0xFFFF0000

def label : Architecture → String
  | .v4 => "ARM7"
  | .v5 => "ARM9"

end Architecture

structure Interrupts where
  master : Bool := false
  enabled : Word := 0
  requested : Word := 0
deriving DecidableEq, Repr, Inhabited

namespace Interrupts

/-- Whether an enabled interrupt is requested, whatever the master switch says. -/
def hasPending (i : Interrupts) : Bool := i.enabled &&& i.requested != 0

def request (i : Interrupts) (lines : Word) : Interrupts := { i with requested := i.requested ||| lines }

def acknowledge (i : Interrupts) (lines : Word) : Interrupts :=
  { i with requested := i.requested &&& ~~~lines }

end Interrupts

structure Processor where
  regs : Registers
  /-- The kind of the next instruction fetch. -/
  fetchKind : Access
  interrupts : Interrupts
  halted : Bool
  /-- Cycles spent so far, in the processor's own clock. -/
  timestamp : Nat
  exceptionBase : Address
deriving DecidableEq, Repr, Inhabited

structure StackTops where
  user : Word
  irq : Word
  supervisor : Word
deriving DecidableEq, Repr

namespace Processor

/-- Zeroed registers in Supervisor mode, about to execute the reset handler; only the exception base
stays. -/
def reset (p : Processor) : Processor where
  regs := { Registers.initial with pc := p.exceptionBase + 4 }
  fetchKind := .nonsequential
  interrupts := {}
  halted := false
  timestamp := 0
  exceptionBase := p.exceptionBase

def powerOn (a : Architecture) : Processor :=
  reset { (default : Processor) with exceptionBase := a.exceptionBase }

/-- The registers that a boot program leaves behind on its way to `entry`. The processor is then in System
mode and executes ARM code. -/
def enterProgram (p : Processor) (entry : Address) (tops : StackTops) : Processor :=
  let regs := Registers.initial
    |>.setBankedSp .user tops.user
    |>.setBankedSp .irq tops.irq
    |>.setBankedSp .supervisor tops.supervisor
    |>.setFlag .irqDisable false
    |>.setFlag .fiqDisable false
    |>.setMode .system
    |>.write ⟨12, by decide⟩ entry
    |>.setLr entry
  { p with regs := { regs with pc := entry + 4 }, fetchKind := .nonsequential, halted := false }

variable (p : Processor)

def isThumb : Bool := p.regs.isThumb

/-- The instruction that executes now; only meaningful during an instruction. -/
def currentAddress : Address := p.regs.pc - p.regs.instructionSize * 2

/-- The instruction that executes next; only meaningful between instructions. -/
def nextAddress : Address := p.regs.pc - p.regs.instructionSize

def mapRegs (f : Registers → Registers) : Processor := { p with regs := f p.regs }

def idle (cycles : Nat) : Processor := { p with timestamp := p.timestamp + cycles }

/-- Let one internal cycle pass, after which the next fetch is not sequential. -/
def idleNonsequential : Processor := { p.idle 1 with fetchKind := .nonsequential }

def halt : Processor := { p with halted := true }

def requestInterrupts (lines : Word) : Processor := { p with interrupts := p.interrupts.request lines }

def requestInterrupt (line : Nat) : Processor := p.requestInterrupts (1#32 <<< line)

def serviceable : Bool :=
  p.interrupts.master && !p.regs.flag .irqDisable && p.interrupts.hasPending

def unsupported (inst : Word) : Fault := .unsupported inst p.currentAddress p.isThumb

end Processor

end Lockstep
