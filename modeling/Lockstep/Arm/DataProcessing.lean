import Lockstep.Arm.Instruction
import Lockstep.Flags
import Lockstep.Pipeline

/-!
Data processing and the status registers. An operation that sets flags and writes the program counter
returns from an exception: instead of the flags it sets the whole status register from the saved one.
-/

namespace Lockstep.Arm

def AluOp.apply (op : AluOp) (f : Registers) (set : Bool) (a b : Word) (carry shifterCarry : Bool) :
    Word × Registers :=
  let logical (v : Word) := (v, f.setNZC set v shifterCarry)
  let sum (s : Sum) := (s.value, f.setNZCV set s)
  match op with
  | .and | .tst => logical (a &&& b)
  | .eor | .teq => logical (a ^^^ b)
  | .orr => logical (a ||| b)
  | .mov => logical b
  | .bic => logical (a &&& ~~~b)
  | .mvn => logical (~~~b)
  | .sub | .cmp => sum (.sub a b)
  | .rsb => sum (.sub b a)
  | .add | .cmn => sum (.add a b)
  | .adc => sum (.addCarry a b carry)
  | .sbc => sum (.subCarry a b carry)
  | .rsc => sum (.subCarry b a carry)

variable {σ : Type} (bus : Bus σ)

/-- Both operands and the carry out of the shifter. A shift amount in a register takes another cycle to
fetch, and the operands are read after it. -/
def fetchOperands (n : Register) (operand : Operand) (m : Machine σ) : (Word × Shifted) × Machine σ :=
  let carry := m.flag .carry
  match operand with
  | .immediate value c => ((m.reg n, ⟨value, c.getD carry⟩), m)
  | .shifted r kind (.immediate k) => ((m.reg n, kind.immediate (m.reg r) k carry), m)
  | .shifted r kind (.register s) =>
    let amount := m.reg s
    let m := m.idleNonsequential
    ((m.regLate n, kind.register (m.regLate r) amount carry), m)

def processData (op : AluOp) (setFlags : Bool) (n d : Register) (operand : Operand) : Exec σ Unit := do
  let carry := (← get).flag .carry
  let (a, b) ← modifyGet (fetchOperands n operand)
  let restores := setFlags && d == Register.pc && op.writes
  let value ← modifyGet fun m =>
    let (v, regs) := op.apply m.cpu.regs (setFlags && !restores) a b.value carry b.carry
    (v, m.mapRegs fun _ => regs)
  let f := (← get).cpu.regs
  if restores && f.mode.hasSaved then Exec.setCpsr f.spsr
  if op.writes then modify (bus.setReg d value)

/-- Read a status register; one bit always reads as set. -/
def readStatus (d : Register) (saved : Bool) (m : Machine σ) : Machine σ :=
  let psr := if saved then m.cpu.regs.spsr else m.cpu.regs.cpsr
  bus.setReg d (Bits.put psr 4 true) m

/-- Write the flags byte or the control byte of a status register. User mode cannot write the control
byte, and no write changes the instruction set. -/
def writeStatus (saved flags control : Bool) (source : StatusSource) : Exec σ Unit := do
  let m ← get
  let f := m.cpu.regs
  let src :=
    match source with
    | .immediate v => v
    | .register r => m.reg r
  let psr := if saved then f.spsr else f.cpsr
  let psr := if flags then (psr &&& 0x00FFFFFF) ||| (src &&& 0xFF000000) else psr
  let psr :=
    if control && f.mode.isPrivileged then (psr &&& 0xFFFFFF00) ||| (src &&& 0xFF) else psr
  if saved then modify (·.mapRegs (·.setSpsr psr))
  else Exec.setCpsr (Bits.put psr 5 f.isThumb)

end Lockstep.Arm
