import Lockstep.Arm.BlockTransfer
import Lockstep.Arm.DataProcessing
import Lockstep.Arm.Encoding
import Lockstep.Arm.Multiplication
import Lockstep.Arm.Transfer

/-!
Execution of ARM instructions. While one executes, the program counter reads as its address plus eight.
-/

namespace Lockstep.Arm

variable {σ : Type} (bus : Bus σ)

def linkNext (m : Machine σ) : Machine σ := m.mapRegs fun f => f.setLr (f.pc - 4)

def branchThumb (distance : Int) (m : Machine σ) : Machine σ :=
  bus.jumpRelative distance ((linkNext m).setFlag .thumb true)

def branchExchange (link : Bool) (r : Register) (m : Machine σ) : Machine σ :=
  let target := m.reg r
  bus.jumpExchange target (if link then linkNext m else m)

/-- Transfer between a register and a coprocessor register; there is only coprocessor 15. A load into the
program counter sets the condition flags instead. -/
def transferControl (inst : Word) (load : Bool) (number : Nat) (reg : ControlRegister) (d : Register) :
    Exec σ Unit := do
  if number ≠ 15 then Exec.unsupported inst
  else if load then
    match ← modifyGet (bus.controlRead reg) with
    | some v =>
      if d = Register.pc then modify (·.mapRegs (·.setConditionFlags v))
      else modify (bus.setReg d v)
    | none => Exec.unsupported inst
  else
    let v := (← get).regLate d
    unless ← modifyGet (bus.controlWrite reg v) do Exec.unsupported inst

def perform (word : Word) : Instruction → Exec σ Unit
  | .branch link distance =>
    modify fun m => bus.jumpRelative distance (if link then linkNext m else m)
  | .branchThumb distance => modify (branchThumb bus distance)
  | .branchExchange link r => modify (branchExchange bus link r)
  | .dataProcessing op setFlags n d operand => processData bus op setFlags n d operand
  | .multiply accumulate setFlags d n s r => modify (multiply bus accumulate setFlags d n s r)
  | .multiplyLong signed accumulate setFlags hi lo s r =>
    modify (multiplyLong bus signed accumulate setFlags hi lo s r)
  | .halfMultiply op d n s r top₁ top₂ => modify (halfMultiply bus op d n s r top₁ top₂)
  | .countLeadingZeros d r => modify (countLeadingZeros bus d r)
  | .saturating op d n r => modify (saturating bus op d n r)
  | .statusRead d saved => modify (readStatus bus d saved)
  | .statusWrite saved flags control source => writeStatus saved flags control source
  | .transfer kind n d offset i => modify (transfer bus kind n d offset i)
  | .blockTransfer load n list user i => blockTransfer bus load n list user i
  | .swap byte n d r => modify (swap bus byte n d r)
  | .coprocessor load number opcode1 primary secondary opcode2 d =>
    transferControl bus word load number { opcode1, primary, secondary, opcode2 } d
  | .softwareInterrupt comment => bus.softwareInterrupt (comment.extractLsb' 16 8)
  | .undefined => Exec.unsupported word

/-- Whether a word executes under the current flags. Under the condition that never holds there is only
the branch into the short instruction set, which the newer architecture has. -/
def executes (v5 : Bool) (f : Registers) (w : Word) : Bool :=
  if condition w = .never then v5 && classOf w == .branch else f.satisfies (condition w)

def execute (w : Word) : Exec σ Unit := do
  if executes bus.isV5 (← get).cpu.regs w then perform bus w (decode bus.isV5 w)

end Lockstep.Arm
