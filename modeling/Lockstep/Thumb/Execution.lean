import Lockstep.Thumb.Encoding
import Lockstep.Thumb.Transfer

/-!
Execution of THUMB instructions. While one executes, the program counter reads as its address plus four.
-/

namespace Lockstep.Thumb

variable {σ : Type} (bus : Bus σ)

/-- Leave the address of the next instruction in the link register, marked as THUMB code. -/
def linkNext (m : Machine σ) : Machine σ := m.mapRegs fun f => f.setLr (f.pc - 1)

def branchExchange (link : Bool) (s : Register) (m : Machine σ) : Machine σ :=
  let target := m.reg s
  bus.jumpExchange target (if link then linkNext m else m)

def loadAddress (stack : Bool) (d : LowRegister) (offset : Word) (m : Machine σ) : Machine σ :=
  let base := if stack then m.cpu.regs.sp else m.cpu.regs.alignedPc
  setLow d (base + offset) m

def branchIf (c : Condition) (distance : Int) (m : Machine σ) : Machine σ :=
  if m.cpu.regs.satisfies c then bus.jumpRelative distance m else m

def longBranchSuffix (offset : Word) (exchange : Bool) (m : Machine σ) : Machine σ :=
  let target := m.cpu.regs.lr + offset
  let m := linkNext m
  bus.jump target (if exchange then m.setFlag .thumb false else m)

def perform (word : Halfword) : Instruction → Exec σ Unit
  | .shift kind d s amount => modify (shift kind d s amount)
  | .addSub sub d s operand => modify (addSub sub d s operand)
  | .immediate op d v => modify (immediate op d v)
  | .alu op d s => modify (alu bus op d s)
  | .high op d s => modify (high bus op d s)
  | .branchExchange link s => modify (branchExchange bus link s)
  | .loadRelative d offset => modify (loadRelative bus d offset)
  | .transferRegister op d base offset => modify fun m => transfer bus op d (low m base + low m offset) m
  | .transferImmediate op d base offset => modify fun m => transfer bus op d (low m base + offset) m
  | .transferStack load d offset =>
    modify fun m => transfer bus (if load then .loadWord else .storeWord) d (m.cpu.regs.sp + offset) m
  | .loadAddress stack d offset => modify (loadAddress stack d offset)
  | .adjustStack distance => modify (·.mapRegs fun f => f.setSp (Word.shiftBy f.sp distance))
  | .push list link => modify (push bus list link)
  | .pop list counter => modify (pop bus list counter)
  | .transferMultiple load base list =>
    modify (if load then loadMultiple bus base list else storeMultiple bus base list)
  | .branchIf c distance => modify (branchIf bus c distance)
  | .softwareInterrupt number => bus.softwareInterrupt number
  | .branch distance => modify (bus.jumpRelative distance)
  | .longBranchPrefix distance =>
    modify (·.mapRegs fun f => f.setLr (Word.shiftBy f.pc distance))
  | .longBranchSuffix offset exchange => modify (longBranchSuffix bus offset exchange)
  | .undefined => Exec.unsupported (word.setWidth 32)

def execute (h : Halfword) : Exec σ Unit := perform bus h (decode bus.isV5 h)

end Lockstep.Thumb
