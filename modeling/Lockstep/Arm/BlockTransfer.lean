import Lockstep.Arm.Instruction
import Lockstep.Pipeline

/-!
Transfers between memory and a list of registers. Whatever the direction, the lowest register is
transferred first and at the lowest address.
-/

namespace Lockstep.Arm

variable {σ : Type} (bus : Bus σ)

/-- Store registers at consecutive words; those for which `early` holds first get the new value of the
base. -/
def storeEach (user : Bool) (early : Register → Bool) (final : Word) :
    List Register → Address → Access → Machine σ → Machine σ
  | [], _, _, m => m
  | r :: rs, addr, kind, m =>
    let m := if early r then bus.setReg r final m else m
    let v :=
      if r = Register.pc then m.regLate r else if user then m.cpu.regs.readUser r else m.reg r
    storeEach user early final rs (addr + 4) .sequel (bus.write .word addr v kind m)

/-- Load registers from consecutive words. A value for the program counter is given back and not yet
written. -/
def loadEach (user : Bool) (pc : Option Word) :
    List Register → Address → Access → Machine σ → Option Word × Machine σ
  | [], _, _, m => (pc, m)
  | r :: rs, addr, kind, m =>
    let (v, m) := bus.read .word addr kind m
    if user then loadEach user pc rs (addr + 4) .sequel (m.mapRegs (·.writeUser r v))
    else if r = Register.pc then loadEach user (some v) rs (addr + 4) .sequel m
    else loadEach user pc rs (addr + 4) .sequel (m.mapRegs (·.write r v))

/-- Load or store a list of registers. With the mark for the user bank, a load of the program counter
returns from an exception, and any other transfer moves the registers of User mode. -/
def blockTransfer (load : Bool) (n : Register) (list : BitVec 16) (user : Bool) (i : Indexing) :
    Exec σ Unit := do
  let registers := Register.ofList list
  let returns := user && load && list.getLsbD 15
  let userBank := user && !returns
  let start := (← get).reg n
  let size := BitVec.ofNat 32 (4 * registers.length)
  let final := Word.offset start size i.up
  let lowest := if i.up then start else start - size
  let addr := if i.before == i.up then lowest + 4 else lowest
  let first := registers.head?
  let early (r : Register) : Bool := i.writeback && r == n && some r != first && !bus.isV5
  let pc ← modifyGet fun m =>
    if load then loadEach bus userBank none registers addr .nonsequential m
    else (none, storeEach bus userBank early final registers addr .nonsequential m)
  let keepsBase :=
    load && registers.contains n && !(bus.isV5 && (registers.length == 1 || registers.getLast? != some n))
  if i.writeback && !keepsBase then modify (bus.setReg n final)
  if let some target := pc then
    let f := (← get).cpu.regs
    if returns && f.mode.hasSaved then
      Exec.setCpsr f.spsr
      modify (bus.jump target)
    else modify (bus.setRegLoaded Register.pc target)
  if registers.isEmpty then modify (bus.transferNone n (!load) i.up i.before)
  modify (·.setFetchKind .nonsequential)
  if load then modify (·.idle 1)

end Lockstep.Arm
