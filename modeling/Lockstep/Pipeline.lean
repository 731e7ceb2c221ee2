import Lockstep.Machine

/-!
Instruction fetches. Writing the program counter refills the pipeline: the target is fetched out of
sequence and the instruction after it in sequence, and the counter ends up one instruction past the
target. An ordinary fetch charges for the instruction two places ahead of the one that it returns.
-/

namespace Lockstep.Bus

variable {σ : Type} (bus : Bus σ)

def fetchWidth (m : Machine σ) : Width := if m.cpu.isThumb then .half else .word

/-- Continue at an address, rounded down to an instruction. -/
def jump (target : Address) (m : Machine σ) : Machine σ :=
  let size := m.cpu.regs.instructionSize
  let w := fetchWidth m
  let target := Word.alignDown target size
  let next := target + size
  let (first, m) := bus.waitTime w target Access.nonsequential.asCode m
  let (second, m) := bus.waitTime w next Access.sequel.asCode m
  m.mapCpu fun p =>
    { p with regs := { p.regs with pc := next }, timestamp := p.timestamp + (first + second),
             fetchKind := .sequel }

def jumpRelative (distance : Int) (m : Machine σ) : Machine σ :=
  bus.jump (Word.shiftBy m.cpu.regs.pc distance) m

/-- Continue at an address whose lowest bit chooses the instruction set. -/
def jumpExchange (target : Word) (m : Machine σ) : Machine σ :=
  bus.jump target (m.setFlag .thumb (target.getLsbD 0))

def setReg (r : Register) (v : Word) (m : Machine σ) : Machine σ :=
  if r = Register.pc then bus.jump v m else m.mapRegs (·.write r v)

/-- Set a register to a loaded value. On the newer architecture a value loaded into the program counter
chooses the instruction set. -/
def setRegLoaded (r : Register) (v : Word) (m : Machine σ) : Machine σ :=
  if r = Register.pc then
    if bus.isV5 then bus.jumpExchange v m else bus.jump v m
  else m.mapRegs (·.write r v)

def fetch (m : Machine σ) : Word × Machine σ :=
  let size := m.cpu.regs.instructionSize
  let w := fetchWidth m
  let m := m.mapRegs fun f => { f with pc := f.pc + size }
  let ahead := m.cpu.regs.pc
  let m := (bus.wait w ahead m.cpu.fetchKind.asCode m).setFetchKind .sequel
  bus.load w (ahead - size * 2) m

def enter (kind : Exception) (returnTo : Address) (m : Machine σ) : Machine σ :=
  let old := m.cpu.regs.cpsr
  let m := m.mapRegs fun f =>
    let f := ((f.setMode kind.mode).setFlag .thumb false).setFlag .irqDisable true
    let f := if kind.masksFiq then f.setFlag .fiqDisable true else f
    (f.setLr returnTo).setSpsr old
  bus.jump (m.cpu.exceptionBase + kind.vector) m

/-- Enter the interrupt handler if an interrupt can be serviced. The link register is four past the
next instruction. -/
def checkInterrupt (m : Machine σ) : Machine σ :=
  if m.cpu.serviceable then bus.enter .irq (m.cpu.nextAddress + 4) m else m

/-- What a load or store of several registers does if it lists none: the base moves by 64 bytes, and the
older architecture transfers the program counter, at the lowest place of a transfer of all sixteen. -/
def transferNone (base : Register) (store up before : Bool) (m : Machine σ) : Machine σ :=
  let start := m.reg base
  let m := bus.setReg base (Word.offset start 0x40 up) m
  if bus.isV5 then m
  else
    let addr :=
      match up, before with
      | true, true => start + 4
      | true, false => start
      | false, true => start - 0x40
      | false, false => start - 0x3C
    if store then
      bus.write .word addr (m.cpu.regs.pc + m.cpu.regs.instructionSize) .nonsequential m
    else
      let (v, m) := bus.read .word addr .nonsequential m
      bus.jump v m

end Lockstep.Bus

namespace Lockstep

def Exec.setCpsr {σ : Type} (v : Word) : Exec σ Unit := do
  match (← get).cpu.regs.setCpsr v with
  | .ok regs => modify (·.mapRegs fun _ => regs)
  | .error fault => throw fault

/-- Fail because the instruction does not exist. -/
def Exec.unsupported {σ : Type} (inst : Word) : Exec σ Unit := do
  throw ((← get).cpu.unsupported inst)

/-- A software interrupt, which the system may carry out itself; otherwise its handler returns to the
instruction after it. -/
def Bus.softwareInterrupt {σ : Type} (bus : Bus σ) (number : BitVec 8) : Exec σ Unit := do
  if ← bus.softwareCall number then
    modify (·.note .trace ("SWI 0x" ++ Text.hexPadded 2 number.toNat ++ " handled by system"))
  else
    modify fun m =>
      bus.enter .softwareInterrupt (m.cpu.currentAddress + m.cpu.regs.instructionSize) m

/-- How many cycles the multiplier takes for an operand. It stops early when only zero bytes remain, or
only bytes of ones in a signed multiplication. -/
def multiplierCycles (v : Word) (signed : Bool) : Nat :=
  let settled (bytes : Nat) : Bool :=
    let mask := BitVec.allOnes 32 <<< (8 * bytes)
    v &&& mask == 0 || signed && v &&& mask == mask
  ([1, 2, 3].find? settled).getD 4

def Machine.idleMultiplier {σ : Type} (m : Machine σ) (v : Word) (signed : Bool) : Machine σ :=
  { m.idle (multiplierCycles v signed) with cpu.fetchKind := .nonsequential }

end Lockstep
