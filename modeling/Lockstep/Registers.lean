import Lockstep.Fault
import Lockstep.Mode
import Lockstep.Register

/-!
The register file. Each register number names a cell of the file under the current mode: r8 to r12 have a
second copy for FIQ mode, and r13 and r14 have one copy per bank. Changing the mode moves nothing; it
only changes which cells the numbers name.
-/

namespace Lockstep

inductive Flag where
  | negative
  | zero
  | carry
  | overflow
  | saturation
  | irqDisable
  | fiqDisable
  | thumb
deriving DecidableEq, Repr

def Flag.position : Flag → Nat
  | .negative => 31
  | .zero => 30
  | .carry => 29
  | .overflow => 28
  | .saturation => 27
  | .irqDisable => 7
  | .fiqDisable => 6
  | .thumb => 5

inductive Slot where
  | low (i : Fin 8)
  | high (i : Fin 5)
  | fast (i : Fin 5)
  | stack (b : Bank)
  | link (b : Bank)
deriving DecidableEq, Repr

def Slot.index : Slot → Fin 30
  | .low i => ⟨i.val, by omega⟩
  | .high i => ⟨8 + i.val, by omega⟩
  | .fast i => ⟨13 + i.val, by omega⟩
  | .stack b => ⟨18 + b.index.val, by omega⟩
  | .link b => ⟨24 + b.index.val, by omega⟩

theorem Slot.index_inj {a b : Slot} : a.index = b.index ↔ a = b := by
  constructor
  · intro h
    have h := congrArg Fin.val h
    cases a <;> cases b <;> simp only [Slot.index] at h <;>
      first
        | omega
        | (congr 1; exact Fin.ext (by omega))
        | (congr 1; exact Bank.index_inj.1 (Fin.ext (by omega)))
  · rintro rfl; rfl

/-- The cell that a register number names in a mode; the program counter lies outside the file. -/
def Mode.slot? (m : Mode) (r : Register) : Option Slot :=
  if h : r.val < 8 then some (.low ⟨r.val, h⟩)
  else if h : r.val < 13 then
    let i : Fin 5 := ⟨r.val - 8, by omega⟩
    some (if m = .fiq then .fast i else .high i)
  else if r = Register.sp then some (.stack m.bank)
  else if r = Register.lr then some (.link m.bank)
  else none

theorem Mode.slot?_eq_none (k : Mode) (r : Register) : k.slot? r = none ↔ r = Register.pc := by
  revert r
  cases k <;> decide

structure Registers where
  cells : Vector Word 30
  /-- The saved status register of each bank; that of the user bank is not used. -/
  saved : Vector Word 6
  pc : Word
  cpsr : Word
  /-- The mode that the low bits of `cpsr` name. -/
  mode : Mode
deriving DecidableEq, Repr

namespace Registers

/-- The file after a reset: Supervisor mode, all interrupts disabled, and all else zero. -/
def initial : Registers where
  cells := Vector.replicate 30 0
  saved := Vector.replicate 6 0
  pc := 0
  cpsr := 0xD3
  mode := .supervisor

instance : Inhabited Registers := ⟨initial⟩

variable (f : Registers)

def cell (s : Slot) : Word := f.cells[s.index]

def setCell (s : Slot) (v : Word) : Registers := { f with cells := f.cells.set s.index v }

def readAs (m : Mode) (r : Register) : Word :=
  match m.slot? r with
  | some s => f.cell s
  | none => f.pc

def read (r : Register) : Word := f.readAs f.mode r

def readUser (r : Register) : Word := f.readAs .user r

/-- A register as instructions see it that use it a cycle later: the program counter has moved on. -/
def readLate (r : Register) : Word := if r = Register.pc then f.pc + 4 else f.read r

/-- Write a register, without what writing the program counter means to the pipeline. -/
def write (r : Register) (v : Word) : Registers :=
  match f.mode.slot? r with
  | some s => f.setCell s v
  | none => { f with pc := v }

/-- Write a register as seen from User mode. The program counter cannot be written this way. -/
def writeUser (r : Register) (v : Word) : Registers :=
  match Mode.user.slot? r with
  | some s => f.setCell s v
  | none => f

def bank : Bank := f.mode.bank

def sp : Word := f.cell (.stack f.bank)
def lr : Word := f.cell (.link f.bank)
def setSp (v : Word) : Registers := f.setCell (.stack f.bank) v
def setLr (v : Word) : Registers := f.setCell (.link f.bank) v

def bankedSp (b : Bank) : Word := f.cell (.stack b)
def bankedLr (b : Bank) : Word := f.cell (.link b)
def setBankedSp (b : Bank) (v : Word) : Registers := f.setCell (.stack b) v

/-- The program counter rounded down to a word, as relative loads use it. -/
def alignedPc : Word := f.pc &&& ~~~2

/-- The saved status register of the current mode; a mode without one shows the current status. -/
def spsr : Word := if f.mode.hasSaved then f.saved[f.bank.index] else f.cpsr

/-- Writes to a saved status register that does not exist are lost. -/
def setSpsr (v : Word) : Registers :=
  if f.mode.hasSaved then { f with saved := f.saved.set f.bank.index v } else f

def flag (x : Flag) : Bool := f.cpsr.getLsbD x.position

def setFlag (x : Flag) (b : Bool) : Registers := { f with cpsr := Bits.put f.cpsr x.position b }

def setConditionFlags (v : Word) : Registers :=
  { f with cpsr := (f.cpsr &&& 0x0FFFFFFF) ||| (v &&& 0xF0000000) }

def setMode (m : Mode) : Registers :=
  { f with cpsr := (f.cpsr &&& ~~~0x1F) ||| m.bits.setWidth 32, mode := m }

def setCpsr (v : Word) : Except Fault Registers :=
  match Mode.ofStatus? v with
  | some m => .ok { f with cpsr := v, mode := m }
  | none => .error (.invalidMode (v &&& 0x1F))

def isThumb : Bool := f.flag .thumb

def instructionSize : Word := if f.isThumb then 2 else 4

theorem instructionSize_cases : f.instructionSize = 2 ∨ f.instructionSize = 4 := by
  unfold instructionSize
  cases f.isThumb
  · exact .inr rfl
  · exact .inl rfl

variable (s t : Slot) (v : Word) (x y : Flag) (b : Bool)

@[simp] theorem setCell_saved : (f.setCell s v).saved = f.saved := rfl
@[simp] theorem setCell_pc : (f.setCell s v).pc = f.pc := rfl
@[simp] theorem setCell_cpsr : (f.setCell s v).cpsr = f.cpsr := rfl
@[simp] theorem setCell_mode : (f.setCell s v).mode = f.mode := rfl

theorem cell_setCell : (f.setCell s v).cell t = if t = s then v else f.cell t := by
  by_cases h : t = s
  · subst h; simp [cell, setCell]
  · have hi : s.index.val ≠ t.index.val := fun e => h (Slot.index_inj.1 (Fin.ext e)).symm
    simp [cell, setCell, h, hi]

@[simp] theorem sp_setSp : (f.setSp v).sp = v := (f.cell_setCell (.stack f.bank) (.stack f.bank) v).trans (if_pos rfl)

@[simp] theorem setFlag_cells : (f.setFlag x b).cells = f.cells := rfl
@[simp] theorem setFlag_saved : (f.setFlag x b).saved = f.saved := rfl
@[simp] theorem setFlag_pc : (f.setFlag x b).pc = f.pc := rfl
@[simp] theorem setFlag_mode : (f.setFlag x b).mode = f.mode := rfl

theorem getLsbD_setFlag (i : Nat) :
    (f.setFlag x b).cpsr.getLsbD i = if i = x.position then b else f.cpsr.getLsbD i :=
  Bits.getLsbD_put _ _ _ _ (by cases x <;> decide)

theorem flag_setFlag : (f.setFlag x b).flag y = if y = x then b else f.flag y := by
  have hp : y.position = x.position ↔ y = x := by cases x <;> cases y <;> decide
  rw [flag, getLsbD_setFlag, flag]
  simp only [hp]

/-- The condition flags are the top four bits. -/
theorem getLsbD_setConditionFlags {i : Nat} (h : i < 28) :
    (f.setConditionFlags v).cpsr.getLsbD i = f.cpsr.getLsbD i := by
  have lo : (0x0FFFFFFF#32).getLsbD i = true := by revert i; decide
  have hi : (0xF0000000#32).getLsbD i = false := by revert i; decide
  simp [setConditionFlags, lo, hi]

@[simp] theorem setMode_cells (k : Mode) : (f.setMode k).cells = f.cells := rfl
@[simp] theorem setMode_saved (k : Mode) : (f.setMode k).saved = f.saved := rfl
@[simp] theorem setMode_mode (k : Mode) : (f.setMode k).mode = k := rfl

theorem setMode_status (k : Mode) : Mode.ofStatus? (f.setMode k).cpsr = some k := by
  have low : (f.setMode k).cpsr.setWidth 5 = k.bits := by simp [setMode]
  rw [Mode.ofStatus?, low, Mode.ofBits?_bits]

theorem setCpsr_ok {v : Word} {f' : Registers} (h : f.setCpsr v = .ok f') :
    ∃ k, Mode.ofStatus? v = some k ∧ f' = { f with cpsr := v, mode := k } := by
  unfold setCpsr at h
  split at h
  · next k hk => cases h; exact ⟨k, hk, rfl⟩
  · cases h

end Registers

end Lockstep
