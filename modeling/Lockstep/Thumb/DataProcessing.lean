import Lockstep.Flags
import Lockstep.Pipeline
import Lockstep.Thumb.Instruction

/-!
THUMB data processing. All operations on low registers set flags.
-/

namespace Lockstep.Thumb

variable {σ : Type} (bus : Bus σ)

def low (m : Machine σ) (r : LowRegister) : Word := m.reg r.wide

def setLow (r : LowRegister) (v : Word) (m : Machine σ) : Machine σ := m.mapRegs (·.write r.wide v)

def setFlags (s : Sum) (m : Machine σ) : Machine σ := m.mapRegs (·.setNZCV true s)

def keepSum (d : LowRegister) (s : Sum) (m : Machine σ) : Machine σ := setLow d s.value (setFlags s m)

def shift (kind : Shift) (d s : LowRegister) (amount : Nat) (m : Machine σ) : Machine σ :=
  let r := kind.immediate (low m s) amount (m.flag .carry)
  setLow d r.value (m.mapRegs (·.setNZC true r.value r.carry))

def addSub (sub : Bool) (d s : LowRegister) (operand : Operand) (m : Machine σ) : Machine σ :=
  let a := low m s
  let b :=
    match operand with
    | .register n => low m n
    | .immediate v => v
  keepSum d (if sub then .sub a b else .add a b) m

def immediate (op : ImmediateOp) (d : LowRegister) (v : Word) (m : Machine σ) : Machine σ :=
  let a := low m d
  match op with
  | .mov => setLow d v (m.mapRegs (·.setNZ true v))
  | .cmp => setFlags (.sub a v) m
  | .add => keepSum d (.add a v) m
  | .sub => keepSum d (.sub a v) m

/-- The result of an operation on two low registers, with its flags set and its time spent. -/
def aluResult (op : AluOp) (a b : Word) (m : Machine σ) : Word × Machine σ :=
  let carry := m.flag .carry
  let logical (v : Word) := (v, m.mapRegs (·.setNZ true v))
  let sum (s : Sum) := (s.value, setFlags s m)
  let shifted (kind : Shift) :=
    let r := kind.register a b carry
    (r.value, (m.mapCpu (·.idleNonsequential)).mapRegs (·.setNZC true r.value r.carry))
  match op with
  | .and | .tst => logical (a &&& b)
  | .eor => logical (a ^^^ b)
  | .orr => logical (a ||| b)
  | .bic => logical (a &&& ~~~b)
  | .mvn => logical (~~~b)
  | .lsl => shifted .lsl
  | .lsr => shifted .lsr
  | .asr => shifted .asr
  | .ror => shifted .ror
  | .adc => sum (.addCarry a b carry)
  | .sbc => sum (.subCarry a b carry)
  | .neg => sum (.sub 0 b)
  | .cmp => sum (.sub a b)
  | .cmn => sum (.add a b)
  | .mul =>
    let v := a * b
    let m := (m.idleMultiplier a true).mapRegs (·.setNZ true v)
    (v, if bus.isV5 then m else m.setFlag .carry false)

def alu (op : AluOp) (d s : LowRegister) (m : Machine σ) : Machine σ :=
  let (v, m) := aluResult bus op (low m d) (low m s) m
  if op.writes then setLow d v m else m

/-- Operations that reach all registers; only the comparison sets flags. -/
def high (op : HighOp) (d s : Register) (m : Machine σ) : Machine σ :=
  let a := m.reg d
  let b := m.reg s
  match op with
  | .add => bus.setReg d (a + b) m
  | .cmp => setFlags (.sub a b) m
  | .mov => bus.setReg d b m

end Lockstep.Thumb
