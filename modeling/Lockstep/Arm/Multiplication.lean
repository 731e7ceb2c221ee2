import Lockstep.Arm.Instruction
import Lockstep.Flags
import Lockstep.Pipeline

/-!
Multiplications and saturating arithmetic. Of the flags, the saturation flag is only ever set here; the
older architecture clears the carry of the multiplications that set flags.
-/

namespace Lockstep.Arm

variable {σ : Type} (bus : Bus σ)

def clearCarryOnV4 (m : Machine σ) : Machine σ := if bus.isV5 then m else m.setFlag .carry false

def multiply (accumulate setFlags : Bool) (d n s r : Register) (m : Machine σ) : Machine σ :=
  let rs := m.reg s
  let product := m.reg r * rs
  let (out, m) := if accumulate then (product + m.reg n, m.idle 1) else (product, m)
  let m := bus.setReg d out m
  let m := if setFlags then clearCarryOnV4 bus (m.mapRegs (·.setNZ true out)) else m
  m.idleMultiplier rs true

def wideProduct (signed : Bool) (a b : Word) : BitVec 64 :=
  if signed then a.signExtend 64 * b.signExtend 64 else a.setWidth 64 * b.setWidth 64

def multiplyLong (signed accumulate setFlags : Bool) (hi lo s r : Register) (m : Machine σ) : Machine σ :=
  let rs := m.reg s
  let product := wideProduct signed (m.reg r) rs
  let m := m.idle 1
  let (out, m) := if accumulate then (product + (m.reg hi ++ m.reg lo), m.idle 1) else (product, m)
  let m := bus.setReg lo (out.setWidth 32) m
  let m := bus.setReg hi (out.extractLsb' 32 32) m
  let m :=
    if setFlags then
      clearCarryOnV4 bus ((m.setFlag .zero (out == 0)).setFlag .negative out.msb)
    else m
  m.idleMultiplier rs signed

def signedHalf (v : Word) (top : Bool) : BitVec 16 := v.extractLsb' (if top then 16 else 0) 16

/-- Add to a product; a signed overflow only sets the saturation flag. -/
def accumulateHalf (product acc : Word) (m : Machine σ) : Word × Machine σ :=
  let s := Sum.add product acc
  (s.value, if s.overflow then m.setFlag .saturation true else m)

def halfMultiply (op : HalfMulOp) (d n s r : Register) (top₁ top₂ : Bool) (m : Machine σ) : Machine σ :=
  let y := signedHalf (m.reg s) top₂
  let halves := Word.extend (signedHalf (m.reg r) top₁) * Word.extend y
  let scaled := ((m.reg r).signExtend 64 * y.signExtend 64).extractLsb' 16 32
  match op with
  | .smla =>
    let (v, m) := accumulateHalf halves (m.reg n) m
    bus.setReg d v m
  | .smlawOrSmulw =>
    if top₁ then bus.setReg d scaled m
    else
      let (v, m) := accumulateHalf scaled (m.reg n) m
      bus.setReg d v m
  | .smlal =>
    let sum := (m.reg d ++ m.reg n) + halves.signExtend 64
    let m := bus.setReg n (sum.setWidth 32) m
    (bus.setReg d (sum.extractLsb' 32 32) m).idle 1
  | .smul => bus.setReg d halves m

/-- The nearest number that a word holds in two's complement. -/
def clamp (x : Int) : Int := max (-0x80000000) (min 0x7FFFFFFF x)

def saturating (op : SaturatingOp) (d n r : Register) (m : Machine σ) : Machine σ :=
  let a := (m.reg r).toInt
  let b := (m.reg n).toInt
  let b :=
    match op with
    | .doubleAdd | .doubleSub => 2 * b
    | .add | .sub => b
  let exact :=
    match op with
    | .add | .doubleAdd => a + clamp b
    | .sub | .doubleSub => a - clamp b
  let saturated := clamp b != b || clamp exact != exact
  let m := if saturated then m.setFlag .saturation true else m
  bus.setReg d (BitVec.ofInt 32 (clamp exact)) m

def countLeadingZeros (d r : Register) (m : Machine σ) : Machine σ :=
  bus.setReg d (Word.leadingZeros (m.reg r)) m

end Lockstep.Arm
