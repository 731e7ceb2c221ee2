import Lockstep.Arm.Instruction
import Lockstep.Condition

/-!
The encoding of ARM instructions. Twelve bits of a word, 27 to 20 and 7 to 4, tell its class; the class
tells where the fields are. A few encodings overlap, so the table of classes is searched from the top.
-/

namespace Lockstep.Arm

inductive Class where
  | branch
  | branchExchange
  | softwareInterrupt
  | multiply
  | multiplyLong
  | swap
  | halfTransfer
  | halfMultiply
  | countLeadingZeros
  | saturating
  | statusRead
  | statusWriteRegister
  | statusWriteImmediate
  | dataImmediateShift
  | dataRegisterShift
  | dataImmediate
  | transferImmediate
  | transferRegister
  | blockTransfer
  | coprocessor
  | undefined
deriving DecidableEq, Repr

/-- The bits of a code that a class fixes, and what it fixes them to. -/
structure Pattern where
  fixed : BitVec 12
  bits : BitVec 12
  cls : Class

def Pattern.fits (p : Pattern) (code : BitVec 12) : Bool := code &&& p.fixed == p.bits

/-- The classes; multiplications, swaps, halfword transfers and the instructions of the newer architecture
lie inside data processing and come before it. -/
def patterns : List Pattern := [
  ⟨0b111000000000, 0b101000000000, .branch⟩,
  ⟨0b111100000000, 0b111100000000, .softwareInterrupt⟩,
  ⟨0b111111001111, 0b000000001001, .multiply⟩,
  ⟨0b111110001111, 0b000010001001, .multiplyLong⟩,
  ⟨0b111110111111, 0b000100001001, .swap⟩,
  ⟨0b111000001111, 0b000000001011, .halfTransfer⟩,
  ⟨0b111000001101, 0b000000001101, .halfTransfer⟩,
  ⟨0b111111111111, 0b000100100001, .branchExchange⟩,
  ⟨0b111111111111, 0b000100100011, .branchExchange⟩,
  ⟨0b111111111111, 0b000101100001, .countLeadingZeros⟩,
  ⟨0b111110011111, 0b000100000101, .saturating⟩,
  ⟨0b111110011001, 0b000100001000, .halfMultiply⟩,
  ⟨0b111110111111, 0b000100000000, .statusRead⟩,
  ⟨0b111110111111, 0b000100100000, .statusWriteRegister⟩,
  ⟨0b111110110000, 0b001100100000, .statusWriteImmediate⟩,
  ⟨0b111110010000, 0b000100000000, .undefined⟩,
  ⟨0b111110110000, 0b001100000000, .undefined⟩,
  ⟨0b111000000001, 0b000000000000, .dataImmediateShift⟩,
  ⟨0b111000001001, 0b000000000001, .dataRegisterShift⟩,
  ⟨0b111000000000, 0b001000000000, .dataImmediate⟩,
  ⟨0b111000000000, 0b010000000000, .transferImmediate⟩,
  ⟨0b111000000001, 0b011000000000, .transferRegister⟩,
  ⟨0b111000000000, 0b100000000000, .blockTransfer⟩,
  ⟨0b111100000001, 0b111000000001, .coprocessor⟩]

def Class.ofCode (code : BitVec 12) : Class :=
  match patterns.find? (·.fits code) with
  | some p => p.cls
  | none => .undefined

def code (w : Word) : BitVec 12 := w.extractLsb' 20 8 ++ w.extractLsb' 4 4

def condition (w : Word) : Condition := w.extractLsb' 28 4

def classOf (w : Word) : Class := .ofCode (code w)

def register (w : Word) (lsb : Nat) : Register := (w.extractLsb' lsb 4).toFin

def branchDistance (w : Word) : Int := w.signed 24 * 4

/-- The byte in the low bits, rotated right by twice the number above it. -/
def rotatedImmediate (w : Word) : Word :=
  ((w.extractLsb' 0 8).setWidth 32).rotateRight (2 * (w.extractLsb' 8 4).toNat)

/-- Post-indexing always keeps the address. -/
def indexing (w : Word) : Indexing where
  before := w.getLsbD 24
  up := w.getLsbD 23
  writeback := w.getLsbD 21 || !w.getLsbD 24

def shiftKind (w : Word) : Shift := .ofBits (w.extractLsb' 5 2)

def halfTransferKind? (v5 : Bool) (w : Word) : Option TransferKind :=
  match w.getLsbD 20, (w.extractLsb' 5 2).toNat with
  | false, 1 => some .storeHalf
  | false, 2 => if v5 then some .loadDouble else none
  | false, 3 => if v5 then some .storeDouble else none
  | true, 1 => some .loadHalf
  | true, 2 => some .loadSignedByte
  | true, 3 => some .loadSignedHalf
  | _, _ => none

/-- The offset of a halfword transfer: a byte in two halves, or a register. -/
def splitOffset (w : Word) : Offset :=
  if w.getLsbD 22 then .immediate ((w.extractLsb' 8 4 ++ w.extractLsb' 0 4).setWidth 32)
  else .register (register w 0)

def transferKind (w : Word) : TransferKind :=
  match w.getLsbD 20, w.getLsbD 22 with
  | false, false => .storeWord
  | false, true => .storeByte
  | true, false => .loadWord
  | true, true => .loadByte

def halfMulOp (w : Word) : HalfMulOp :=
  match (w.extractLsb' 21 2).toNat with
  | 0 => .smla
  | 1 => .smlawOrSmulw
  | 2 => .smlal
  | _ => .smul

def saturatingOp (w : Word) : SaturatingOp :=
  match (w.extractLsb' 21 2).toNat with
  | 0 => .add
  | 1 => .sub
  | 2 => .doubleAdd
  | _ => .doubleSub

def dataProcessing (w : Word) (operand : Operand) : Instruction :=
  .dataProcessing (.ofBits (w.extractLsb' 21 4)) (w.getLsbD 20) (register w 16) (register w 12) operand

def statusWrite (w : Word) (source : StatusSource) : Instruction :=
  .statusWrite (w.getLsbD 22) (w.getLsbD 19) (w.getLsbD 16) source

/-- The instruction that a word means. Those that only the newer architecture has are undefined on the
older one. -/
def decode (v5 : Bool) (w : Word) : Instruction :=
  match classOf w with
  | .branch =>
    if v5 && condition w == Condition.never then
      .branchThumb (branchDistance w + if w.getLsbD 24 then 2 else 0)
    else .branch (w.getLsbD 24) (branchDistance w)
  | .branchExchange =>
    if w.extractLsb' 8 12 != 0xFFF || (w.getLsbD 5 && !v5) then .undefined
    else .branchExchange (w.getLsbD 5) (register w 0)
  | .softwareInterrupt => .softwareInterrupt (w.extractLsb' 0 24)
  | .multiply =>
    .multiply (w.getLsbD 21) (w.getLsbD 20) (register w 16) (register w 12) (register w 8) (register w 0)
  | .multiplyLong =>
    .multiplyLong (w.getLsbD 22) (w.getLsbD 21) (w.getLsbD 20) (register w 16) (register w 12)
      (register w 8) (register w 0)
  | .halfMultiply =>
    if v5 then
      .halfMultiply (halfMulOp w) (register w 16) (register w 12) (register w 8) (register w 0)
        (w.getLsbD 5) (w.getLsbD 6)
    else .undefined
  | .countLeadingZeros =>
    if v5 then .countLeadingZeros (register w 12) (register w 0) else .undefined
  | .saturating =>
    if v5 then .saturating (saturatingOp w) (register w 12) (register w 16) (register w 0) else .undefined
  | .statusRead => .statusRead (register w 12) (w.getLsbD 22)
  | .statusWriteRegister => statusWrite w (.register (register w 0))
  | .statusWriteImmediate => statusWrite w (.immediate (rotatedImmediate w))
  | .halfTransfer =>
    match halfTransferKind? v5 w with
    | some kind => .transfer kind (register w 16) (register w 12) (splitOffset w) (indexing w)
    | none => .undefined
  | .transferImmediate =>
    .transfer (transferKind w) (register w 16) (register w 12)
      (.immediate ((w.extractLsb' 0 12).setWidth 32)) (indexing w)
  | .transferRegister =>
    .transfer (transferKind w) (register w 16) (register w 12)
      (.shifted (register w 0) (shiftKind w) (w.extractLsb' 7 5).toNat) (indexing w)
  | .blockTransfer =>
    .blockTransfer (w.getLsbD 20) (register w 16) (w.extractLsb' 0 16) (w.getLsbD 22)
      { before := w.getLsbD 24, up := w.getLsbD 23, writeback := w.getLsbD 21 }
  | .swap => .swap (w.getLsbD 22) (register w 16) (register w 12) (register w 0)
  | .coprocessor =>
    if v5 then
      .coprocessor (w.getLsbD 20) (w.extractLsb' 8 4).toNat (w.extractLsb' 21 3).toNat
        (w.extractLsb' 16 4).toNat (w.extractLsb' 0 4).toNat (w.extractLsb' 5 3).toNat (register w 12)
    else .undefined
  | .dataImmediate =>
    let value := rotatedImmediate w
    dataProcessing w
      (.immediate value (if w.extractLsb' 8 4 == 0 then none else some value.msb))
  | .dataImmediateShift =>
    dataProcessing w
      (.shifted (register w 0) (shiftKind w) (.immediate (w.extractLsb' 7 5).toNat))
  | .dataRegisterShift =>
    dataProcessing w (.shifted (register w 0) (shiftKind w) (.register (register w 8)))
  | .undefined => .undefined

end Lockstep.Arm
