import Lockstep.Condition
import Lockstep.Shifter

/-!
THUMB instructions. Most of them reach only the low registers.
-/

namespace Lockstep.Thumb

inductive ImmediateOp where
  | mov
  | cmp
  | add
  | sub
deriving DecidableEq, Repr

inductive AluOp where
  | and
  | eor
  | lsl
  | lsr
  | asr
  | adc
  | sbc
  | ror
  | tst
  | neg
  | cmp
  | cmn
  | orr
  | mul
  | bic
  | mvn
deriving DecidableEq, Repr, Inhabited

namespace AluOp

def all : Vector AluOp 16 :=
  #v[.and, .eor, .lsl, .lsr, .asr, .adc, .sbc, .ror, .tst, .neg, .cmp, .cmn, .orr, .mul, .bic, .mvn]

def ofBits (n : BitVec 4) : AluOp := all.get n.toFin

def writes : AluOp → Bool
  | .tst | .cmp | .cmn => false
  | _ => true

end AluOp

inductive HighOp where
  | add
  | cmp
  | mov
deriving DecidableEq, Repr

/-- Single transfers, in the order of the encoding with a register offset. -/
inductive TransferOp where
  | storeWord
  | storeHalf
  | storeByte
  | loadSignedByte
  | loadWord
  | loadHalf
  | loadByte
  | loadSignedHalf
deriving DecidableEq, Repr, Inhabited

namespace TransferOp

def all : Vector TransferOp 8 :=
  #v[.storeWord, .storeHalf, .storeByte, .loadSignedByte, .loadWord, .loadHalf, .loadByte, .loadSignedHalf]

def ofBits (n : BitVec 3) : TransferOp := all.get n.toFin

def isLoad : TransferOp → Bool
  | .storeWord | .storeHalf | .storeByte => false
  | _ => true

end TransferOp

inductive Operand where
  | register (n : LowRegister)
  | immediate (value : Word)
deriving DecidableEq, Repr

inductive Instruction where
  | shift (kind : Shift) (d s : LowRegister) (amount : Nat)
  | addSub (sub : Bool) (d s : LowRegister) (operand : Operand)
  | immediate (op : ImmediateOp) (d : LowRegister) (value : Word)
  | alu (op : AluOp) (d s : LowRegister)
  | high (op : HighOp) (d s : Register)
  | branchExchange (link : Bool) (s : Register)
  | loadRelative (d : LowRegister) (offset : Word)
  | transferRegister (op : TransferOp) (d base offset : LowRegister)
  | transferImmediate (op : TransferOp) (d base : LowRegister) (offset : Word)
  | transferStack (load : Bool) (d : LowRegister) (offset : Word)
  | loadAddress (stack : Bool) (d : LowRegister) (offset : Word)
  | adjustStack (distance : Int)
  | push (list : BitVec 8) (link : Bool)
  | pop (list : BitVec 8) (counter : Bool)
  | transferMultiple (load : Bool) (base : LowRegister) (list : BitVec 8)
  | branchIf (condition : Condition) (distance : Int)
  | softwareInterrupt (number : BitVec 8)
  | branch (distance : Int)
  /-- The first half of a long branch leaves the upper part of the target in the link register. -/
  | longBranchPrefix (distance : Int)
  /-- The second half jumps; exchanging, it continues in the long instruction set. -/
  | longBranchSuffix (offset : Word) (exchange : Bool)
  | undefined
deriving DecidableEq, Repr, Inhabited

end Lockstep.Thumb
