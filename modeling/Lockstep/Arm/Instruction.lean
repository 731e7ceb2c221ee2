import Lockstep.Register
import Lockstep.Shifter

/-!
ARM instructions. The condition is not part of an instruction: it stands in every word at the same place.
-/

namespace Lockstep.Arm

/-- The data processing operations, in the order of their encoding. -/
inductive AluOp where
  | and
  | eor
  | sub
  | rsb
  | add
  | adc
  | sbc
  | rsc
  | tst
  | teq
  | cmp
  | cmn
  | orr
  | mov
  | bic
  | mvn
deriving DecidableEq, Repr, Inhabited

namespace AluOp

def all : Vector AluOp 16 :=
  #v[.and, .eor, .sub, .rsb, .add, .adc, .sbc, .rsc, .tst, .teq, .cmp, .cmn, .orr, .mov, .bic, .mvn]

def ofBits (n : BitVec 4) : AluOp := all.get n.toFin

def writes : AluOp → Bool
  | .tst | .teq | .cmp | .cmn => false
  | _ => true

/-- Whether the carry comes from the shifter. -/
def isLogical : AluOp → Bool
  | .and | .eor | .tst | .teq | .orr | .mov | .bic | .mvn => true
  | _ => false

/-- Whether the first operand is ignored. -/
def isUnary : AluOp → Bool
  | .mov | .mvn => true
  | _ => false

end AluOp

inductive ShiftAmount where
  | immediate (n : Nat)
  | register (r : Register)
deriving DecidableEq, Repr

inductive Operand where
  /-- A rotated byte; a rotation by other than zero gives a carry. -/
  | immediate (value : Word) (carry : Option Bool)
  | shifted (m : Register) (kind : Shift) (amount : ShiftAmount)
deriving DecidableEq, Repr

inductive StatusSource where
  | immediate (value : Word)
  | register (m : Register)
deriving DecidableEq, Repr

inductive Offset where
  | immediate (value : Word)
  | register (m : Register)
  | shifted (m : Register) (kind : Shift) (amount : Nat)
deriving DecidableEq, Repr

/-- Multiplications of signed halves. In the second, which multiplies a word by a half, the selector of
the first half decides whether it accumulates. -/
inductive HalfMulOp where
  | smla
  | smlawOrSmulw
  | smlal
  | smul
deriving DecidableEq, Repr

/-- Saturating arithmetic; the second pair doubles its second operand. -/
inductive SaturatingOp where
  | add
  | sub
  | doubleAdd
  | doubleSub
deriving DecidableEq, Repr

inductive TransferKind where
  | loadByte
  | loadSignedByte
  | loadHalf
  | loadSignedHalf
  | loadWord
  | loadDouble
  | storeByte
  | storeHalf
  | storeWord
  | storeDouble
deriving DecidableEq, Repr

def TransferKind.isLoad : TransferKind → Bool
  | .loadByte | .loadSignedByte | .loadHalf | .loadSignedHalf | .loadWord | .loadDouble => true
  | _ => false

/-- How a single transfer finds its address: whether the offset is applied before the access, in which
direction, and whether the base keeps the result. -/
structure Indexing where
  before : Bool
  up : Bool
  writeback : Bool
deriving DecidableEq, Repr

inductive Instruction where
  | branch (link : Bool) (distance : Int)
  /-- A linking branch into the short instruction set. -/
  | branchThumb (distance : Int)
  | branchExchange (link : Bool) (m : Register)
  | dataProcessing (op : AluOp) (setFlags : Bool) (n d : Register) (operand : Operand)
  | multiply (accumulate setFlags : Bool) (d n s m : Register)
  | multiplyLong (signed accumulate setFlags : Bool) (hi lo s m : Register)
  | halfMultiply (op : HalfMulOp) (d n s m : Register) (top₁ top₂ : Bool)
  | countLeadingZeros (d m : Register)
  | saturating (op : SaturatingOp) (d n m : Register)
  | statusRead (d : Register) (saved : Bool)
  | statusWrite (saved flags control : Bool) (source : StatusSource)
  | transfer (kind : TransferKind) (n d : Register) (offset : Offset) (indexing : Indexing)
  | blockTransfer (load : Bool) (n : Register) (list : BitVec 16) (user : Bool) (indexing : Indexing)
  | swap (byte : Bool) (n d m : Register)
  | coprocessor (load : Bool) (number opcode1 primary secondary opcode2 : Nat) (d : Register)
  | softwareInterrupt (comment : BitVec 24)
  | undefined
deriving DecidableEq, Repr, Inhabited

end Lockstep.Arm
