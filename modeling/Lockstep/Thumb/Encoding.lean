import Lockstep.Thumb.Instruction

/-!
The encoding of THUMB instructions. The top five bits choose between the formats; some formats are told
apart by a few bits more.
-/

namespace Lockstep.Thumb

abbrev Halfword := BitVec 16

def register (h : Halfword) (lsb : Nat) : LowRegister := (h.extractLsb' lsb 3).toFin

def highSource (h : Halfword) : Register := (h.extractLsb' 3 4).toFin

def highDestination (h : Halfword) : Register := (h.extractLsb' 7 1 ++ h.extractLsb' 0 3).toFin

def field (h : Halfword) (lsb len : Nat) : Word := (h.extractLsb' lsb len).setWidth 32

def immediateOp (h : Halfword) : ImmediateOp :=
  match (h.extractLsb' 11 2).toNat with
  | 0 => .mov
  | 1 => .cmp
  | 2 => .add
  | _ => .sub

def decodeHigh (v5 : Bool) (h : Halfword) : Instruction :=
  match (h.extractLsb' 8 2).toNat with
  | 0 => .high .add (highDestination h) (highSource h)
  | 1 => .high .cmp (highDestination h) (highSource h)
  | 2 => .high .mov (highDestination h) (highSource h)
  | _ =>
    if h.getLsbD 7 && !v5 then .undefined else .branchExchange (h.getLsbD 7) (highSource h)

def decodeStack (h : Halfword) : Instruction :=
  match (h.extractLsb' 8 4).toNat with
  | 0b0000 =>
    let distance : Int := 4 * (h.extractLsb' 0 7).toNat
    .adjustStack (if h.getLsbD 7 then -distance else distance)
  | 0b0100 => .push (h.extractLsb' 0 8) false
  | 0b0101 => .push (h.extractLsb' 0 8) true
  | 0b1100 => .pop (h.extractLsb' 0 8) false
  | 0b1101 => .pop (h.extractLsb' 0 8) true
  | _ => .undefined

/-- Branches under a condition; the last two codes have other meanings. -/
def decodeBranchIf (h : Halfword) : Instruction :=
  let condition := h.extractLsb' 8 4
  if condition == Condition.never then .softwareInterrupt (h.extractLsb' 0 8)
  else if condition == Condition.always then .undefined
  else .branchIf condition (2 * (h.extractLsb' 0 8).toInt)

/-- The instruction that a halfword means. Those that only the newer architecture has are undefined on the
older one. -/
def decode (v5 : Bool) (h : Halfword) : Instruction :=
  match (h.extractLsb' 11 5).toNat with
  | 0b00000 | 0b00001 | 0b00010 =>
    .shift (.ofBits (h.extractLsb' 11 2)) (register h 0) (register h 3) (h.extractLsb' 6 5).toNat
  | 0b00011 =>
    .addSub (h.getLsbD 9) (register h 0) (register h 3)
      (if h.getLsbD 10 then .immediate (field h 6 3) else .register (register h 6))
  | 0b00100 | 0b00101 | 0b00110 | 0b00111 =>
    .immediate (immediateOp h) (register h 8) (field h 0 8)
  | 0b01000 =>
    if h.getLsbD 10 then decodeHigh v5 h
    else .alu (.ofBits (h.extractLsb' 6 4)) (register h 0) (register h 3)
  | 0b01001 => .loadRelative (register h 8) (field h 0 8 <<< 2)
  | 0b01010 | 0b01011 =>
    .transferRegister (.ofBits (h.extractLsb' 9 3)) (register h 0) (register h 3) (register h 6)
  | 0b01100 => .transferImmediate .storeWord (register h 0) (register h 3) (field h 6 5 <<< 2)
  | 0b01101 => .transferImmediate .loadWord (register h 0) (register h 3) (field h 6 5 <<< 2)
  | 0b01110 => .transferImmediate .storeByte (register h 0) (register h 3) (field h 6 5)
  | 0b01111 => .transferImmediate .loadByte (register h 0) (register h 3) (field h 6 5)
  | 0b10000 => .transferImmediate .storeHalf (register h 0) (register h 3) (field h 6 5 <<< 1)
  | 0b10001 => .transferImmediate .loadHalf (register h 0) (register h 3) (field h 6 5 <<< 1)
  | 0b10010 => .transferStack false (register h 8) (field h 0 8 <<< 2)
  | 0b10011 => .transferStack true (register h 8) (field h 0 8 <<< 2)
  | 0b10100 => .loadAddress false (register h 8) (field h 0 8 <<< 2)
  | 0b10101 => .loadAddress true (register h 8) (field h 0 8 <<< 2)
  | 0b10110 | 0b10111 => decodeStack h
  | 0b11000 => .transferMultiple false (register h 8) (h.extractLsb' 0 8)
  | 0b11001 => .transferMultiple true (register h 8) (h.extractLsb' 0 8)
  | 0b11010 | 0b11011 => decodeBranchIf h
  | 0b11100 => .branch (2 * (h.extractLsb' 0 11).toInt)
  | 0b11101 =>
    if v5 && !h.getLsbD 0 then .longBranchSuffix (field h 0 11 <<< 1) true else .undefined
  | 0b11110 => .longBranchPrefix (4096 * (h.extractLsb' 0 11).toInt)
  | _ => .longBranchSuffix (field h 0 11 <<< 1) false

end Lockstep.Thumb
