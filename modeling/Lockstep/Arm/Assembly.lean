import Lockstep.Arm.Encoding
import Lockstep.Text.Hex

/-!
ARM instructions as assembly text. A mnemonic carries its condition before all other suffixes.
-/

namespace Lockstep.Arm

open Text

def AluOp.mnemonic : AluOp → String
  | .and => "and"
  | .eor => "eor"
  | .sub => "sub"
  | .rsb => "rsb"
  | .add => "add"
  | .adc => "adc"
  | .sbc => "sbc"
  | .rsc => "rsc"
  | .tst => "tst"
  | .teq => "teq"
  | .cmp => "cmp"
  | .cmn => "cmn"
  | .orr => "orr"
  | .mov => "mov"
  | .bic => "bic"
  | .mvn => "mvn"

def SaturatingOp.mnemonic : SaturatingOp → String
  | .add => "qadd"
  | .sub => "qsub"
  | .doubleAdd => "qdadd"
  | .doubleSub => "qdsub"

def TransferKind.mnemonic : TransferKind → String
  | .loadByte => "ldrb"
  | .loadSignedByte => "ldrsb"
  | .loadHalf => "ldrh"
  | .loadSignedHalf => "ldrsh"
  | .loadWord => "ldr"
  | .loadDouble => "ldrd"
  | .storeByte => "strb"
  | .storeHalf => "strh"
  | .storeWord => "str"
  | .storeDouble => "strd"

/-- A shift by a number; the encodings of zero are spelled out. -/
def shiftText (kind : Shift) (amount : Nat) : String :=
  match kind, amount with
  | .lsl, 0 => ""
  | .ror, 0 => " rrx"
  | kind, 0 => " " ++ kind.mnemonic ++ " #32"
  | kind, n => " " ++ kind.mnemonic ++ " #" ++ toString n

def Operand.text : Operand → String
  | .immediate v _ => Text.immediate v.toNat
  | .shifted m kind (.immediate n) => m.name ++ shiftText kind n
  | .shifted m kind (.register s) => m.name ++ " " ++ kind.mnemonic ++ " " ++ s.name

def Offset.text : Offset → String
  | .immediate v => Text.immediate v.toNat
  | .register m => m.name
  | .shifted m kind n => m.name ++ shiftText kind n

def StatusSource.text : StatusSource → String
  | .immediate v => Text.immediate v.toNat
  | .register m => m.name

def statusName (saved : Bool) : String := if saved then "spsr" else "cpsr"

def suffixIf (b : Bool) (s : String) : String := if b then s else ""

def operands (xs : List String) : String := " " ++ String.intercalate ", " xs

/-- The address of a single transfer. An offset of zero that nothing is done with is left out. -/
def addressText (n : Register) (offset : Offset) (i : Indexing) : String :=
  let moved := (if i.up then "+" else "-") ++ offset.text
  if i.before then
    if i.writeback then "[" ++ n.name ++ ", " ++ moved ++ "]!"
    else if offset = .immediate 0 then "[" ++ n.name ++ "]"
    else "[" ++ n.name ++ ", " ++ moved ++ "]"
  else "[" ++ n.name ++ "], " ++ moved

def blockSuffix (i : Indexing) : String := (if i.up then "i" else "d") ++ (if i.before then "b" else "a")

def half (top : Bool) : String := if top then "t" else "b"

def halfMultiplyText (op : HalfMulOp) (cc : String) (d n s m : Register) (x y : Bool) : String :=
  match op with
  | .smla => "smla" ++ half x ++ half y ++ cc ++ operands [d.name, m.name, s.name, n.name]
  | .smlawOrSmulw =>
    if x then "smulw" ++ half y ++ cc ++ operands [d.name, m.name, s.name]
    else "smlaw" ++ half y ++ cc ++ operands [d.name, m.name, s.name, n.name]
  | .smlal => "smlal" ++ half x ++ half y ++ cc ++ operands [n.name, d.name, m.name, s.name]
  | .smul => "smul" ++ half x ++ half y ++ cc ++ operands [d.name, m.name, s.name]

/-- The text of an instruction under a condition. An undefined one is shown as the word it came from. -/
def Instruction.text (w : Word) (cc : String) : Instruction → String
  | .branch link distance => (if link then "bl" else "b") ++ cc ++ " " ++ Text.distance distance
  | .branchThumb distance => "blx " ++ Text.distance distance
  | .branchExchange link m => (if link then "blx" else "bx") ++ cc ++ operands [m.name]
  | .dataProcessing op s n d operand =>
    if !op.writes then op.mnemonic ++ cc ++ operands [n.name, operand.text]
    else
      op.mnemonic ++ cc ++ suffixIf s "s" ++
        operands (if op.isUnary then [d.name, operand.text] else [d.name, n.name, operand.text])
  | .multiply accumulate s d n rs m =>
    if accumulate then "mla" ++ cc ++ suffixIf s "s" ++ operands [d.name, m.name, rs.name, n.name]
    else "mul" ++ cc ++ suffixIf s "s" ++ operands [d.name, m.name, rs.name]
  | .multiplyLong signed accumulate s hi lo rs m =>
    (if signed then "s" else "u") ++ (if accumulate then "mlal" else "mull") ++ cc ++ suffixIf s "s" ++
      operands [lo.name, hi.name, m.name, rs.name]
  | .halfMultiply op d n s m x y => halfMultiplyText op cc d n s m x y
  | .countLeadingZeros d m => "clz" ++ cc ++ operands [d.name, m.name]
  | .saturating op d n m => op.mnemonic ++ cc ++ operands [d.name, m.name, n.name]
  | .statusRead d saved => "mrs" ++ cc ++ operands [d.name, statusName saved]
  | .statusWrite saved flags control source =>
    "msr" ++ cc ++
      operands [statusName saved ++ "_" ++ suffixIf flags "f" ++ suffixIf control "c", source.text]
  | .transfer kind n d offset i => kind.mnemonic ++ cc ++ operands [d.name, addressText n offset i]
  | .blockTransfer load n list user i =>
    (if load then "ldm" else "stm") ++ cc ++ blockSuffix i ++
      operands [n.name ++ suffixIf i.writeback "!",
        "\x7b" ++ String.intercalate ", " ((Register.ofList list).map Register.name) ++ "\x7d"] ++
      suffixIf user " ^"
  | .swap byte n d m => "swp" ++ cc ++ suffixIf byte "b" ++ operands [d.name, m.name, "[" ++ n.name ++ "]"]
  | .coprocessor load number opcode1 primary secondary opcode2 d =>
    (if load then "mrc" else "mcr") ++ cc ++
      operands ["p" ++ toString number, toString opcode1, d.name, "c" ++ toString primary,
        "c" ++ toString secondary, toString opcode2]
  | .softwareInterrupt _ => "swi" ++ cc
  | .undefined => hexPadded 8 w.toNat ++ "??"

def disassemble (w : Word) : String := (decode true w).text w (condition w).suffix

end Lockstep.Arm
