import Lockstep.Text.Hex
import Lockstep.Thumb.Encoding

/-!
THUMB instructions as assembly text.
-/

namespace Lockstep.Thumb

open Text

def ImmediateOp.mnemonic : ImmediateOp → String
  | .mov => "mov"
  | .cmp => "cmp"
  | .add => "add"
  | .sub => "sub"

def AluOp.mnemonic : AluOp → String
  | .and => "and"
  | .eor => "eor"
  | .lsl => "lsl"
  | .lsr => "lsr"
  | .asr => "asr"
  | .adc => "adc"
  | .sbc => "sbc"
  | .ror => "ror"
  | .tst => "tst"
  | .neg => "neg"
  | .cmp => "cmp"
  | .cmn => "cmn"
  | .orr => "orr"
  | .mul => "mul"
  | .bic => "bic"
  | .mvn => "mvn"

def HighOp.mnemonic : HighOp → String
  | .add => "add"
  | .cmp => "cmp"
  | .mov => "mov"

def TransferOp.mnemonic : TransferOp → String
  | .storeWord => "str"
  | .storeHalf => "strh"
  | .storeByte => "strb"
  | .loadSignedByte => "ldsb"
  | .loadWord => "ldr"
  | .loadHalf => "ldrh"
  | .loadByte => "ldrb"
  | .loadSignedHalf => "ldsh"

def Operand.text : Operand → String
  | .register n => n.name
  | .immediate v => Text.immediate v.toNat

def line (op : String) (xs : List String) : String := op ++ " " ++ String.intercalate ", " xs

def addressText (base : String) (offset : Word) : String :=
  "[" ++ base ++ ", " ++ Text.immediate offset.toNat ++ "]"

def listText (list : BitVec 8) (last : List String) : String :=
  "\x7b" ++ String.intercalate ", " ((LowRegister.ofList list).map LowRegister.name ++ last) ++ "\x7d"

/-- The text of an instruction. An undefined one is shown as the halfword it came from. -/
def Instruction.text (h : Halfword) : Instruction → String
  | .shift kind d s n => line kind.mnemonic [d.name, s.name, Text.immediate n]
  | .addSub sub d s operand => line (if sub then "sub" else "add") [d.name, s.name, operand.text]
  | .immediate op d v => line op.mnemonic [d.name, Text.immediate v.toNat]
  | .alu op d s => line op.mnemonic [d.name, s.name]
  | .high op d s => line op.mnemonic [d.name, s.name]
  | .branchExchange link s => line (if link then "blx" else "bx") [s.name]
  | .loadRelative d offset => line "ldr" [d.name, addressText "pc" offset]
  | .transferRegister op d base offset =>
    line op.mnemonic [d.name, "[" ++ base.name ++ ", " ++ offset.name ++ "]"]
  | .transferImmediate op d base offset => line op.mnemonic [d.name, addressText base.name offset]
  | .transferStack load d offset => line (if load then "ldr" else "str") [d.name, addressText "sp" offset]
  | .loadAddress stack d offset =>
    line "add" [d.name, if stack then "sp" else "pc", Text.immediate offset.toNat]
  | .adjustStack distance => line "add" ["sp", Text.distance distance]
  | .push list link => line "push" [listText list (if link then ["lr"] else [])]
  | .pop list counter => line "pop" [listText list (if counter then ["pc"] else [])]
  | .transferMultiple load base list =>
    line (if load then "ldmia" else "stmia") [base.name ++ "!", listText list []]
  | .branchIf condition distance => line ("b" ++ condition.suffix) [Text.distance distance]
  | .softwareInterrupt number => line "swi" ["0x" ++ hexPadded 2 number.toNat]
  | .branch distance => line "b" [Text.distance distance]
  | .longBranchPrefix distance => line "mov" ["lr", "pc + " ++ Text.distance distance]
  | .longBranchSuffix offset exchange =>
    line (if exchange then "blx" else "bl") ["lr + " ++ Text.immediate offset.toNat]
  | .undefined => hexPadded 4 h.toNat ++ "??"

def disassemble (h : Halfword) : String := (decode true h).text h

end Lockstep.Thumb
