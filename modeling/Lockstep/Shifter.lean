import Lockstep.Word

/-!
The barrel shifter. Every shift takes a carry in and gives the last bit that left the word as its carry
out; a shift by nothing leaves both the value and the carry alone. Amounts beyond the width of a word
are meaningful.
-/

namespace Lockstep

/-- The kinds of shift, in the order of their two-bit encoding. -/
inductive Shift where
  | lsl
  | lsr
  | asr
  | ror
deriving DecidableEq, Repr, Inhabited

structure Shifted where
  value : Word
  carry : Bool
deriving DecidableEq, Repr

namespace Shifted

def left (value : Word) (amount : Nat) (carry : Bool) : Shifted :=
  if amount = 0 then ⟨value, carry⟩
  else if amount ≤ 32 then ⟨value <<< amount, value.getLsbD (32 - amount)⟩
  else ⟨0, false⟩

def right (value : Word) (amount : Nat) (carry : Bool) : Shifted :=
  if amount = 0 then ⟨value, carry⟩
  else if amount ≤ 32 then ⟨value >>> amount, value.getLsbD (amount - 1)⟩
  else ⟨0, false⟩

/-- Arithmetic shift right: the sign bit is copied in. -/
def arith (value : Word) (amount : Nat) (carry : Bool) : Shifted :=
  if amount = 0 then ⟨value, carry⟩
  else if amount < 32 then ⟨value.sshiftRight amount, value.getLsbD (amount - 1)⟩
  else ⟨value.sshiftRight 31, value.msb⟩

/-- Rotate right; only the amount modulo the width moves bits, but any amount other than zero sets the
carry. -/
def rotate (value : Word) (amount : Nat) (carry : Bool) : Shifted :=
  if amount = 0 then ⟨value, carry⟩
  else
    let value := value.rotateRight (amount % 32)
    ⟨value, value.msb⟩

/-- Rotate right by one place through the carry. -/
def rotateThrough (value : Word) (carry : Bool) : Shifted :=
  ⟨(value >>> 1) ||| ((BitVec.ofBool carry).setWidth 32 <<< 31), value.getLsbD 0⟩

end Shifted

namespace Shift

def apply (kind : Shift) (value : Word) (amount : Nat) (carry : Bool) : Shifted :=
  match kind with
  | .lsl => .left value amount carry
  | .lsr => .right value amount carry
  | .asr => .arith value amount carry
  | .ror => .rotate value amount carry

/-- Shift by an amount written in the instruction. The encodings of a right shift by zero mean 32
places, and that of a rotation by zero is the rotation through the carry. -/
def immediate (kind : Shift) (value : Word) (amount : Nat) (carry : Bool) : Shifted :=
  match kind, amount with
  | .lsr, 0 => .right value 32 carry
  | .asr, 0 => .arith value 32 carry
  | .ror, 0 => .rotateThrough value carry
  | kind, n => kind.apply value n carry

def register (kind : Shift) (value amount : Word) (carry : Bool) : Shifted :=
  kind.apply value (amount.toNat % 256) carry

def ofBits (n : BitVec 2) : Shift :=
  if n = 0 then .lsl else if n = 1 then .lsr else if n = 2 then .asr else .ror

def mnemonic : Shift → String
  | .lsl => "lsl"
  | .lsr => "lsr"
  | .asr => "asr"
  | .ror => "ror"

end Shift

end Lockstep
