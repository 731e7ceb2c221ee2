import Lockstep.Arm.Encoding
import Lockstep.Thumb.Encoding
import Mathlib.Tactic.SplitIfs

/-!
The ARM words that stand for THUMB data processing. Each is executed unconditionally, sets flags and names
the same registers. A shift becomes a move of the shifted register, and a negation a subtraction from zero.
-/

namespace Lockstep

def Register.number (r : Register) : BitVec 4 := BitVec.ofFin r

def Shift.number : Shift → BitVec 2
  | .lsl => 0
  | .lsr => 1
  | .asr => 2
  | .ror => 3

theorem Shift.ofBits_number (kind : Shift) : Shift.ofBits kind.number = kind := by
  cases kind <;> rfl

namespace Arm

def AluOp.number (op : AluOp) : BitVec 4 := BitVec.ofNat 4 (AluOp.all.toList.idxOf op)

theorem AluOp.ofBits_number (op : AluOp) : AluOp.ofBits op.number = op := by
  cases op <;> rfl

theorem append_halves {a b : Nat} (x : BitVec (a + b)) : x.extractLsb' b a ++ x.extractLsb' 0 b = x := by
  rw [BitVec.extractLsb'_append_extractLsb'_eq_extractLsb' (Nat.zero_add b).symm]
  exact BitVec.extractLsb'_eq_self

/-- A word that is always executed, from the two parts of its code and the four fields of a register's
size. -/
def unconditional (upper : BitVec 8) (n d s lower m : BitVec 4) : Word :=
  Condition.always ++ upper ++ n ++ d ++ s ++ lower ++ m

section
variable (upper : BitVec 8) (n d s lower m : BitVec 4)

theorem condition_unconditional : condition (unconditional upper n d s lower m) = Condition.always := by
  simp (disch := omega) only [condition, unconditional, BitVec.extractLsb'_append_eq_of_le, Nat.reduceSub,
    BitVec.extractLsb'_eq_self]

theorem code_unconditional : code (unconditional upper n d s lower m) = upper ++ lower := by
  simp (disch := omega) only [code, unconditional, BitVec.extractLsb'_append_eq_of_le,
    BitVec.extractLsb'_append_eq_of_add_le, Nat.reduceSub, BitVec.extractLsb'_eq_self]

theorem register_unconditional :
    register (unconditional upper n d s lower m) 16 = n.toFin ∧
      register (unconditional upper n d s lower m) 12 = d.toFin ∧
      register (unconditional upper n d s lower m) 8 = s.toFin ∧
      register (unconditional upper n d s lower m) 0 = m.toFin := by
  simp (disch := omega) only [register, unconditional, BitVec.extractLsb'_append_eq_of_le,
    BitVec.extractLsb'_append_eq_of_add_le, Nat.reduceSub, BitVec.extractLsb'_eq_self, and_self]

theorem operation_unconditional :
    (unconditional upper n d s lower m).extractLsb' 21 4 = upper.extractLsb' 1 4 := by
  simp (disch := omega) only [unconditional, BitVec.extractLsb'_append_eq_of_le,
    BitVec.extractLsb'_append_eq_of_add_le, Nat.reduceSub]

/-- Bits 20 and 21, which say whether flags are set and whether a multiplication accumulates. -/
theorem getLsbD_unconditional {i : Nat} (h : i < 8) :
    (unconditional upper n d s lower m).getLsbD (20 + i) = upper.getLsbD i := by
  simp only [unconditional, BitVec.getLsbD_append]
  grind

theorem shiftKind_unconditional :
    shiftKind (unconditional upper n d s lower m) = .ofBits (lower.extractLsb' 1 2) := by
  simp (disch := omega) only [shiftKind, unconditional, BitVec.extractLsb'_append_eq_of_le,
    BitVec.extractLsb'_append_eq_of_add_le, Nat.reduceSub]

theorem amount_unconditional :
    (unconditional upper n d s lower m).extractLsb' 7 5 = s ++ lower.extractLsb' 3 1 := by
  ext i hi
  simp only [unconditional, BitVec.getElem_extractLsb', BitVec.getLsbD_append]
  grind

theorem rotatedImmediate_unconditional :
    rotatedImmediate (unconditional upper n d 0 lower m) = (lower ++ m).setWidth 32 := by
  have byte : (unconditional upper n d 0 lower m).extractLsb' 0 8 = lower ++ m := by
    ext i hi
    simp only [unconditional, BitVec.getElem_extractLsb', BitVec.getLsbD_append]
    grind
  have rotation : (unconditional upper n d 0 lower m).extractLsb' 8 4 = 0 := by
    simp (disch := omega) only [unconditional, BitVec.extractLsb'_append_eq_of_le,
      BitVec.extractLsb'_append_eq_of_add_le, Nat.reduceSub, BitVec.extractLsb'_eq_self]
  rw [rotatedImmediate, byte, rotation]
  simp [BitVec.rotateRight, BitVec.rotateRightAux]
end

/-- What stands in the place of a register that an operation does not use. -/
def unused : Register := ⟨0, by decide⟩

/-- The operations that THUMB data processing abbreviates. All are always executed and set flags. -/
inductive FlagSetting where
  | byte (op : AluOp) (n d : Register) (v : BitVec 8)
  | shifted (op : AluOp) (n d m : Register) (kind : Shift) (amount : BitVec 5)
  | shiftedBy (op : AluOp) (n d m : Register) (kind : Shift) (s : Register)
  | multiply (d m s : Register)

def FlagSetting.word : FlagSetting → Word
  | .byte op n d v =>
    unconditional (0b001#3 ++ op.number ++ 1#1) n.number d.number 0 (v.extractLsb' 4 4) (v.extractLsb' 0 4)
  | .shifted op n d m kind amount =>
    unconditional (0b000#3 ++ op.number ++ 1#1) n.number d.number (amount.extractLsb' 1 4)
      (amount.extractLsb' 0 1 ++ kind.number ++ 0#1) m.number
  | .shiftedBy op n d m kind s =>
    unconditional (0b000#3 ++ op.number ++ 1#1) n.number d.number s.number (0#1 ++ kind.number ++ 1#1)
      m.number
  | .multiply d m s => unconditional 0b00000001 d.number 0 s.number 0b1001 m.number

def FlagSetting.instruction : FlagSetting → Instruction
  | .byte op n d v => .dataProcessing op true n d (.immediate (v.setWidth 32) none)
  | .shifted op n d m kind amount => .dataProcessing op true n d (.shifted m kind (.immediate amount.toNat))
  | .shiftedBy op n d m kind s => .dataProcessing op true n d (.shifted m kind (.register s))
  | .multiply d m s => .multiply false true d unused s m

variable (v5 : Bool) (op : AluOp) (n d m s : Register)

/-- The upper part of the code of an operation that sets flags. -/
theorem code_operation (top : BitVec 3) :
    (top ++ op.number ++ 1#1).extractLsb' 1 4 = op.number ∧ (top ++ op.number ++ 1#1).getLsbD 0 = true := by
  constructor
  · simp (disch := omega) only [BitVec.extractLsb'_append_eq_of_le, BitVec.extractLsb'_append_eq_of_add_le,
      Nat.reduceSub, BitVec.extractLsb'_eq_self]
  · simp only [BitVec.getLsbD_append]
    rfl

/-- The lower part of the code of an operation on a shifted register. -/
theorem code_shift (kind : Shift) (x y : BitVec 1) :
    Shift.ofBits ((x ++ kind.number ++ y).extractLsb' 1 2) = kind := by
  have between : (x ++ kind.number ++ y).extractLsb' 1 2 = kind.number := by
    simp (disch := omega) only [BitVec.extractLsb'_append_eq_of_le, BitVec.extractLsb'_append_eq_of_add_le,
      Nat.reduceSub, BitVec.extractLsb'_eq_self]
  rw [between, Shift.ofBits_number]

theorem dataProcessing_unconditional (top : BitVec 3) (s lower m : BitVec 4) (operand : Operand) :
    dataProcessing (unconditional (top ++ op.number ++ 1#1) n.number d.number s lower m) operand =
      .dataProcessing op true n d operand := by
  obtain ⟨operation, sets⟩ := code_operation op top
  obtain ⟨hn, hd, -⟩ := register_unconditional (top ++ op.number ++ 1#1) n.number d.number s lower m
  have hs := getLsbD_unconditional (top ++ op.number ++ 1#1) n.number d.number s lower m (i := 0) (by decide)
  rw [dataProcessing, operation_unconditional, operation, AluOp.ofBits_number, hn, hd, hs, sets]
  rfl

theorem classOf_byte (v : BitVec 8) : classOf (FlagSetting.byte op n d v).word = .dataImmediate := by
  have cls : ∀ lower : BitVec 4, Class.ofCode (0b001#3 ++ op.number ++ 1#1 ++ lower) = .dataImmediate := by
    cases op <;> decide
  rw [classOf, FlagSetting.word, code_unconditional, cls]

theorem classOf_shifted (kind : Shift) (amount : BitVec 5) :
    classOf (FlagSetting.shifted op n d m kind amount).word = .dataImmediateShift := by
  have cls : ∀ x : BitVec 1, Class.ofCode
      (0b000#3 ++ op.number ++ 1#1 ++ (x ++ kind.number ++ 0#1)) = .dataImmediateShift := by
    cases op <;> cases kind <;> decide
  rw [classOf, FlagSetting.word, code_unconditional, cls]

theorem classOf_shiftedBy (kind : Shift) :
    classOf (FlagSetting.shiftedBy op n d m kind s).word = .dataRegisterShift := by
  have cls : Class.ofCode
      (0b000#3 ++ op.number ++ 1#1 ++ (0#1 ++ kind.number ++ 1#1)) = .dataRegisterShift := by
    cases op <;> cases kind <;> decide
  rw [classOf, FlagSetting.word, code_unconditional, cls]

theorem classOf_multiply : classOf (FlagSetting.multiply d m s).word = .multiply := by
  rw [classOf, FlagSetting.word, code_unconditional]
  decide

theorem FlagSetting.condition_word (i : FlagSetting) : condition i.word = Condition.always := by
  cases i <;> exact condition_unconditional ..

/-- Bit 20 of the words says that they set flags. -/
theorem FlagSetting.getLsbD_word (i : FlagSetting) : i.word.getLsbD 20 = true := by
  cases i with
  | multiply d m s => exact getLsbD_unconditional _ _ _ _ _ _ (i := 0) (by decide)
  | byte op n d v | shifted op n d m kind amount | shiftedBy op n d m kind s =>
    exact (getLsbD_unconditional _ _ _ _ _ _ (i := 0) (by decide)).trans (code_operation op _).2

/-- The words mean the operations on both architectures. -/
theorem FlagSetting.decode_word (i : FlagSetting) : decode v5 i.word = i.instruction := by
  cases i with
  | byte op n d v =>
    have rotation : (FlagSetting.byte op n d v).word.extractLsb' 8 4 = 0 := by
      simp (disch := omega) only [FlagSetting.word, unconditional, BitVec.extractLsb'_append_eq_of_le,
        BitVec.extractLsb'_append_eq_of_add_le, Nat.reduceSub, BitVec.extractLsb'_eq_self]
    have byte : rotatedImmediate (FlagSetting.byte op n d v).word = v.setWidth 32 := by
      rw [FlagSetting.word, rotatedImmediate_unconditional]
      exact congrArg (BitVec.setWidth 32) (append_halves (a := 4) (b := 4) v)
    simp only [decode, classOf_byte, rotation, byte]
    exact dataProcessing_unconditional ..
  | shifted op n d m kind amount =>
    have places : (FlagSetting.shifted op n d m kind amount).word.extractLsb' 7 5 = amount := by
      rw [FlagSetting.word, amount_unconditional, BitVec.extractLsb'_append_eq_of_le (by decide),
        BitVec.extractLsb'_append_eq_left]
      exact append_halves (a := 4) (b := 1) amount
    have hk : shiftKind (FlagSetting.shifted op n d m kind amount).word = kind := by
      rw [FlagSetting.word, shiftKind_unconditional, code_shift]
    have hm : register (FlagSetting.shifted op n d m kind amount).word 0 = m :=
      (register_unconditional ..).2.2.2
    simp only [decode, classOf_shifted, places, hk, hm]
    exact dataProcessing_unconditional ..
  | shiftedBy op n d m kind s =>
    have hk : shiftKind (FlagSetting.shiftedBy op n d m kind s).word = kind := by
      rw [FlagSetting.word, shiftKind_unconditional, code_shift]
    have hs : register (FlagSetting.shiftedBy op n d m kind s).word 8 = s :=
      (register_unconditional ..).2.2.1
    have hm : register (FlagSetting.shiftedBy op n d m kind s).word 0 = m :=
      (register_unconditional ..).2.2.2
    simp only [decode, classOf_shiftedBy, hk, hs, hm]
    exact dataProcessing_unconditional ..
  | multiply d m s =>
    obtain ⟨hd, hn, hs, hm⟩ := register_unconditional 0b00000001 d.number 0 s.number 0b1001 m.number
    have bit (i : Nat) := getLsbD_unconditional 0b00000001 d.number 0 s.number 0b1001 m.number (i := i)
    simp only [decode, classOf_multiply]
    rw [FlagSetting.word, hd, hn, hs, hm, bit 0 (by decide), bit 1 (by decide)]
    rfl

end Arm

namespace Thumb

/-- Whether a halfword is a shift, an addition or subtraction, an operation on a byte or one on two low
registers. -/
def IsDataProcessing (h : Halfword) : Prop := h.extractLsb' 14 2 = 0 ∨ h.extractLsb' 10 6 = 0b010000

instance (h : Halfword) : Decidable (IsDataProcessing h) := inferInstanceAs (Decidable (_ ∨ _))

/-- Moves have no first operand, and comparisons no destination. -/
def ImmediateOp.onArm (op : ImmediateOp) (d : Register) (v : BitVec 8) : Arm.FlagSetting :=
  match op with
  | .mov => .byte .mov Arm.unused d v
  | .cmp => .byte .cmp d Arm.unused v
  | .add => .byte .add d d v
  | .sub => .byte .sub d d v

def AluOp.onArm (op : AluOp) (d s : Register) : Arm.FlagSetting :=
  match op with
  | .and => .shifted .and d d s .lsl 0
  | .eor => .shifted .eor d d s .lsl 0
  | .lsl => .shiftedBy .mov Arm.unused d d .lsl s
  | .lsr => .shiftedBy .mov Arm.unused d d .lsr s
  | .asr => .shiftedBy .mov Arm.unused d d .asr s
  | .adc => .shifted .adc d d s .lsl 0
  | .sbc => .shifted .sbc d d s .lsl 0
  | .ror => .shiftedBy .mov Arm.unused d d .ror s
  | .tst => .shifted .tst d Arm.unused s .lsl 0
  | .neg => .byte .rsb s d 0
  | .cmp => .shifted .cmp d Arm.unused s .lsl 0
  | .cmn => .shifted .cmn d Arm.unused s .lsl 0
  | .orr => .shifted .orr d d s .lsl 0
  | .mul => .multiply d s d
  | .bic => .shifted .bic d d s .lsl 0
  | .mvn => .shifted .mvn Arm.unused d s .lsl 0

def counterpart (h : Halfword) : Arm.FlagSetting :=
  match (h.extractLsb' 11 5).toNat with
  | 0b00000 | 0b00001 | 0b00010 =>
    .shifted .mov Arm.unused (register h 0).wide (register h 3).wide (.ofBits (h.extractLsb' 11 2))
      (h.extractLsb' 6 5)
  | 0b00011 =>
    let op := if h.getLsbD 9 then .sub else .add
    if h.getLsbD 10 then
      .byte op (register h 3).wide (register h 0).wide ((h.extractLsb' 6 3).setWidth 8)
    else .shifted op (register h 3).wide (register h 0).wide (register h 6).wide .lsl 0
  | 0b00100 | 0b00101 | 0b00110 | 0b00111 =>
    (immediateOp h).onArm (register h 8).wide (h.extractLsb' 0 8)
  | _ => (AluOp.ofBits (h.extractLsb' 6 4)).onArm (register h 0).wide (register h 3).wide

end Thumb

end Lockstep
