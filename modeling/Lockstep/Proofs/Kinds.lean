import Lockstep.Arm.Encoding
import Mathlib.Data.Nat.Init
import Mathlib.Logic.Basic

/-!
The kinds of ARM instructions, and the words that the newer architecture reads as each. The table of classes
is searched from the top, and a class may still leave a word without a meaning; the descriptions here need
no order, and no word fits two of them.
-/

namespace Lockstep.Arm

inductive Kind where
  | branch
  | branchThumb
  | branchExchange
  | dataProcessing
  | multiply
  | multiplyLong
  | halfMultiply
  | countLeadingZeros
  | saturating
  | statusRead
  | statusWrite
  | transfer
  | blockTransfer
  | swap
  | coprocessor
  | softwareInterrupt
deriving DecidableEq, Repr

/-- The kind of an instruction; an undefined one has none. -/
def Instruction.kind? : Instruction → Option Kind
  | .branch .. => some .branch
  | .branchThumb .. => some .branchThumb
  | .branchExchange .. => some .branchExchange
  | .dataProcessing .. => some .dataProcessing
  | .multiply .. => some .multiply
  | .multiplyLong .. => some .multiplyLong
  | .halfMultiply .. => some .halfMultiply
  | .countLeadingZeros .. => some .countLeadingZeros
  | .saturating .. => some .saturating
  | .statusRead .. => some .statusRead
  | .statusWrite .. => some .statusWrite
  | .transfer .. => some .transfer
  | .blockTransfer .. => some .blockTransfer
  | .swap .. => some .swap
  | .coprocessor .. => some .coprocessor
  | .softwareInterrupt .. => some .softwareInterrupt
  | .undefined => none

theorem Instruction.kind?_eq_none {i : Instruction} : i.kind? = none ↔ i = .undefined := by
  cases i <;> simp [kind?]

section
variable (w : Word)

/-- The encodings of comparisons that set no flags, which mean something else. -/
def Miscellaneous : Prop := w.extractLsb' 23 5 = 0b00010 ∧ w.getLsbD 20 = false

/-- A status write from a register is one of the miscellaneous encodings. -/
def WritesStatusRegister : Prop :=
  Miscellaneous w ∧ w.getLsbD 21 = true ∧ w.extractLsb' 4 4 = 0b0000

/-- A status write from an immediate is encoded like a comparison with an immediate that sets no flags. -/
def WritesStatusImmediate : Prop := w.extractLsb' 23 5 = 0b00110 ∧ w.extractLsb' 20 2 = 0b10

def Kind.Fits : Kind → Prop
  | .dataProcessing =>
    w.extractLsb' 26 2 = 0b00 ∧
      ¬ (w.getLsbD 25 = false ∧ w.getLsbD 7 = true ∧ w.getLsbD 4 = true) ∧
      ¬ (w.extractLsb' 23 2 = 0b10 ∧ w.getLsbD 20 = false)
  | .multiply => w.extractLsb' 4 4 = 0b1001 ∧ w.extractLsb' 22 6 = 0b000000
  | .multiplyLong => w.extractLsb' 4 4 = 0b1001 ∧ w.extractLsb' 23 5 = 0b00001
  | .swap => w.extractLsb' 4 4 = 0b1001 ∧ w.extractLsb' 23 5 = 0b00010 ∧ w.extractLsb' 20 2 = 0b00
  | .transfer =>
    (w.extractLsb' 26 2 = 0b01 ∧ ¬ (w.getLsbD 25 = true ∧ w.getLsbD 4 = true)) ∨
      (w.extractLsb' 25 3 = 0b000 ∧ w.getLsbD 7 = true ∧ w.getLsbD 4 = true ∧ ¬ w.extractLsb' 5 2 = 0b00)
  | .blockTransfer => w.extractLsb' 25 3 = 0b100
  | .branch => w.extractLsb' 25 3 = 0b101 ∧ ¬ condition w = Condition.never
  | .branchThumb => w.extractLsb' 25 3 = 0b101 ∧ condition w = Condition.never
  | .softwareInterrupt => w.extractLsb' 24 4 = 0b1111
  | .coprocessor => w.extractLsb' 24 4 = 0b1110 ∧ w.getLsbD 4 = true
  | .statusRead => Miscellaneous w ∧ w.getLsbD 21 = false ∧ w.extractLsb' 4 4 = 0b0000
  | .statusWrite => WritesStatusRegister w ∨ WritesStatusImmediate w
  | .branchExchange =>
    Miscellaneous w ∧ w.extractLsb' 21 2 = 0b01 ∧
      (w.extractLsb' 4 4 = 0b0001 ∨ w.extractLsb' 4 4 = 0b0011) ∧ w.extractLsb' 8 12 = 0xFFF
  | .countLeadingZeros => Miscellaneous w ∧ w.extractLsb' 21 2 = 0b11 ∧ w.extractLsb' 4 4 = 0b0001
  | .saturating => Miscellaneous w ∧ w.extractLsb' 4 4 = 0b0101
  | .halfMultiply => Miscellaneous w ∧ w.getLsbD 7 = true ∧ w.getLsbD 4 = false

def Class.kind? : Class → Option Kind
  | .branch => some (if condition w = Condition.never then .branchThumb else .branch)
  | .branchExchange => if w.extractLsb' 8 12 = 0xFFF then some .branchExchange else none
  | .softwareInterrupt => some .softwareInterrupt
  | .multiply => some .multiply
  | .multiplyLong => some .multiplyLong
  | .swap => some .swap
  | .halfTransfer => if w.extractLsb' 5 2 = 0b00 then none else some .transfer
  | .halfMultiply => some .halfMultiply
  | .countLeadingZeros => some .countLeadingZeros
  | .saturating => some .saturating
  | .statusRead => some .statusRead
  | .statusWriteRegister | .statusWriteImmediate => some .statusWrite
  | .dataImmediateShift | .dataRegisterShift | .dataImmediate => some .dataProcessing
  | .transferImmediate | .transferRegister => some .transfer
  | .blockTransfer => some .blockTransfer
  | .coprocessor => some .coprocessor
  | .undefined => none

theorem halfTransferKind?_eq_none : halfTransferKind? true w = none ↔ w.extractLsb' 5 2 = 0b00 := by
  have two : ∀ b : BitVec 2, b = 0 ∨ b = 1 ∨ b = 2 ∨ b = 3 := by decide
  rw [halfTransferKind?]
  rcases two (w.extractLsb' 5 2) with h | h | h | h <;> cases w.getLsbD 20 <;> simp [h]

theorem kind?_decode : (decode true w).kind? = (classOf w).kind? w := by
  rw [decode]
  cases classOf w with
  | branch =>
    simp only [Class.kind?, Bool.true_and, beq_iff_eq]
    split <;> rfl
  | branchExchange =>
    simp only [Class.kind?, Bool.not_true, Bool.and_false, Bool.or_false, bne_iff_ne, ite_not]
    split <;> rfl
  | halfTransfer =>
    simp only [Class.kind?, ← halfTransferKind?_eq_none]
    cases halfTransferKind? true w <;> rfl
  | _ => rfl

end

theorem extract_eq_iff {n len : Nat} (x : BitVec n) (start : Nat) (v : BitVec len) :
    x.extractLsb' start len = v ↔ ∀ i < len, x.getLsbD (start + i) = v.getLsbD i := by
  constructor
  · rintro rfl i hi
    simp [hi]
  · intro h
    refine BitVec.eq_of_getLsbD_eq fun i hi => ?_
    simp [hi, h i hi]

/-- A pattern fits a word if the word has its bits where the code is taken from. -/
theorem Pattern.fits_code (p : Pattern) (w : Word) :
    p.fits (code w) = true ↔
      ∀ i < 12, (w.getLsbD (if i < 4 then i + 4 else i + 16) && p.fixed.getLsbD i) = p.bits.getLsbD i := by
  have place : ∀ i < 12, (code w).getLsbD i = w.getLsbD (if i < 4 then i + 4 else i + 16) := by
    intro i hi
    rw [code, BitVec.getLsbD_append]
    split
    · simp [*, Nat.add_comm]
    · simp only [BitVec.getLsbD_extractLsb', show i - 4 < 8 by omega, decide_true, Bool.true_and]
      congr 1
      omega
  rw [Pattern.fits, beq_iff_eq]
  constructor
  · intro h i hi
    rw [← place i hi, ← h, BitVec.getLsbD_and]
  · intro h
    refine BitVec.eq_of_getLsbD_eq fun i hi => ?_
    rw [BitVec.getLsbD_and, place i hi, h i hi]

namespace Class

def first (l : List Pattern) (c : BitVec 12) : Class :=
  match l.find? (·.fits c) with
  | some p => p.cls
  | none => .undefined

theorem classOf_eq (w : Word) : classOf w = first patterns (code w) := rfl

theorem first_cons (p : Pattern) (l : List Pattern) (c : BitVec 12) :
    first (p :: l) c = if p.fits c then p.cls else first l c := by
  rw [first, List.find?_cons]
  cases p.fits c <;> rfl

theorem first_nil (c : BitVec 12) : first [] c = .undefined := rfl

theorem first_cases {P : Class → Prop} {p : Pattern} {l : List Pattern} {c : BitVec 12}
    (here : p.fits c = true → P p.cls) (later : ¬ p.fits c = true → P (first l c)) : P (first (p :: l) c) := by
  rw [first_cons]
  split
  · exact here ‹_›
  · exact later ‹_›

end Class

theorem Kind.fits_of_kind? {w : Word} {k : Kind} : (classOf w).kind? w = some k → k.Fits w := by
  rw [Class.classOf_eq, patterns]
  -- at each pattern either it fits and its bits are those of the kind, or it is known not to from here on
  repeat' refine Class.first_cases (P := fun cls => cls.kind? w = some k → k.Fits w) (fun h => ?_) (fun h => ?_)
  all_goals simp only [Class.kind?, Class.first, List.find?_nil]
  all_goals try split
  all_goals rintro ⟨⟩
  all_goals simp only [Pattern.fits_code, Nat.forall_lt_succ_right, Nat.not_lt_zero, false_implies, implies_true,
    true_and, and_true, Nat.reduceLT, Nat.reduceAdd, BitVec.reduceGetLsb, reduceIte, Bool.and_true,
    Bool.and_false] at h
  all_goals simp only [Fits, Miscellaneous, WritesStatusRegister, WritesStatusImmediate, extract_eq_iff,
    Nat.forall_lt_succ_right, Nat.not_lt_zero, false_implies, implies_true, true_and, Nat.reduceAdd,
    BitVec.reduceGetLsb] at *
  all_goals try simp only [*, and_self, not_false_eq_true, Bool.true_eq_false, Bool.false_eq_true, false_and,
    and_false, true_or, or_true, true_and]
  -- left are the classes of data processing: the comparisons that set no flags are above them in the table
  all_goals
    rintro ⟨⟨clear23, set24⟩, clear20⟩
    simp_all only [Pattern.fits_code, Nat.forall_lt_succ_right, Nat.not_lt_zero, false_implies, implies_true,
      true_and, and_true, Nat.reduceLT, Nat.reduceAdd, BitVec.reduceGetLsb, reduceIte, Bool.and_true,
      Bool.and_false, Bool.true_eq_false, Bool.false_eq_true, false_and, and_false, not_false_eq_true,
      not_true_eq_false, Bool.not_eq_true, and_self]

theorem Kind.kind?_of_fits {w : Word} {k : Kind} (h : k.Fits w) : (classOf w).kind? w = some k := by
  simp only [Class.classOf_eq, patterns, Class.first_cons, Class.first_nil, Pattern.fits_code,
    Nat.forall_lt_succ_right, Nat.not_lt_zero, false_implies, implies_true, true_and, and_true, Nat.reduceLT,
    Nat.reduceAdd, BitVec.reduceGetLsb, reduceIte, Bool.and_true, Bool.and_false]
  cases k
  all_goals simp only [Fits, Miscellaneous, WritesStatusRegister, WritesStatusImmediate, extract_eq_iff,
    Nat.forall_lt_succ_right, Nat.not_lt_zero, false_implies, implies_true, true_and, Nat.reduceAdd,
    BitVec.reduceGetLsb, not_and_or, Bool.not_eq_true, Bool.not_eq_false] at h
  -- the bits of a kind leave one pattern of the table, except that these four kinds are spread over several
  case' dataProcessing =>
    obtain ⟨data, plain, (flagged | flagged) | flagged⟩ := h
    all_goals cases immediate : w.getLsbD 25 <;> cases shifted : w.getLsbD 4
    all_goals simp only [immediate, shifted, Bool.true_eq_false, Bool.false_eq_true, true_or, or_true, or_false,
      false_or] at plain
  case' transfer => rcases h with ⟨single, h | h⟩ | ⟨data, h7, h4, h | h⟩
  case' transfer.inl.inr => cases register : w.getLsbD 25
  case' transfer.inr.inl => cases word : w.getLsbD 6
  case' statusWrite => rcases h with h | h
  case' branchExchange => obtain ⟨h, h', link | link, ones⟩ := h
  all_goals simp only [*, Bool.true_eq_false, Bool.false_eq_true, and_false, false_and, and_self, reduceIte,
    Class.kind?, extract_eq_iff, Nat.forall_lt_succ_right, Nat.not_lt_zero, false_implies, implies_true, true_and,
    Nat.reduceAdd, BitVec.reduceGetLsb]

/-- On the newer architecture an instruction has a kind just if its word fits the description of that kind,
and is undefined just if the word fits none. No word fits two descriptions. -/
theorem decode_kind (w : Word) :
    (∀ k, (decode true w).kind? = some k ↔ k.Fits w) ∧
      (decode true w = .undefined ↔ ∀ k : Kind, ¬ k.Fits w) ∧
      ∀ k l : Kind, k.Fits w → l.Fits w → k = l := by
  have described : ∀ k, (decode true w).kind? = some k ↔ k.Fits w := by
    intro k
    rw [kind?_decode]
    exact ⟨Kind.fits_of_kind?, Kind.kind?_of_fits⟩
  refine ⟨described, ?_, fun k l hk hl => ?_⟩
  · rw [← Instruction.kind?_eq_none, Option.eq_none_iff_forall_ne_some]
    exact forall_congr' fun k => not_congr (described k)
  · exact Option.some.inj (((described k).mpr hk).symm.trans ((described l).mpr hl))

/-- The descriptions, with only the register form of a status write. -/
def Kind.FitsRegister (w : Word) : Kind → Prop
  | .statusWrite => WritesStatusRegister w
  | k => k.Fits w

/-- A status write from an immediate fits no other description. -/
theorem status_write_described : (∀ k : Kind, ¬ k.FitsRegister 0xE328F20F) ∧
    decode true 0xE328F20F = .statusWrite false true false (.immediate 0xF0000000) := by
  refine ⟨fun k => ?_, by decide⟩
  cases k <;> simp only [Kind.FitsRegister, Kind.Fits, Miscellaneous, WritesStatusRegister] <;> decide

end Lockstep.Arm
