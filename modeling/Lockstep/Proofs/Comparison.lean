import Lockstep.FlatMemory
import Lockstep.Proofs.Failures
import Lockstep.Proofs.Limbs
import Lockstep.Proofs.ThumbAsArm

/-!
Comparisons. The tables of the condition codes are read as formulas over the four flags, and the flags of a difference
as relations between its operands. Together they say what each condition means after a comparison.
-/

namespace Lockstep

namespace Condition

/-- What each code asks of the flags, in the order of the encoding. -/
def reading (negative zero carry overflow : Bool) : Vector Bool 16 := #v[
  zero, !zero, carry, !carry, negative, !negative, overflow, !overflow,
  carry && !zero, !carry || zero, negative == overflow, negative != overflow,
  !zero && negative == overflow, zero || negative != overflow, true, false]

theorem table_get (c : Condition) (n z v o : Bool) :
    (table.get c.toFin).getLsbD (8 * n.toNat + 4 * z.toNat + 2 * v.toNat + o.toNat) =
      (reading n z v o).get c.toFin := by
  revert c n z v o
  decide

/-- The flags above all others spell the position in a table. -/
theorem position (cpsr : Word) :
    (cpsr >>> 28).toNat = 8 * (cpsr.getLsbD 31).toNat + 4 * (cpsr.getLsbD 30).toNat + 2 * (cpsr.getLsbD 29).toNat +
      (cpsr.getLsbD 28).toNat := by
  have digits : ∀ x : BitVec 4, x.toNat = 8 * (x.getLsbD 3).toNat + 4 * (x.getLsbD 2).toNat +
      2 * (x.getLsbD 1).toNat + (x.getLsbD 0).toNat := by decide
  have top : (cpsr >>> 28).toNat = (cpsr.extractLsb' 28 4).toNat := by
    have h := cpsr.isLt
    rw [BitVec.toNat_ushiftRight, BitVec.extractLsb'_toNat, Nat.mod_eq_of_lt]
    rw [Nat.shiftRight_eq_div_pow]
    omega
  rw [top, digits]
  simp only [BitVec.getLsbD_extractLsb', Nat.reduceLT, decide_true, Bool.true_and, Nat.reduceAdd]

/-- What each code says about two words after their comparison, in the order of the encoding. -/
def compared (a b : Word) : Vector Prop 16 := #v[
  a = b, a ≠ b,
  b.toNat ≤ a.toNat, a.toNat < b.toNat,
  (a - b).msb = true, (a - b).msb = false,
  ¬ Limbs.Fits 1 (a.toInt - b.toInt), Limbs.Fits 1 (a.toInt - b.toInt),
  b.toNat < a.toNat, a.toNat ≤ b.toNat,
  b.toInt ≤ a.toInt, a.toInt < b.toInt,
  b.toInt < a.toInt, a.toInt ≤ b.toInt,
  True, False]

end Condition

theorem Registers.satisfies_eq (f : Registers) (c : Condition) :
    f.satisfies c =
      (Condition.reading (f.flag .negative) (f.flag .zero) (f.flag .carry) (f.flag .overflow)).get c.toFin := by
  rw [Registers.satisfies, Condition.holds, Condition.position]
  exact Condition.table_get ..

namespace Sum

variable (a b : Word)

theorem sub_zero : ((sub a b).value == 0) = true ↔ a = b := by
  rw [beq_iff_eq]
  exact BitVec.sub_eq_iff_eq_add.trans (by rw [BitVec.ofNat_eq_ofNat, BitVec.zero_add])

theorem sub_carry : (sub a b).carry = true ↔ b.toNat ≤ a.toNat := BitVec.ule_iff_le

theorem sub_overflow : (sub a b).overflow = true ↔ ¬ Limbs.Fits 1 (a.toInt - b.toInt) := by
  have complement : (~~~b).toInt = -1 - b.toInt := by
    have h := b.isLt
    rw [BitVec.toInt_eq_toNat_cond, BitVec.toInt_eq_toNat_cond, BitVec.toNat_not]
    split_ifs <;> omega
  rw [sub_eq, subCarry, addCarry_overflow, complement, Bool.toNat_true,
    show a.toInt + (-1 - b.toInt) + (1 : Nat) = a.toInt - b.toInt by omega]
  rfl

/-- A difference that leaves the word has the wrong sign. -/
theorem sub_less : (sub a b).value.msb ≠ (sub a b).overflow ↔ a.toInt < b.toInt := by
  have ha := a.isLt
  have hb := b.isLt
  have fits := sub_overflow a b
  have value : (sub a b).value.toNat = (2 ^ 32 - b.toNat + a.toNat) % 2 ^ 32 := BitVec.toNat_sub ..
  have sign : (sub a b).value.msb = true ↔ 2 ^ 31 ≤ (sub a b).value.toNat := by
    rw [BitVec.msb_eq_decide, decide_eq_true_iff]
  rw [Limbs.fits_iff] at fits
  rw [ne_eq, Bool.eq_iff_iff, fits, sign, value, BitVec.toInt_eq_toNat_cond a, BitVec.toInt_eq_toNat_cond b]
  split_ifs <;> omega

end Sum

namespace Condition

/-- Read off the flags of a difference, each code says of the two words what it is meant to say. -/
theorem reading_compared {a b : Word} {s : Sum} (difference : s = Sum.sub a b) (i : Fin 16) :
    (reading s.value.msb (s.value == 0) s.carry s.overflow).get i = true ↔ (compared a b).get i := by
  subst difference
  set s := Sum.sub a b
  have equal : (s.value == 0) = true ↔ a = b := Sum.sub_zero a b
  have atLeast : s.carry = true ↔ b.toNat ≤ a.toNat := Sum.sub_carry a b
  have leaves : s.overflow = true ↔ ¬ Limbs.Fits 1 (a.toInt - b.toInt) := Sum.sub_overflow a b
  have less : ¬ s.value.msb = s.overflow ↔ a.toInt < b.toInt := Sum.sub_less a b
  have off : ∀ x : Bool, (!x) = true ↔ ¬ x = true := fun x => by rw [Bool.not_eq_true', Bool.not_eq_true]
  have distinct : a = b ↔ a.toNat = b.toNat := BitVec.toNat_inj.symm
  have signed : a = b ↔ a.toInt = b.toInt := BitVec.toInt_inj.symm
  match i with
  | 0 => exact equal
  | 1 => exact (off _).trans (not_congr equal)
  | 2 => exact atLeast
  | 3 => exact (off _).trans ((not_congr atLeast).trans Nat.not_le)
  | 4 => exact Iff.rfl
  | 5 => exact (Bool.not_eq_true' _).to_iff
  | 6 => exact leaves
  | 7 => exact (off _).trans ((not_congr leaves).trans not_not)
  | 8 =>
    refine (Bool.and_eq_true ..).to_iff.trans ?_
    rw [atLeast, off, equal, distinct]
    exact (Nat.lt_iff_le_and_ne.trans (and_congr_right' ne_comm)).symm
  | 9 =>
    refine (Bool.or_eq_true ..).to_iff.trans ?_
    rw [off, atLeast, equal, distinct, Nat.not_le]
    exact Nat.le_iff_lt_or_eq.symm
  | 10 => exact beq_iff_eq.trans ((not_not.symm.trans (not_congr less)).trans Int.not_lt)
  | 11 => exact bne_iff_ne.trans less
  | 12 =>
    refine (Bool.and_eq_true ..).to_iff.trans ?_
    rw [off, equal, signed, beq_iff_eq, ← @not_not (s.value.msb = s.overflow), less]
    show _ ↔ b.toInt < a.toInt
    omega
  | 13 =>
    refine (Bool.or_eq_true ..).to_iff.trans ?_
    rw [equal, signed, bne_iff_ne, ne_eq, less]
    show _ ↔ a.toInt ≤ b.toInt
    omega
  | 14 => exact iff_of_true rfl trivial
  | 15 => exact iff_of_false Bool.false_ne_true id
  | ⟨k + 16, h⟩ => exact absurd h (Nat.not_lt.2 (Nat.le_add_left ..))

end Condition

namespace Registers

/-- A file after a comparison: every condition tells of the two words, and below the flags the status is as before. -/
structure Compared (f : Registers) (a b : Word) (f' : Registers) : Prop where
  conditions : ∀ c, f'.satisfies c = true ↔ (Condition.compared a b).get c.toFin
  below : ∀ i < 28, f'.cpsr.getLsbD i = f.cpsr.getLsbD i

theorem setNZCV_compared (f : Registers) (a b : Word) : f.Compared a b (f.setNZCV true (.sub a b)) where
  conditions := by
    intro c
    rw [← Condition.reading_compared rfl, satisfies_eq]
    simp only [setNZCV, setNZC, setNZ, if_true, flag_setFlag, reduceCtorEq, if_false]
  below := by
    intro i hi
    have other : ∀ x : Flag, 28 ≤ x.position → i ≠ x.position := fun x above =>
      Nat.ne_of_lt (Nat.lt_of_lt_of_le hi above)
    simp only [setNZCV, setNZC, setNZ, if_true, getLsbD_setFlag, other .negative (by decide), other .zero (by decide),
      other .carry (by decide), other .overflow (by decide), if_false]

theorem write_cpsr (f : Registers) (r : Register) (v : Word) : (f.write r v).cpsr = f.cpsr := by
  unfold write
  split <;> rfl

/-- A result that is kept does not show in the status. -/
theorem Compared.write {f f' : Registers} {a b : Word} (h : f.Compared a b f') (r : Register) (v : Word) :
    f.Compared a b (f'.write r v) where
  conditions c := by
    rw [satisfies, write_cpsr]
    exact h.conditions c
  below i hi := (congrArg (·.getLsbD i) (f'.write_cpsr r v)).trans (h.below i hi)

end Registers

variable {σ : Type} (bus : Bus σ) (m : Machine σ)

/-- The words that an instruction compares: the operands of a subtraction that sets flags, in the order in which it
subtracts. One that writes the program counter takes all flags from elsewhere. -/
def Arm.Instruction.compared? : Arm.Instruction → Option (Word × Word)
  | .dataProcessing op true n d operand =>
    let (a, b) := (Arm.fetchOperands n operand m).1
    match op with
    | .cmp => some (a, b.value)
    | .sub => if d = Register.pc then none else some (a, b.value)
    | .rsb => if d = Register.pc then none else some (b.value, a)
    | _ => none
  | _ => none

/-- The words that an instruction compares; a negation compares with zero. -/
def Thumb.Instruction.compared? : Thumb.Instruction → Option (Word × Word)
  | .addSub true _ s (.register n) => some (Thumb.low m s, Thumb.low m n)
  | .addSub true _ s (.immediate v) => some (Thumb.low m s, v)
  | .immediate .cmp d v | .immediate .sub d v => some (Thumb.low m d, v)
  | .alu .cmp d s => some (Thumb.low m d, Thumb.low m s)
  | .alu .neg _ s => some (0, Thumb.low m s)
  | .high .cmp d s => some (m.reg d, m.reg s)
  | _ => none

namespace Arm

/-- A comparison writes nothing, whatever its destination is. -/
theorem processData_cmp (n d : Register) (operand : Operand) :
    processData bus .cmp true n d operand m =
      let r := fetchOperands n operand m
      .ok () (r.2.mapRegs fun _ => r.2.cpu.regs.setNZCV true (.sub r.1.1 r.1.2.value)) := by
  have ordinary : (true && d == Register.pc && AluOp.cmp.writes) = false := Bool.and_false _
  rw [processData_eq, ordinary]
  rfl

theorem perform_compared (word : Word) {i : Instruction} {a b : Word} (h : i.compared? m = some (a, b)) :
    ∃ m', perform bus word i m = .ok () m' ∧ m.cpu.regs.Compared a b m'.cpu.regs := by
  match i with
  | .dataProcessing op true n d operand =>
    have regs := fetchOperands_regs m n operand
    have compared := (fetchOperands n operand m).2.cpu.regs.setNZCV_compared a b
    rw [regs] at compared
    simp only [Instruction.compared?] at h
    cases op
    case cmp =>
      cases h
      exact ⟨_, processData_cmp bus m n d operand, regs ▸ compared⟩
    case sub | rsb =>
      obtain ⟨hd, h⟩ := Option.ite_none_left_eq_some.1 h
      cases h
      exact ⟨_, processData_eq_ok bus m _ n operand hd, regs ▸ compared.write d _⟩
    all_goals cases h

end Arm

namespace Thumb

theorem perform_compared (word : Halfword) {i : Instruction} {a b : Word} (h : i.compared? m = some (a, b)) :
    ∃ m', perform bus word i m = .ok () m' ∧ m.cpu.regs.Compared a b m'.cpu.regs := by
  have compared := m.cpu.regs.setNZCV_compared a b
  match i with
  | .addSub true d s (.register n) | .addSub true d s (.immediate v) | .immediate .sub d v | .alu .neg d s =>
    cases h
    exact ⟨_, rfl, compared.write d.wide _⟩
  | .immediate .cmp d v | .alu .cmp d s | .high .cmp d s =>
    cases h
    exact ⟨_, rfl, compared⟩

end Thumb

/-- After a difference has set the flags, the sixteen conditions are the relations between the two words that they are
named for, and the rest of the status is as before. So it is after every comparison and every subtraction that sets
flags, whichever instruction set it is of. -/
theorem conditions_compare :
    (∀ (f : Registers) (a b : Word), f.Compared a b (f.setNZCV true (.sub a b))) ∧
    (∀ w a b, Arm.executes bus.isV5 m.cpu.regs w = true → (Arm.decode bus.isV5 w).compared? m = some (a, b) →
      ∃ m', Arm.execute bus w m = .ok () m' ∧ m.cpu.regs.Compared a b m'.cpu.regs) ∧
    ∀ h a b, (Thumb.decode bus.isV5 h).compared? m = some (a, b) →
      ∃ m', Thumb.execute bus h m = .ok () m' ∧ m.cpu.regs.Compared a b m'.cpu.regs := by
  refine ⟨Registers.setNZCV_compared, fun w a b executes compares => ?_, fun h a b compares => ?_⟩
  · rw [Arm.execute_eq, if_pos executes]
    exact Arm.perform_compared bus m w compares
  · exact Thumb.perform_compared bus m h compares

/-- A machine with the lowest signed number in the link register. -/
def lowest : Machine FlatMemory where
  cpu := (Processor.powerOn .v4).mapRegs (·.setLr 0x80000000)
  system := { ram := ByteArray.empty }
  journal := #[]

/-- `CMP lr, #1`: the lowest number is below one, although the difference is positive. -/
theorem lowest_compares :
    let bus := FlatMemory.bus .v4 fun _ _ _ => 1
    let w : Word := 0xE35E0001
    Arm.executes bus.isV5 lowest.cpu.regs w = true ∧
      (Arm.decode bus.isV5 w).compared? lowest = some (0x80000000, 1) ∧
      ∃ m', Arm.execute bus w lowest = .ok () m' ∧ m'.cpu.regs.satisfies 11 = true ∧
        m'.cpu.regs.satisfies 4 = false := by
  intro bus w
  have executes : Arm.executes bus.isV5 lowest.cpu.regs w = true := by decide +kernel
  have compares : (Arm.decode bus.isV5 w).compared? lowest = some (0x80000000, 1) := by decide +kernel
  obtain ⟨m', done, conditions, -⟩ := (conditions_compare bus lowest).2.1 w _ _ executes compares
  have less : m'.cpu.regs.satisfies 11 = true := (conditions 11).2 (by decide : (0x80000000#32).toInt < (1#32).toInt)
  have positive : ¬ m'.cpu.regs.satisfies 4 = true :=
    (conditions 4).not.2 (by decide : ¬ (0x80000000#32 - 1).msb = true)
  exact ⟨executes, compares, m', done, less, Bool.not_eq_true _ ▸ positive⟩

end Lockstep
