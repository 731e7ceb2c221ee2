import Lockstep.Proofs.Counterpart
import Lockstep.Proofs.Frame
import Mathlib.Tactic.IntervalCases

/-!
THUMB data processing is ARM data processing. A halfword does to a machine what its counterpart does, and
neither depends on the program counter or on the instruction set.
-/

namespace Lockstep

namespace Registers
variable (f : Registers)

theorem setFlag_self (x : Flag) : f.setFlag x (f.flag x) = f := by
  have put : Bits.put f.cpsr x.position (f.cpsr.getLsbD x.position) = f.cpsr := by
    apply BitVec.eq_of_getLsbD_eq
    intro i hi
    rw [Bits.getLsbD_put _ _ _ _ (by cases x <;> decide)]
    split_ifs with h
    · rw [h]
    · rfl
  rw [setFlag, flag, put]

/-- An operation whose shifter lets the carry pass takes two flags from its result. -/
theorem setNZC_carry (v : Word) : f.setNZC true v (f.flag .carry) = f.setNZ true v := by
  have carry : (f.setNZ true v).flag .carry = f.flag .carry := by
    simp only [setNZ, if_true, flag_setFlag, reduceCtorEq, if_false]
  have kept := (f.setNZ true v).setFlag_self .carry
  rw [carry] at kept
  exact kept

theorem write_setFlag (r : Register) (v : Word) (x : Flag) (b : Bool) :
    (f.setFlag x b).write r v = (f.write r v).setFlag x b := by
  unfold write
  rw [setFlag_mode]
  cases f.mode.slot? r <;> rfl

theorem write_setNZ (r : Register) (v w : Word) :
    (f.setNZ true w).write r v = (f.write r v).setNZ true w := by
  simp only [setNZ, if_true, write_setFlag]

end Registers

variable {σ : Type} (bus : Bus σ) (m : Machine σ)

theorem Bus.setReg_of_ne {r : Register} (h : r ≠ Register.pc) (v : Word) :
    bus.setReg r v m = m.mapRegs (·.write r v) := if_neg h

namespace Arm

theorem finish_eq_ok (writes : Bool) {d : Register} (h : d ≠ Register.pc) (v : Word) :
    finish bus false writes d v m = .ok () (if writes then m.mapRegs (·.write d v) else m) := by
  cases writes
  · rfl
  · exact congrArg (EStateM.Result.ok ()) (bus.setReg_of_ne m h v)

/-- An operation that sets flags and does not write the program counter. -/
theorem processData_eq_ok (op : AluOp) (n : Register) (operand : Operand) {d : Register}
    (h : d ≠ Register.pc) :
    processData bus op true n d operand m =
      let r := fetchOperands n operand m
      let result := op.apply r.2.cpu.regs true r.1.1 r.1.2.value (m.flag .carry) r.1.2.carry
      .ok () (if op.writes then (r.2.mapRegs fun _ => result.2).mapRegs (·.write d result.1)
        else r.2.mapRegs fun _ => result.2) := by
  have ordinary : (true && d == Register.pc && op.writes) = false := by simp [h]
  rw [processData_eq, ordinary]
  simp only [Exec.get_bind, Exec.modifyGet_bind, finish_eq_ok bus _ _ h]
  rfl

/-- A multiplication of low registers does not jump either. -/
theorem multiply_eq (d s r : Register) (h : d ≠ Register.pc) :
    multiply bus false true d 0 s r m =
      (clearCarryOnV4 bus ((m.mapRegs (·.write d (m.reg r * m.reg s))).mapRegs
        (·.setNZ true (m.reg r * m.reg s)))).idleMultiplier (m.reg s) true := by
  rw [multiply]
  simp only [Bool.false_eq_true, if_false, if_true, bus.setReg_of_ne _ h]

end Arm

namespace Thumb

theorem perform_shift (word : Word) (kind : Shift) (d s : LowRegister) (amount : BitVec 5) :
    Arm.perform bus word (Arm.FlagSetting.shifted .mov Arm.unused d.wide s.wide kind amount).instruction m =
      .ok () (shift kind d s amount.toNat m) := by
  refine (Arm.processData_eq_ok bus m _ _ _ (wide_ne_pc d)).trans ?_
  rfl

theorem perform_addSub (word : Word) (sub : Bool) (d s n : LowRegister) :
    Arm.perform bus word
        (Arm.FlagSetting.shifted (if sub then .sub else .add) s.wide d.wide n.wide .lsl 0).instruction m =
      .ok () (addSub sub d s (.register n) m) := by
  refine (Arm.processData_eq_ok bus m _ _ _ (wide_ne_pc d)).trans ?_
  cases sub <;> rfl

theorem perform_addSubByte (word : Word) (sub : Bool) (d s : LowRegister) (v : BitVec 8) :
    Arm.perform bus word
        (Arm.FlagSetting.byte (if sub then .sub else .add) s.wide d.wide v).instruction m =
      .ok () (addSub sub d s (.immediate (v.setWidth 32)) m) := by
  refine (Arm.processData_eq_ok bus m _ _ _ (wide_ne_pc d)).trans ?_
  cases sub <;> rfl

/-- A logical operation on a register that is not shifted leaves the carry alone. -/
theorem logical_eq (v : Word) :
    (m.mapRegs fun f => f.setNZC true v (m.flag .carry)) = m.mapRegs (·.setNZ true v) :=
  congrArg (fun f => m.mapRegs fun _ => f) (m.cpu.regs.setNZC_carry v)

theorem perform_immediate (word : Word) (op : ImmediateOp) (d : LowRegister) (v : BitVec 8) :
    Arm.perform bus word (op.onArm d.wide v).instruction m = .ok () (immediate op d (v.setWidth 32) m) := by
  cases op with
  | mov =>
    refine (Arm.processData_eq_ok bus m _ _ _ (wide_ne_pc d)).trans ?_
    exact congrArg (fun m => EStateM.Result.ok () (setLow d _ m)) (logical_eq m _)
  | cmp => exact Arm.processData_eq_ok bus m _ _ _ (by decide)
  | add | sub => exact Arm.processData_eq_ok bus m _ _ _ (wide_ne_pc d)

/-- An operation on registers that are not shifted. -/
theorem perform_plain (word : Word) (op : Arm.AluOp) (n s : LowRegister) {d : Register}
    (h : d ≠ Register.pc) :
    Arm.perform bus word (Arm.FlagSetting.shifted op n.wide d s.wide .lsl 0).instruction m =
      let result := op.apply m.cpu.regs true (low m n) (low m s) (m.flag .carry) (m.flag .carry)
      .ok () (if op.writes then (m.mapRegs fun _ => result.2).mapRegs (·.write d result.1)
        else m.mapRegs fun _ => result.2) :=
  Arm.processData_eq_ok bus m op n.wide _ h

/-- The operands are read a cycle late, which only the program counter would show. -/
theorem perform_shifted (word : Word) (kind : Shift) (d s : LowRegister) :
    Arm.perform bus word (Arm.FlagSetting.shiftedBy .mov Arm.unused d.wide d.wide kind s.wide).instruction m =
      let r := kind.register (low m d) (low m s) (m.flag .carry)
      .ok () (setLow d r.value (m.idleNonsequential.mapRegs (·.setNZC true r.value r.carry))) := by
  have late : m.idleNonsequential.regLate d.wide = low m d := if_neg (wide_ne_pc d)
  refine (Arm.processData_eq_ok bus m _ _ _ (wide_ne_pc d)).trans ?_
  simp only [Arm.fetchOperands, late]
  rfl

/-- The other order of a multiplication: first the time, then the flags, then the product. -/
theorem perform_multiply (word : Word) (d s : LowRegister) :
    Arm.perform bus word (Arm.FlagSetting.multiply d.wide s.wide d.wide).instruction m =
      .ok () (alu bus .mul d s m) := by
  refine congrArg (EStateM.Result.ok ()) ((Arm.multiply_eq bus m _ _ _ (wide_ne_pc d)).trans ?_)
  have product : m.reg s.wide * m.reg d.wide = low m d * low m s := BitVec.mul_comm ..
  simp only [Arm.clearCarryOnV4, product, alu, aluResult, AluOp.writes, if_true]
  generalize low m d * low m s = v
  have flags := m.cpu.regs.write_setNZ d.wide v v
  have carry := (m.cpu.regs.setNZ true v).write_setFlag d.wide v .carry false
  split_ifs
  · exact congrArg (fun f => (m.idleMultiplier (low m d) true).mapRegs fun _ => f) flags.symm
  · rw [flags] at carry
    exact congrArg (fun f => (m.idleMultiplier (low m d) true).mapRegs fun _ => f) carry.symm

theorem perform_alu (word : Word) (op : AluOp) (d s : LowRegister) :
    Arm.perform bus word (op.onArm d.wide s.wide).instruction m = .ok () (alu bus op d s m) := by
  have hd := wide_ne_pc d
  cases op
  case and | eor | orr | bic =>
    refine (perform_plain bus m word _ d s hd).trans ?_
    exact congrArg (fun m => EStateM.Result.ok () (setLow d _ m)) (logical_eq m _)
  case mvn =>
    refine (perform_plain bus m word _ 0 s hd).trans ?_
    exact congrArg (fun m => EStateM.Result.ok () (setLow d _ m)) (logical_eq m _)
  case tst =>
    refine (perform_plain bus m word _ d s (by decide)).trans ?_
    exact congrArg (EStateM.Result.ok ()) (logical_eq m _)
  case adc | sbc => exact perform_plain bus m word _ d s hd
  case cmp | cmn => exact perform_plain bus m word _ d s (by decide)
  case neg => exact Arm.processData_eq_ok bus m _ _ _ hd
  case lsl | lsr | asr | ror => exact perform_shifted bus m word _ d s
  case mul => exact perform_multiply bus m word d s

/-- The formats, told apart by the top five bits. -/
theorem formats {h : Halfword} (hf : IsDataProcessing h) :
    (h.extractLsb' 11 5).toNat < 3 ∨ (h.extractLsb' 11 5).toNat = 3 ∨
      (4 ≤ (h.extractLsb' 11 5).toNat ∧ (h.extractLsb' 11 5).toNat < 8) ∨
      (h.extractLsb' 11 5).toNat = 8 ∧ h.getLsbD 10 = false := by
  have hlt := h.isLt
  have bit : h.getLsbD 10 = decide (h.toNat / 1024 % 2 = 1) := by
    rw [BitVec.getLsbD, Nat.testBit_eq_decide_div_mod_eq]
  simp only [IsDataProcessing, ← BitVec.toNat_inj, BitVec.extractLsb'_toNat,
    Nat.shiftRight_eq_div_pow] at hf ⊢
  rw [bit, decide_eq_false_iff_not]
  rcases hf with hf | hf
  · have : h.toNat / 2 ^ 14 % 2 ^ 2 = 0 := hf
    omega
  · have : h.toNat / 2 ^ 10 % 2 ^ 6 = 16 := hf
    omega

/-- A halfword of data processing does what its counterpart does. -/
theorem perform_counterpart (word : Word) {h : Halfword} (hf : IsDataProcessing h) :
    perform bus h (decode bus.isV5 h) m = Arm.perform bus word (counterpart h).instruction m := by
  unfold decode counterpart
  rcases formats hf with hn | hn | ⟨h₁, h₂⟩ | ⟨hn, hb⟩
  · generalize (h.extractLsb' 11 5).toNat = k at hn
    interval_cases k <;> exact (perform_shift bus m word _ _ _ _).symm
  · simp only [hn]
    by_cases hi : h.getLsbD 10
    · have : (h.extractLsb' 6 3).setWidth 32 = ((h.extractLsb' 6 3).setWidth 8).setWidth 32 := by
        generalize h.extractLsb' 6 3 = x
        revert x
        decide
      simp only [hi, if_true, field, this]
      exact (perform_addSubByte bus m word _ _ _ _).symm
    · simp only [hi]
      exact (perform_addSub bus m word _ _ _ _).symm
  · generalize (h.extractLsb' 11 5).toNat = k at h₁ h₂
    interval_cases k <;> exact (perform_immediate bus m word _ _ _).symm
  · simp only [hn, hb]
    exact (perform_alu bus m word _ _ _).symm

theorem execute_counterpart {h : Halfword} (hf : IsDataProcessing h) :
    execute bus h m = Arm.execute bus (counterpart h).word m := by
  rw [Arm.execute_eq, if_pos (Arm.executes_always _ _ (Arm.FlagSetting.condition_word _)),
    Arm.FlagSetting.decode_word]
  exact perform_counterpart bus m _ hf

end Thumb

-- Nothing in data processing sees the program counter or the instruction set.

def Registers.recode (thumb : Bool) (pc : Word) (f : Registers) : Registers :=
  { f.setFlag .thumb thumb with pc := pc }

def Machine.recode (thumb : Bool) (pc : Word) : Machine σ := m.mapRegs (·.recode thumb pc)

namespace Registers
variable (f : Registers) (t : Bool) (pc : Word)

theorem slot?_wide (k : Mode) (r : LowRegister) : k.slot? r.wide = some (.low r) := dif_pos r.isLt

theorem read_recode (r : LowRegister) : (f.recode t pc).read r.wide = f.read r.wide := by
  simp only [read, readAs, slot?_wide]
  rfl

theorem write_recode (r : LowRegister) (v : Word) :
    (f.recode t pc).write r.wide v = (f.write r.wide v).recode t pc := by
  simp only [write, slot?_wide]
  rfl

theorem flag_recode {x : Flag} (h : x ≠ .thumb) : (f.recode t pc).flag x = f.flag x :=
  (f.flag_setFlag .thumb x t).trans (if_neg h)

theorem setFlag_recode {x : Flag} (h : x ≠ .thumb) (b : Bool) :
    (f.recode t pc).setFlag x b = (f.setFlag x b).recode t pc := by
  have hp : x.position ≠ Flag.thumb.position := by cases x <;> first | decide | exact absurd rfl h
  have cpsr : ((f.setFlag .thumb t).setFlag x b).cpsr = ((f.setFlag x b).setFlag .thumb t).cpsr := by
    apply BitVec.eq_of_getLsbD_eq
    intro i hi
    simp only [getLsbD_setFlag]
    split_ifs with h₁ h₂
    · exact absurd (h₁.symm.trans h₂) hp
    all_goals rfl
  exact congrArg (fun w => { f with cpsr := w, pc := pc }) cpsr

theorem setNZ_recode (v : Word) : (f.recode t pc).setNZ true v = (f.setNZ true v).recode t pc := by
  simp only [setNZ, if_true, setFlag_recode, ne_eq, reduceCtorEq, not_false_eq_true]

theorem setNZC_recode (v : Word) (c : Bool) :
    (f.recode t pc).setNZC true v c = (f.setNZC true v c).recode t pc := by
  simp only [setNZC, if_true, setNZ_recode, setFlag_recode, ne_eq, reduceCtorEq, not_false_eq_true]

theorem setNZCV_recode (s : Lockstep.Sum) :
    (f.recode t pc).setNZCV true s = (f.setNZCV true s).recode t pc := by
  simp only [setNZCV, if_true, setNZC_recode, setFlag_recode, ne_eq, reduceCtorEq, not_false_eq_true]

end Registers

namespace Thumb
variable (t : Bool) (pc : Word)

theorem low_recode (r : LowRegister) : low (m.recode t pc) r = low m r := m.cpu.regs.read_recode t pc r

theorem carry_recode : (m.recode t pc).flag .carry = m.flag .carry :=
  m.cpu.regs.flag_recode t pc (by decide)

theorem mapRegs_recode {f : Registers → Registers}
    (h : ∀ g, f (Registers.recode t pc g) = (f g).recode t pc) :
    (m.recode t pc).mapRegs f = (m.mapRegs f).recode t pc :=
  congrArg (fun g => m.mapRegs fun _ => g) (h m.cpu.regs)

theorem setLow_recode (r : LowRegister) (v : Word) :
    setLow r v (m.recode t pc) = (setLow r v m).recode t pc :=
  mapRegs_recode m t pc fun g => g.write_recode t pc r v

theorem setFlags_recode (s : Sum) : setFlags s (m.recode t pc) = (setFlags s m).recode t pc :=
  mapRegs_recode m t pc fun g => g.setNZCV_recode t pc s

theorem keepSum_recode (d : LowRegister) (s : Sum) :
    keepSum d s (m.recode t pc) = (keepSum d s m).recode t pc := by
  rw [keepSum, setFlags_recode, setLow_recode, keepSum]

theorem setNZ_recode (v : Word) :
    (m.recode t pc).mapRegs (·.setNZ true v) = (m.mapRegs (·.setNZ true v)).recode t pc :=
  mapRegs_recode m t pc fun g => g.setNZ_recode t pc v

theorem setNZC_recode (v : Word) (c : Bool) :
    (m.recode t pc).mapRegs (·.setNZC true v c) = (m.mapRegs (·.setNZC true v c)).recode t pc :=
  mapRegs_recode m t pc fun g => g.setNZC_recode t pc v c

theorem shift_recode (kind : Shift) (d s : LowRegister) (amount : Nat) :
    shift kind d s amount (m.recode t pc) = (shift kind d s amount m).recode t pc := by
  simp only [shift, low_recode, carry_recode, setNZC_recode, setLow_recode]

theorem addSub_recode (sub : Bool) (d s : LowRegister) (operand : Operand) :
    addSub sub d s operand (m.recode t pc) = (addSub sub d s operand m).recode t pc := by
  cases operand <;> simp only [addSub, low_recode, keepSum_recode]

theorem immediate_recode (op : ImmediateOp) (d : LowRegister) (v : Word) :
    immediate op d v (m.recode t pc) = (immediate op d v m).recode t pc := by
  cases op <;> simp only [immediate, low_recode, setNZ_recode, setLow_recode, setFlags_recode, keepSum_recode]

theorem aluResult_recode (op : AluOp) (a b : Word) :
    aluResult bus op a b (m.recode t pc) =
      ((aluResult bus op a b m).1, (aluResult bus op a b m).2.recode t pc) := by
  cases op
  case and | eor | orr | bic | mvn | tst => exact congrArg (Prod.mk _) (setNZ_recode m t pc _)
  case neg | cmp | cmn => exact congrArg (Prod.mk _) (setFlags_recode m t pc _)
  case adc | sbc =>
    simp only [aluResult, carry_recode, setFlags_recode]
  case lsl | lsr | asr | ror =>
    simp only [aluResult, carry_recode]
    exact congrArg (Prod.mk _) (setNZC_recode m.idleNonsequential t pc _ _)
  case mul =>
    have timed := setNZ_recode (m.idleMultiplier a true) t pc (a * b)
    have cleared := mapRegs_recode ((m.idleMultiplier a true).mapRegs (·.setNZ true (a * b))) t pc
      (f := (·.setFlag .carry false)) fun g => g.setFlag_recode t pc (by decide) false
    simp only [aluResult]
    split_ifs
    · exact congrArg (Prod.mk _) timed
    · refine congrArg (Prod.mk _) (.trans ?_ cleared)
      exact congrArg (·.setFlag .carry false) timed

theorem alu_recode (op : AluOp) (d s : LowRegister) :
    alu bus op d s (m.recode t pc) = (alu bus op d s m).recode t pc := by
  simp only [alu, low_recode, aluResult_recode]
  split_ifs
  · rw [setLow_recode]
  · rfl

/-- What data processing does is a function of the machine that commutes with a change of the program
counter and the instruction set. -/
theorem execute_blind {h : Halfword} (hf : IsDataProcessing h) :
    ∃ f : Machine σ → Machine σ, (∀ m, execute bus h m = .ok () (f m)) ∧
      ∀ m t pc, f (m.recode t pc) = (f m).recode t pc := by
  unfold execute decode
  rcases formats hf with hn | hn | ⟨h₁, h₂⟩ | ⟨hn, hb⟩
  · generalize (h.extractLsb' 11 5).toNat = k at hn
    interval_cases k <;> exact ⟨shift _ _ _ _, fun _ => rfl, fun m t pc => shift_recode m t pc _ _ _ _⟩
  · simp only [hn]
    exact ⟨addSub _ _ _ _, fun _ => rfl, fun m t pc => addSub_recode m t pc _ _ _ _⟩
  · generalize (h.extractLsb' 11 5).toNat = k at h₁ h₂
    interval_cases k <;>
      exact ⟨immediate _ _ _, fun _ => rfl, fun m t pc => immediate_recode m t pc _ _ _⟩
  · simp only [hn, hb]
    exact ⟨alu bus _ _ _, fun _ => rfl, fun m t pc => alu_recode bus m t pc _ _ _⟩

end Thumb

/-- Alike but for the program counter and the instruction set. -/
structure Machine.SameButCode (m m' : Machine σ) : Prop where
  cells : m'.cpu.regs.cells = m.cpu.regs.cells
  saved : m'.cpu.regs.saved = m.cpu.regs.saved
  mode : m'.cpu.regs.mode = m.cpu.regs.mode
  cpsr : ∀ i, i ≠ Flag.thumb.position → m'.cpu.regs.cpsr.getLsbD i = m.cpu.regs.cpsr.getLsbD i
  fetchKind : m'.cpu.fetchKind = m.cpu.fetchKind
  interrupts : m'.cpu.interrupts = m.cpu.interrupts
  halted : m'.cpu.halted = m.cpu.halted
  timestamp : m'.cpu.timestamp = m.cpu.timestamp
  exceptionBase : m'.cpu.exceptionBase = m.cpu.exceptionBase
  system : m'.system = m.system
  journal : m'.journal = m.journal

namespace Machine

theorem recode_self : m.recode m.cpu.isThumb m.cpu.regs.pc = m :=
  congrArg (fun f : Registers => m.mapRegs fun _ => { f with pc := m.cpu.regs.pc })
    (m.cpu.regs.setFlag_self .thumb)

theorem recode_isThumb (t : Bool) (pc : Word) : (m.recode t pc).cpu.isThumb = t :=
  (m.cpu.regs.flag_setFlag .thumb .thumb t).trans (if_pos rfl)

theorem recode_sameButCode (t : Bool) (pc : Word) : m.SameButCode (m.recode t pc) where
  cells := rfl
  saved := rfl
  mode := rfl
  cpsr i h := (m.cpu.regs.getLsbD_setFlag .thumb t i).trans (if_neg h)
  fetchKind := rfl
  interrupts := rfl
  halted := rfl
  timestamp := rfl
  exceptionBase := rfl
  system := rfl
  journal := rfl

theorem SameButCode.eq_recode {m m' : Machine σ} (h : m.SameButCode m') :
    m' = m.recode m'.cpu.isThumb m'.cpu.regs.pc := by
  have status : m'.cpu.regs.cpsr = (m.cpu.regs.setFlag .thumb m'.cpu.isThumb).cpsr := by
    apply BitVec.eq_of_getLsbD_eq
    intro i hi
    rw [Registers.getLsbD_setFlag]
    split_ifs with h5
    · rw [h5]
      rfl
    · exact h.cpsr i h5
  obtain ⟨⟨⟨_, _, pc, _, _⟩, _, _, _, _, _⟩, _, _⟩ := m'
  obtain ⟨rfl, rfl, rfl, -, rfl, rfl, rfl, rfl, rfl, rfl, rfl⟩ := h
  exact congrArg (fun w => m.mapRegs fun f => { f with pc := pc, cpsr := w }) status

end Machine

/-- For every halfword of data processing there is an ARM word, always executed and setting flags, that
does the same on both architectures: from machines alike but for the program counter and the instruction
set both end, without a fault, in machines that are again alike. Neither jumps. -/
theorem Thumb.refines_arm {h : Halfword} (hf : IsDataProcessing h) {m m' : Machine σ}
    (alike : m.SameButCode m') :
    Arm.condition (counterpart h).word = Condition.always ∧
    (counterpart h).word.getLsbD 20 = true ∧
    (∀ v5, Arm.decode v5 (counterpart h).word = (counterpart h).instruction) ∧
    ∃ n n', execute bus h m = .ok () n ∧ Arm.execute bus (counterpart h).word m' = .ok () n' ∧
      n.SameButCode n' ∧
      n.cpu.regs.pc = m.cpu.regs.pc ∧ n.cpu.isThumb = m.cpu.isThumb ∧
      n'.cpu.regs.pc = m'.cpu.regs.pc ∧ n'.cpu.isThumb = m'.cpu.isThumb := by
  obtain ⟨f, run, blind⟩ := execute_blind bus hf
  have arm : Arm.execute bus (counterpart h).word m' = .ok () (f m') :=
    (execute_counterpart bus m' hf).symm.trans (run m')
  -- A machine recoded to what it has is itself, so the program counter and the instruction set stay.
  have own : ∀ m, f m = (f m).recode m.cpu.isThumb m.cpu.regs.pc := fun m =>
    (congrArg f m.recode_self.symm).trans (blind m _ _)
  have pc : ∀ m, (f m).cpu.regs.pc = m.cpu.regs.pc := fun m =>
    congrArg (·.cpu.regs.pc) (own m)
  have thumb : ∀ m, (f m).cpu.isThumb = m.cpu.isThumb := fun m =>
    (congrArg (·.cpu.isThumb) (own m)).trans (Machine.recode_isThumb ..)
  have pair : (f m).SameButCode (f m') := by
    rw [alike.eq_recode, blind]
    exact Machine.recode_sameButCode ..
  exact ⟨Arm.FlagSetting.condition_word _, Arm.FlagSetting.getLsbD_word _, (Arm.FlagSetting.decode_word · _),
    f m, f m', run m, arm, pair, pc m, thumb m, pc m', thumb m'⟩

/-- A machine about to multiply, with a negative number in r1 and the carry set. -/
def multiplying : Machine FlatMemory where
  cpu := (Processor.powerOn .v4).mapRegs fun f =>
    let f := f.write (Thumb.register 0x4348 0).wide 3
    let f := f.write (Thumb.register 0x4348 3).wide 0xFFFFFFFE
    (f.setFlag .carry true).setFlag .thumb true
  system := { ram := ⟨#[]⟩ }
  journal := #[]

/-- `MUL r0, r1` in THUMB code is `MULS r0, r1, r0` in ARM code. The older architecture clears the carry. -/
theorem Thumb.refines_arm_multiplying :
    IsDataProcessing 0x4348 ∧ (counterpart 0x4348).word = 0xE0100091 ∧
    multiplying.SameButCode (multiplying.recode false 0x8008) ∧
    ∃ n n', execute (FlatMemory.evenBus .v4) 0x4348 multiplying = .ok () n ∧
      Arm.execute (FlatMemory.evenBus .v4) 0xE0100091 (multiplying.recode false 0x8008) = .ok () n' ∧
      n.SameButCode n' ∧ n'.reg 0 = 0xFFFFFFFA ∧ n'.flag .negative = true ∧ n'.flag .carry = false ∧
      n'.cpu.timestamp = 1 := by
  have hf : IsDataProcessing 0x4348 := by decide
  have alike := multiplying.recode_sameButCode false 0x8008
  have word : (counterpart 0x4348).word = 0xE0100091 := by decide
  obtain ⟨-, -, -, n, n', run, arm, same, -⟩ := Thumb.refines_arm (FlatMemory.evenBus .v4) hf alike
  rw [word] at arm
  refine ⟨hf, word, alike, n, n', run, arm, same, ?_⟩
  have hn : n' = (Arm.execute (FlatMemory.evenBus .v4) 0xE0100091).final
      (multiplying.recode false 0x8008) := by
    rw [Exec.final, arm]
  rw [hn]
  decide

end Lockstep
