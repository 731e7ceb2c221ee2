import Lockstep.Proofs.Frame

/-!
When an instruction fails: because there is no such instruction, because a status register would name no mode, or
because the system refuses a software interrupt. The first does nothing before it fails, and the second next to
nothing, except where it loads registers first.
-/

namespace Lockstep

variable {σ α β : Type}

def Mode.refusal? (psr : Word) : Option Fault :=
  if (ofStatus? psr).isSome then none else some (.invalidMode (psr &&& 0x1F))

theorem Mode.refusal?_eq_some {psr : Word} {e : Fault} :
    refusal? psr = some e ↔ ofStatus? psr = none ∧ e = .invalidMode (psr &&& 0x1F) := by
  unfold refusal?
  cases ofStatus? psr with
  | none => simp [eq_comm]
  | some k => simp

theorem Mode.refusal?_congr {a b : Word} (h : ∀ i < 5, a.getLsbD i = b.getLsbD i) : refusal? a = refusal? b := by
  have masked : a &&& 0x1F = b &&& 0x1F := by
    refine BitVec.eq_of_getLsbD_eq fun i hi => ?_
    by_cases low : i < 5
    · simp [h i low]
    · have clear : (0x1F#32).getLsbD i = false := by
        have bound : (0x1F#32).toNat < 2 ^ i := Nat.lt_of_lt_of_le (by decide)
          (Nat.pow_le_pow_right (by decide) (Nat.le_of_not_lt low))
        exact Nat.testBit_lt_two_pow bound
      simp [clear]
  rw [refusal?, refusal?, ofStatus?_congr h, masked]

def Exec.fault (x : Exec σ α) (m : Machine σ) : Option Fault :=
  match x m with
  | .ok .. => none
  | .error e _ => some e

namespace Exec

variable (m : Machine σ)

theorem fault_modifyGet_bind (f : Machine σ → β × Machine σ) (g : β → Exec σ α) :
    (modifyGet f >>= g : Exec σ α).fault m = (g (f m).1).fault (f m).2 := rfl

theorem fault_modify_bind (f : Machine σ → Machine σ) (g : Unit → Exec σ α) :
    (modify f >>= g).fault m = (g ()).fault (f m) := rfl

theorem fault_get_bind (g : Machine σ → Exec σ α) : (get >>= g : Exec σ α).fault m = (g m).fault m := rfl

theorem fault_of_ok {x : Exec σ α} {m m' : Machine σ} {a : α} (h : x m = .ok a m') : x.fault m = none := by
  rw [fault, h]

theorem fault_of_error {x : Exec σ α} {m m' : Machine σ} {e : Fault} (h : x m = .error e m') :
    x.fault m = some e := by
  rw [fault, h]

theorem fault_setCpsr (v : Word) : (setCpsr v : Exec σ Unit).fault m = Mode.refusal? v := by
  rw [fault, setCpsr_eq, Registers.setCpsr, Mode.refusal?]
  cases Mode.ofStatus? v <;> rfl

/-- Where nothing can go wrong afterwards. -/
theorem fault_bind {x : Exec σ β} {f : β → Exec σ α} (safe : ∀ b m', (f b).fault m' = none) :
    (x >>= f).fault m = x.fault m := by
  unfold fault
  show (match EStateM.bind x f m with | .ok .. => none | .error e _ => some e) = _
  unfold EStateM.bind
  cases x m with
  | ok b m' => exact safe b m'
  | error e m' => rfl

theorem fault_setCpsr_bind (v : Word) {f : Unit → Exec σ α} (safe : ∀ m', (f ()).fault m' = none) :
    (setCpsr v >>= f).fault m = Mode.refusal? v :=
  (fault_bind m fun _ => safe).trans (fault_setCpsr m v)

theorem setCpsr_error {v : Word} {e : Fault} {m m' : Machine σ} (failed : setCpsr v m = .error e m') : m' = m := by
  rw [setCpsr_eq] at failed
  split at failed <;> cases failed
  rfl

/-- Where nothing can go wrong afterwards, only the change of status itself can have failed. -/
theorem setCpsr_bind_error {v : Word} {e : Fault} {m m' : Machine σ} {f : Unit → Exec σ α}
    (safe : ∀ u m', (f u).fault m' = none) (failed : (setCpsr v >>= f) m = .error e m') : m' = m := by
  change EStateM.bind _ _ m = _ at failed
  unfold EStateM.bind at failed
  split at failed
  · cases (fault_of_error failed).symm.trans (safe _ _)
  · next hs => cases failed; exact setCpsr_error hs

/-- A change of status that a condition can skip, and what comes after it. -/
theorem fault_restoring (c : Bool) (v : Word) {f : Unit → Exec σ α} (safe : ∀ m', (f ()).fault m' = none) :
    (if c then setCpsr v >>= f else f ()).fault m = if c then Mode.refusal? v else none := by
  cases c with
  | false => exact safe m
  | true => exact fault_setCpsr_bind m v safe

end Exec

/-- A system whose waits and whose refusals leave the machine as it is, and which fails only for a reason of
its own. -/
structure Bus.Discreet (bus : Bus σ) : Prop where
  waitTime : bus.KeepsWaiting fun m m' => m' = m
  controlRead : ∀ r m, (bus.controlRead r m).1 = none → (bus.controlRead r m).2 = m
  controlWrite : ∀ r v m, (bus.controlWrite r v m).1 = false → (bus.controlWrite r v m).2 = m
  softwareCall : ∀ n m e m', bus.softwareCall n m = .error e m' → ∃ reason, e = .invalidState reason

namespace Bus.Discreet

variable {bus : Bus σ} (h : bus.Discreet)
include h

theorem jump_eq (a : Address) (m : Machine σ) : ∃ n, bus.jump a m = m.mapCpu fun p => { p with
    regs := { p.regs with pc := landing m.cpu.regs a + m.cpu.regs.instructionSize }
    timestamp := p.timestamp + n
    fetchKind := .sequel } := by
  obtain ⟨m', n, rfl, jumped⟩ := jump_keeps h.waitTime (fun same same' => same'.trans same) a m
  exact ⟨n, jumped⟩

/-- Writing a register changes neither the mode nor a status register. -/
theorem setReg_status (r : Register) (v : Word) (m : Machine σ) :
    (bus.setReg r v m).cpu.regs.mode = m.cpu.regs.mode ∧ (bus.setReg r v m).cpu.regs.spsr = m.cpu.regs.spsr := by
  unfold setReg
  split_ifs
  · obtain ⟨n, jumped⟩ := h.jump_eq v m
    rw [jumped]
    exact ⟨rfl, rfl⟩
  · show (m.cpu.regs.write r v).mode = _ ∧ (m.cpu.regs.write r v).spsr = _
    unfold Registers.write
    split
    · exact ⟨rfl, rfl⟩
    · exact ⟨rfl, rfl⟩

end Bus.Discreet

theorem Register.ofList_contains (list : BitVec 16) (r : Register) :
    (Register.ofList list).contains r = list.getLsbD r.val := by
  rw [Bool.eq_iff_iff, List.contains_iff_mem, Register.ofList, List.mem_filter]
  simp only [List.mem_finRange, true_and]

namespace Arm

/-- Whether a processor does not implement an instruction: it is undefined, or addresses a coprocessor that is
not there. -/
def Instruction.Unimplemented (bus : Bus σ) (m : Machine σ) : Instruction → Prop
  | .undefined => True
  | .coprocessor load number opcode1 primary secondary opcode2 d =>
    number ≠ 15 ∨
      if load then (bus.controlRead { opcode1, primary, secondary, opcode2 } m).1 = none
      else (bus.controlWrite { opcode1, primary, secondary, opcode2 } (m.regLate d) m).1 = false
  | _ => False

def StatusSource.value (f : Registers) : StatusSource → Word
  | .immediate v => v
  | .register r => f.read r

/-- The status register with its mode bits that an instruction is about to put in place. Only a saved status
register comes with a return from an exception, where the mode has one. -/
def Instruction.status? (bus : Bus σ) (m : Machine σ) : Instruction → Option Word
  | .statusWrite false _ true source =>
    if m.cpu.regs.mode.isPrivileged then some (source.value m.cpu.regs) else none
  | .dataProcessing op true _ d _ =>
    if op.writes && d == Register.pc && m.cpu.regs.mode.hasSaved then some m.cpu.regs.spsr else none
  | .blockTransfer true n list true i =>
    let addr := blockAddress (m.reg n) (Register.ofList list).length i
    let f := (loadEach bus false none (Register.ofList list) addr .nonsequential m).2.cpu.regs
    if list.getLsbD 15 && f.mode.hasSaved then some f.spsr else none
  | _ => none

section
variable (bus : Bus σ) (m : Machine σ)

theorem finish_fault (restores writes : Bool) (d : Register) (value : Word) :
    (finish bus restores writes d value).fault m =
      if restores && m.cpu.regs.mode.hasSaved then Mode.refusal? m.cpu.regs.spsr else none := by
  unfold finish
  rw [Exec.fault_get_bind]
  refine Exec.fault_restoring m _ _ fun m' => ?_
  cases writes <;> rfl

/-- An operation that returns from an exception leaves the registers as they are until then. -/
theorem apply_unset (op : AluOp) (f : Registers) (a b : Word) (c s : Bool) : (op.apply f false a b c s).2 = f := by
  cases op <;> rfl

theorem fetchOperands_regs (n : Register) (operand : Operand) :
    (fetchOperands n operand m).2.cpu.regs = m.cpu.regs := by
  cases operand with
  | immediate v c => rfl
  | shifted r kind amount => cases amount <;> rfl

theorem processData_fault (op : AluOp) (set : Bool) (n d : Register) (operand : Operand) :
    (processData bus op set n d operand).fault m =
      if set && d == Register.pc && op.writes && m.cpu.regs.mode.hasSaved then Mode.refusal? m.cpu.regs.spsr
      else none := by
  rw [processData_eq, Exec.fault_get_bind, Exec.fault_modifyGet_bind]
  simp only
  rw [Exec.fault_modifyGet_bind, finish_fault]
  cases restores : set && d == Register.pc && op.writes with
  | false => rfl
  | true =>
    simp only [Bool.not_true, Bool.and_false, apply_unset, Bool.true_and]
    show (if (fetchOperands n operand m).2.cpu.regs.mode.hasSaved = true then
      Mode.refusal? (fetchOperands n operand m).2.cpu.regs.spsr else none) = _
    rw [fetchOperands_regs]

/-- The mode bits come from the source if the control byte is written, and stay otherwise. -/
theorem getLsbD_status (f : Registers) (flags control thumb : Bool) (src psr : Word) {i : Nat} (hi : i < 5) :
    (Bits.put (replaced f flags control src psr) 5 thumb).getLsbD i =
      (if control && f.mode.isPrivileged then src else psr).getLsbD i := by
  have lower : (0x00FFFFFF#32).getLsbD i = true := by revert i; decide
  have upper : (0xFF000000#32).getLsbD i = false := by revert i; decide
  have others : (0xFFFFFF00#32).getLsbD i = false := by revert i; decide
  have byte : (0xFF#32).getLsbD i = true := by revert i; decide
  rw [Bits.getLsbD_put _ _ _ _ (by decide), if_neg (by omega), replaced]
  cases control && f.mode.isPrivileged <;> cases flags <;> simp [lower, upper, others, byte]

theorem writeStatus_value (saved flags control : Bool) (source : StatusSource) :
    (writeStatus saved flags control source : Exec σ Unit) m =
      let written (psr : Word) := replaced m.cpu.regs flags control (source.value m.cpu.regs) psr
      if saved then .ok () (m.mapRegs (·.setSpsr (written m.cpu.regs.spsr)))
      else Exec.setCpsr (Bits.put (written m.cpu.regs.cpsr) 5 m.cpu.regs.isThumb) m := by
  cases source <;> cases saved <;> rfl

theorem writeStatus_fault (saved flags control : Bool) (source : StatusSource)
    (valid : (Mode.ofStatus? m.cpu.regs.cpsr).isSome) :
    (writeStatus saved flags control source : Exec σ Unit).fault m =
      if !saved && control && m.cpu.regs.mode.isPrivileged then Mode.refusal? (source.value m.cpu.regs)
      else none := by
  cases saved with
  | true => rw [Exec.fault, writeStatus_value]; rfl
  | false =>
    have same : (writeStatus false flags control source : Exec σ Unit).fault m =
        (Exec.setCpsr (Bits.put (replaced m.cpu.regs flags control (source.value m.cpu.regs) m.cpu.regs.cpsr) 5
          m.cpu.regs.isThumb) : Exec σ Unit).fault m := by
      rw [Exec.fault, Exec.fault, writeStatus_value]
      rfl
    rw [same, Exec.fault_setCpsr, Mode.refusal?_congr fun i hi => getLsbD_status _ _ _ _ _ _ hi]
    simp only [Bool.not_false, Bool.true_and]
    split_ifs
    · rfl
    · exact if_pos valid

/-- Loading registers brings up a value for the program counter if it is among them. -/
theorem loadEach_pc (rs : List Register) (pc : Option Word) (a : Address) (k : Access) :
    (loadEach bus false pc rs a k m).1.isSome = (pc.isSome || rs.contains Register.pc) := by
  induction rs generalizing pc a k m with
  | nil => simp [loadEach]
  | cons r rs ih =>
    unfold loadEach
    simp only [Bool.false_eq_true, if_false]
    split_ifs with hr
    · rw [ih]
      simp [hr]
    · rw [ih]
      simp [Ne.symm hr]

theorem continueAt_fault (returns : Bool) (pc : Option Word) :
    (continueAt bus returns pc).fault m =
      if pc.isSome && returns && m.cpu.regs.mode.hasSaved then Mode.refusal? m.cpu.regs.spsr else none := by
  cases pc with
  | none => rfl
  | some target =>
    unfold continueAt
    rw [Exec.fault_get_bind, Option.isSome_some, Bool.true_and]
    simp only
    split_ifs
    · exact Exec.fault_setCpsr_bind m _ fun _ => rfl
    · rfl

theorem blockTransfer_fault (h : bus.Discreet) (load : Bool) (n : Register) (list : BitVec 16) (user : Bool)
    (i : Indexing) :
    (blockTransfer bus load n list user i).fault m =
      if load && user && list.getLsbD 15 then
        let addr := blockAddress (m.reg n) (Register.ofList list).length i
        let f := (loadEach bus false none (Register.ofList list) addr .nonsequential m).2.cpu.regs
        if f.mode.hasSaved then Mode.refusal? f.spsr else none
      else none := by
  -- Writing the base back does not change the mode.
  have kept : ∀ (c : Bool) v m, (if c then bus.setReg n v m else m).cpu.regs.mode = m.cpu.regs.mode ∧
      (if c then bus.setReg n v m else m).cpu.regs.spsr = m.cpu.regs.spsr := by
    intro c v m
    cases c
    · exact ⟨rfl, rfl⟩
    · exact h.setReg_status n v m
  rw [blockTransfer_eq, Exec.fault_get_bind]
  simp only
  rw [Exec.fault_modifyGet_bind, Exec.fault_modify_bind, Exec.fault_bind _ fun _ _ => rfl, continueAt_fault,
    (kept _ _ _).1, (kept _ _ _).2, Bool.and_comm user load]
  cases returns : load && user && list.getLsbD 15 with
  | false => simp
  | true =>
    obtain ⟨⟨rfl, rfl⟩, counter⟩ := by simpa using returns
    have moved : moveBlock bus true n list true i m = loadEach bus false none (Register.ofList list)
        (blockAddress (m.reg n) (Register.ofList list).length i) .nonsequential m := by
      simp [moveBlock, counter]
    have found := loadEach_pc bus m (Register.ofList list) none
      (blockAddress (m.reg n) (Register.ofList list).length i) .nonsequential
    rw [Register.ofList_contains, show list.getLsbD Register.pc.val = true from counter] at found
    rw [moved, found]
    rfl

theorem transferControl_unimplemented (h : bus.Discreet) (inst : Word) {load : Bool}
    {number opcode1 primary secondary opcode2 : Nat} {d : Register}
    (absent : (Instruction.coprocessor load number opcode1 primary secondary opcode2 d).Unimplemented bus m) :
    transferControl bus inst load number { opcode1, primary, secondary, opcode2 } d m =
      .error (m.cpu.unsupported inst) m := by
  unfold transferControl
  by_cases other : number ≠ 15
  · rw [if_pos other]
    rfl
  rw [if_neg other]
  have declined := absent.resolve_left other
  cases load with
  | true =>
    have same := h.controlRead _ m declined
    simp only [if_true] at declined ⊢
    rw [Exec.modifyGet_bind, declined, same]
    rfl
  | false =>
    have same := h.controlWrite _ _ m declined
    simp only [Bool.false_eq_true, if_false] at declined ⊢
    rw [Exec.get_bind, Exec.modifyGet_bind, declined, same]
    rfl

theorem transferControl_fault (inst : Word) {load : Bool}
    {number opcode1 primary secondary opcode2 : Nat} {d : Register}
    (present : ¬ (Instruction.coprocessor load number opcode1 primary secondary opcode2 d).Unimplemented bus m) :
    (transferControl bus inst load number { opcode1, primary, secondary, opcode2 } d).fault m = none := by
  have right : ¬ number ≠ 15 := fun other => present (.inl other)
  unfold transferControl
  rw [if_neg right]
  cases load with
  | true =>
    simp only [if_true]
    rw [Exec.fault_modifyGet_bind]
    cases answer : (bus.controlRead { opcode1, primary, secondary, opcode2 } m).1 with
    | none => exact absurd (.inr answer) present
    | some v => split_ifs <;> rfl
  | false =>
    simp only [Bool.false_eq_true, if_false]
    rw [Exec.fault_get_bind, Exec.fault_modifyGet_bind]
    cases answer : (bus.controlWrite { opcode1, primary, secondary, opcode2 } (m.regLate d) m).1 with
    | false => exact absurd (.inr answer) present
    | true => rfl

/-- An instruction that is not implemented does nothing but fail. -/
theorem perform_unimplemented (h : bus.Discreet) (word : Word) {i : Instruction} (absent : i.Unimplemented bus m) :
    perform bus word i m = .error (m.cpu.unsupported word) m := by
  cases i with
  | undefined => rfl
  | coprocessor load number o1 c1 c2 o2 d => exact transferControl_unimplemented bus m h word absent
  | _ => cases absent

/-- Any other instruction fails exactly if the status that it puts in place names no mode. -/
theorem perform_fault (h : bus.Discreet) (word : Word) {i : Instruction} (present : ¬ i.Unimplemented bus m)
    (ordinary : ∀ c, i ≠ .softwareInterrupt c) (valid : (Mode.ofStatus? m.cpu.regs.cpsr).isSome) :
    (perform bus word i).fault m = (i.status? bus m).bind Mode.refusal? := by
  cases i with
  | dataProcessing op set n d operand =>
    refine (processData_fault bus m op set n d operand).trans ?_
    cases set with
    | false => rfl
    | true =>
      simp only [Instruction.status?, Bool.true_and, Bool.and_comm (d == Register.pc)]
      split_ifs <;> rfl
  | statusWrite saved flags control source =>
    refine (writeStatus_fault m saved flags control source valid).trans ?_
    cases saved with
    | true => rfl
    | false =>
      cases control with
      | false => rfl
      | true =>
        simp only [Instruction.status?, Bool.not_false, Bool.true_and]
        split_ifs <;> rfl
  | blockTransfer load n list user i =>
    refine (blockTransfer_fault bus m h load n list user i).trans ?_
    cases load with
    | false => rfl
    | true =>
      cases user with
      | false => rfl
      | true =>
        simp only [Instruction.status?, Bool.true_and, Bool.and_eq_true]
        cases list.getLsbD 15 with
        | false => rfl
        | true =>
          simp only [if_true, true_and]
          split_ifs <;> rfl
  | coprocessor load number o1 c1 c2 o2 d => exact transferControl_fault bus m word present
  | softwareInterrupt c => exact absurd rfl (ordinary c)
  | undefined => exact absurd trivial present
  | _ => rfl

def Instruction.shiftsByRegister : Instruction → Bool
  | .dataProcessing _ _ _ _ (.shifted _ _ (.register _)) => true
  | _ => false

def Instruction.isBlockTransfer : Instruction → Bool
  | .blockTransfer .. => true
  | _ => false

theorem finish_error {restores writes : Bool} {d : Register} {value : Word} {e : Fault} {m' : Machine σ}
    (failed : finish bus restores writes d value m = .error e m') : restores = true ∧ m' = m := by
  have refused := (Exec.fault_of_error failed).symm.trans (finish_fault bus m restores writes d value)
  split_ifs at refused with h
  refine ⟨((Bool.and_eq_true ..).mp h).1, ?_⟩
  unfold finish at failed
  rw [Exec.get_bind] at failed
  simp only [h, if_true] at failed
  exact Exec.setCpsr_bind_error (fun _ _ => by cases writes <;> rfl) failed

theorem processData_error {op : AluOp} {set : Bool} {n d : Register} {operand : Operand} {e : Fault}
    {m' : Machine σ} (failed : processData bus op set n d operand m = .error e m') :
    m' = (fetchOperands n operand m).2 := by
  rw [processData_eq, Exec.get_bind, Exec.modifyGet_bind] at failed
  simp only at failed
  rw [Exec.modifyGet_bind] at failed
  obtain ⟨restores, rfl⟩ := finish_error bus _ failed
  simp only [restores, Bool.not_true, Bool.and_false, apply_unset]
  rfl

/-- A status is refused before the instruction has done anything, except for the cycle of a shift amount and for
the loads of a block transfer. -/
theorem perform_refused (h : bus.Discreet) {word bits : Word} {i : Instruction} {m' : Machine σ}
    (failed : perform bus word i m = .error (.invalidMode bits) m') (single : i.isBlockTransfer = false) :
    m' = if i.shiftsByRegister then m.mapCpu (·.idleNonsequential) else m := by
  by_cases present : i.Unimplemented bus m
  · rw [perform_unimplemented bus m h word present] at failed
    cases failed
  cases i with
  | dataProcessing op set n d operand =>
    rw [processData_error bus m failed]
    cases operand with
    | immediate v c => rfl
    | shifted r kind amount => cases amount <;> rfl
  | statusWrite saved flags control source =>
    change writeStatus saved flags control source m = _ at failed
    rw [writeStatus_value] at failed
    cases saved with
    | true => cases failed
    | false => exact Exec.setCpsr_error failed
  | blockTransfer load n list user i => cases single
  | coprocessor load number o1 c1 c2 o2 d =>
    cases (Exec.fault_of_error failed).symm.trans (transferControl_fault bus m word present)
  | softwareInterrupt c =>
    change bus.softwareInterrupt _ m = _ at failed
    rw [Exec.softwareInterrupt_eq] at failed
    split at failed
    · cases failed
    · cases failed
    · next e m₁ hs =>
      cases failed
      obtain ⟨reason, refusal⟩ := h.softwareCall _ _ _ _ hs
      cases refusal
  | undefined => exact absurd trivial present
  | _ => cases failed

end

end Arm

namespace Thumb

/-- A THUMB instruction fails only if it is undefined or a software interrupt. -/
theorem perform_fault (bus : Bus σ) (m : Machine σ) (word : Halfword) {i : Instruction} (defined : i ≠ .undefined)
    (ordinary : ∀ n, i ≠ .softwareInterrupt n) : (perform bus word i).fault m = none := by
  cases i with
  | softwareInterrupt n => exact absurd rfl (ordinary n)
  | undefined => exact absurd rfl defined
  | _ => rfl

end Thumb

end Lockstep
