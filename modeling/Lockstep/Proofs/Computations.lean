import Lockstep.Proofs.InstructionCosts

/-!
Instructions that only compute: that neither write the program counter, nor access data, nor take internal cycles. They
leave the pipeline as it is and ask for no time. A store of no registers is the one of them after which the next fetch
is out of sequence.
-/

namespace Lockstep

variable {σ : Type}

/-- Whether an instruction writes the program counter when it executes. A software interrupt does if the system does
not carry it out. -/
def Arm.Instruction.writesCounter (v5 : Bool) : Arm.Instruction → Bool
  | .branch .. | .branchThumb .. | .branchExchange .. => true
  | .dataProcessing op _ _ d _ => op.writes && d == Register.pc
  | .multiply _ _ d _ _ _ | .countLeadingZeros d _ | .saturating _ d _ _ | .statusRead d _ | .swap _ _ d _ =>
    d == Register.pc
  | .multiplyLong _ _ _ hi lo _ _ => hi == Register.pc || lo == Register.pc
  | .halfMultiply op d n _ _ _ _ => d == Register.pc || op == .smlal && n == Register.pc
  | .transfer kind n d _ i =>
    kind.isLoad && (d == Register.pc || kind == .loadDouble && d.next == Register.pc) ||
      i.writeback && (!kind.isLoad || n != d) && n == Register.pc
  | .blockTransfer load n list _ i =>
    load && list.getLsbD 15 || i.writeback && n == Register.pc || list == 0 && (n == Register.pc || load && !v5)
  | .statusWrite .. | .coprocessor .. | .softwareInterrupt _ | .undefined => false

def Arm.Instruction.accessesData (v5 : Bool) : Arm.Instruction → Bool
  | .transfer .. | .swap .. => true
  | .blockTransfer _ _ list _ _ => list != 0 || !v5
  | _ => false

def Arm.Instruction.storesNone : Arm.Instruction → Bool
  | .blockTransfer load _ list _ _ => !load && list == 0
  | _ => false

def Thumb.Instruction.writesCounter (v5 : Bool) (f : Registers) : Thumb.Instruction → Bool
  | .high op d _ => op != .cmp && d == Register.pc
  | .branchExchange .. | .branch _ | .longBranchSuffix .. => true
  | .branchIf c _ => f.satisfies c
  | .pop _ counter => counter
  | .transferMultiple load _ list => load && list == 0 && !v5
  | _ => false

def Thumb.Instruction.accessesData (v5 : Bool) : Thumb.Instruction → Bool
  | .loadRelative .. | .transferRegister .. | .transferImmediate .. | .transferStack .. => true
  | .push list more | .pop list more => list != 0 || more
  | .transferMultiple _ _ list => list != 0 || !v5
  | _ => false

def Thumb.Instruction.storesNone : Thumb.Instruction → Bool
  | .push list link => list == 0 && !link
  | .transferMultiple load _ list => !load && list == 0
  | _ => false

inductive Meaning where
  | thumb (i : Thumb.Instruction)
  | arm (i : Arm.Instruction)
  /-- The condition of the word fails. -/
  | nothing

namespace Meaning

def writesCounter (v5 : Bool) (f : Registers) : Meaning → Bool
  | .thumb i => i.writesCounter v5 f
  | .arm i => i.writesCounter v5
  | .nothing => false

def accessesData (v5 : Bool) : Meaning → Bool
  | .thumb i => i.accessesData v5
  | .arm i => i.accessesData v5
  | .nothing => false

def storesNone : Meaning → Bool
  | .thumb i => i.storesNone
  | .arm i => i.storesNone
  | .nothing => false

def nextKind (i : Meaning) : Access := if i.storesNone then .nonsequential else .sequel

end Meaning

def Bus.meaning (bus : Bus σ) (f : Registers) (thumb : Bool) (inst : Word) : Meaning :=
  if thumb then .thumb (Thumb.decode bus.isV5 (inst.setWidth 16))
  else if Arm.executes bus.isV5 f inst then .arm (Arm.decode bus.isV5 inst)
  else .nothing

namespace Registers

structure SamePlace (f f' : Registers) : Prop where
  pc : f'.pc = f.pc
  thumb : f'.isThumb = f.isThumb

theorem instructionSize_congr {f f' : Registers} (same : f'.isThumb = f.isThumb) :
    f'.instructionSize = f.instructionSize := by
  rw [instructionSize, same, instructionSize]

namespace SamePlace

variable {f g h : Registers}

theorem refl (f : Registers) : f.SamePlace f := ⟨rfl, rfl⟩

theorem trans (a : f.SamePlace g) (b : g.SamePlace h) : f.SamePlace h := ⟨b.pc.trans a.pc, b.thumb.trans a.thumb⟩

theorem setCell (f : Registers) (s : Slot) (v : Word) : f.SamePlace (f.setCell s v) := ⟨rfl, rfl⟩

theorem write (f : Registers) {r : Register} (v : Word) (h : r ≠ Register.pc) : f.SamePlace (f.write r v) := by
  obtain ⟨s, named⟩ := Option.ne_none_iff_exists'.1 (h ∘ (Mode.slot?_eq_none f.mode r).1)
  unfold Registers.write
  rw [named]
  exact setCell f s v

theorem setFlag (f : Registers) {x : Flag} (b : Bool) (h : x ≠ .thumb) : f.SamePlace (f.setFlag x b) where
  pc := rfl
  thumb := (f.flag_setFlag x .thumb b).trans (if_neg h.symm)

theorem setNZ (f : Registers) (set : Bool) (v : Word) : f.SamePlace (f.setNZ set v) := by
  cases set with
  | false => exact refl f
  | true => exact (setFlag f v.msb (by decide)).trans (setFlag _ (v == 0) (by decide))

theorem setNZC (f : Registers) (set : Bool) (v : Word) (c : Bool) : f.SamePlace (f.setNZC set v c) := by
  cases set with
  | false => exact refl f
  | true => exact (setNZ f true v).trans (setFlag _ c (by decide))

theorem setNZCV (f : Registers) (set : Bool) (s : Lockstep.Sum) : f.SamePlace (f.setNZCV set s) := by
  cases set with
  | false => exact refl f
  | true => exact (setNZC f true s.value s.carry).trans (setFlag _ s.overflow (by decide))

theorem setConditionFlags (f : Registers) (v : Word) : f.SamePlace (f.setConditionFlags v) where
  pc := rfl
  thumb := f.getLsbD_setConditionFlags v (by decide : Flag.thumb.position < 28)

theorem setSpsr (f : Registers) (v : Word) : f.SamePlace (f.setSpsr v) := by
  unfold Registers.setSpsr
  split_ifs
  · exact ⟨rfl, rfl⟩
  · exact refl f

/-- A status that keeps the instruction set. -/
theorem setCpsr {f : Registers} {v : Word} (kept : v.getLsbD 5 = f.isThumb) (h : f.setCpsr v = .ok g) :
    f.SamePlace g := by
  obtain ⟨k, -, rfl⟩ := f.setCpsr_ok h
  exact ⟨rfl, kept⟩

end SamePlace

end Registers

/-- Two machines in the same place, whose next fetch is of the same kind, and between which no time has passed. -/
structure Machine.SamePipeline (m m' : Machine σ) : Prop where
  place : m.cpu.regs.SamePlace m'.cpu.regs
  fetchKind : m'.cpu.fetchKind = m.cpu.fetchKind
  timestamp : m'.cpu.timestamp = m.cpu.timestamp

/-- A system whose calls for reading, waiting and the coprocessor leave the pipeline of the processor alone. -/
structure Bus.SparesPipeline (bus : Bus σ) : Prop extends bus.KeepsReading Machine.SamePipeline where
  controlRead : ∀ r m, Machine.SamePipeline m (bus.controlRead r m).2
  controlWrite : ∀ r v m, Machine.SamePipeline m (bus.controlWrite r v m).2

theorem Bus.fetchWidth_congr {τ : Type} {m : Machine σ} {m' : Machine τ} (same : m'.cpu.isThumb = m.cpu.isThumb) :
    fetchWidth m' = fetchWidth m := by
  rw [fetchWidth, same, fetchWidth]

def Request.isWait : Request → Bool
  | .wait .. => true
  | _ => false

def Transcript.timed (t : Transcript) : Transcript := t.filter Request.isWait

theorem Transcript.timed_append (s t : Transcript) : timed (s ++ t) = s.timed ++ t.timed := List.filter_append ..

/-- From one machine to another nothing was fetched and no time has passed; the next fetch will be of that kind. -/
structure Machine.Lingers (kind : Access) (m m' : Machine (σ × Transcript)) : Prop where
  place : m.cpu.regs.SamePlace m'.cpu.regs
  fetchKind : m'.cpu.fetchKind = kind
  timestamp : m'.cpu.timestamp = m.cpu.timestamp
  timed : m'.system.2.timed = m.system.2.timed

namespace Machine.Lingers

variable {k k' : Access} {m m₁ m₂ : Machine (σ × Transcript)}

theorem refl (m : Machine (σ × Transcript)) : m.Lingers m.cpu.fetchKind m := ⟨.refl _, rfl, rfl, rfl⟩

theorem trans (a : m.Lingers k m₁) (b : m₁.Lingers k' m₂) : m.Lingers k' m₂ :=
  ⟨a.place.trans b.place, b.fetchKind, b.timestamp.trans a.timestamp, b.timed.trans a.timed⟩

/-- What only changes registers computes. -/
theorem of_place {f : Registers → Registers} (h : m.cpu.regs.SamePlace (f m.cpu.regs)) :
    m.Lingers m.cpu.fetchKind (m.mapRegs f) :=
  ⟨h, rfl, rfl, rfl⟩

/-- Two computations in a row are one. -/
theorem next (a : m.Lingers m.cpu.fetchKind m₁) (b : m₁.Lingers m₁.cpu.fetchKind m₂) :
    m.Lingers m.cpu.fetchKind m₂ := by
  have h := a.trans b
  rwa [a.fetchKind] at h

theorem setFetchKind (a : m.Lingers k m₁) (k' : Access) : m.Lingers k' (m₁.setFetchKind k') :=
  ⟨a.place, rfl, a.timestamp, a.timed⟩

/-- A call of the system that is on record. -/
theorem noting {now : Machine σ} {r : Request} (h : (m.seen Prod.fst).SamePipeline now) (quiet : r.isWait = false) :
    m.Lingers m.cpu.fetchKind (m.noting now [r]) where
  place := h.place
  fetchKind := h.fetchKind
  timestamp := h.timestamp
  timed := by
    have none : Transcript.timed [r] = [] := List.filter_eq_nil_iff.2 fun x hx => by
      rw [List.mem_singleton.1 hx, quiet]
      exact Bool.false_ne_true
    refine (Transcript.timed_append ..).trans ?_
    rw [none, List.append_nil]

/-- So does keeping a result in a low register. -/
theorem setLow (a : m.Lingers m.cpu.fetchKind m₁) (d : LowRegister) (v : Word) :
    m.Lingers m.cpu.fetchKind (Thumb.setLow d v m₁) :=
  a.next (.of_place (.write _ v (Thumb.wide_ne_pc d)))

end Machine.Lingers

theorem multiplierCycles_ne_zero (v : Word) (signed : Bool) : multiplierCycles v signed ≠ 0 := by
  have some : ∀ p : Nat → Bool, ([1, 2, 3].find? p).getD 4 ≠ 0 := by
    intro p
    cases found : [1, 2, 3].find? p with
    | none => exact Nat.succ_ne_zero 3
    | some n =>
      rintro rfl
      exact absurd (List.mem_of_find?_eq_some found) (by decide)
  rw [multiplierCycles_eq]
  exact some _

variable {bus : Bus σ} (m : Machine (σ × Transcript))

theorem Bus.setReg_lingers {r : Register} (v : Word) (h : r ≠ Register.pc) :
    m.Lingers m.cpu.fetchKind (bus.recorded.setReg r v m) := by
  rw [Bus.setReg, if_neg h]
  exact .of_place (.write _ v h)

/-- On the newer architecture a transfer of no registers only moves its base. -/
theorem Bus.transferNone_lingers (v5 : bus.isV5 = true) {r : Register} (h : r ≠ Register.pc)
    (store up before : Bool) :
    m.Lingers m.cpu.fetchKind (bus.recorded.transferNone r store up before m) := by
  unfold Bus.transferNone
  simp only
  rw [if_pos (show bus.recorded.isV5 = true from v5)]
  exact Bus.setReg_lingers m _ h

/-- A software interrupt that the system carries out without touching the pipeline. -/
theorem softwareInterrupt_lingers {n : BitVec 8} {m₁ : Machine σ} {m' : Machine (σ × Transcript)}
    (carried : bus.softwareCall n (m.seen Prod.fst) = .ok true m₁) (same : (m.seen Prod.fst).SamePipeline m₁)
    (run : bus.recorded.softwareInterrupt n m = .ok () m') : m.Lingers m.cpu.fetchKind m' := by
  have recorded : bus.recorded.softwareCall n m = .ok true (m.noting m₁ [.softwareCall n]) := by
    unfold Bus.recorded
    simp only [carried]
  rw [Exec.softwareInterrupt_eq, recorded] at run
  cases run
  obtain ⟨place, fetchKind, timestamp, timed⟩ := Machine.Lingers.noting (r := .softwareCall n) same rfl
  exact ⟨place, fetchKind, timestamp, timed⟩

namespace Thumb

theorem setFlags_lingers (x : Lockstep.Sum) : m.Lingers m.cpu.fetchKind (setFlags x m) :=
  .of_place (.setNZCV _ true x)

theorem alu_lingers {op : AluOp} {d s : LowRegister}
    (cycles : (Instruction.alu op d s).internalCycles m.cpu.regs = 0) :
    m.Lingers m.cpu.fetchKind (alu bus.recorded op d s m) := by
  have flags : ∀ v, m.Lingers m.cpu.fetchKind (m.mapRegs (·.setNZ true v)) := fun v => .of_place (.setNZ _ true v)
  cases op with
  | and | eor | orr | bic | mvn => exact (flags _).setLow d _
  | adc | sbc | neg => exact (setFlags_lingers m _).setLow d _
  | tst => exact flags _
  | cmp | cmn => exact setFlags_lingers m _
  | lsl | lsr | asr | ror => cases cycles
  | mul => exact absurd cycles (multiplierCycles_ne_zero _ _)

theorem high_lingers {op : HighOp} {d : Register} (s : Register) (h : (op != .cmp && d == Register.pc) = false) :
    m.Lingers m.cpu.fetchKind (high bus.recorded op d s m) := by
  cases op with
  | cmp => exact setFlags_lingers m _
  | add | mov => exact Bus.setReg_lingers m _ (beq_eq_false_iff_ne.1 h)

/-- A THUMB instruction that neither writes the program counter, nor accesses data, nor takes internal cycles. -/
theorem perform_lingers (word : Halfword) {i : Instruction} {m' : Machine (σ × Transcript)}
    (counter : i.writesCounter bus.isV5 m.cpu.regs = false) (data : i.accessesData bus.isV5 = false)
    (cycles : i.internalCycles m.cpu.regs = 0)
    (call : ∀ n, i = .softwareInterrupt n →
      ∃ m₁, bus.softwareCall n (m.seen Prod.fst) = .ok true m₁ ∧ (m.seen Prod.fst).SamePipeline m₁)
    (run : perform bus.recorded word i m = .ok () m') :
    m.Lingers (if i.storesNone then .nonsequential else m.cpu.fetchKind) m' := by
  cases i with
  | shift kind d s amount =>
    cases run
    exact (Machine.Lingers.of_place (.setNZC _ true _ _)).setLow d _
  | addSub sub d s operand =>
    cases run
    exact (setFlags_lingers m _).setLow d _
  | immediate op d v =>
    cases run
    cases op with
    | mov => exact (Machine.Lingers.of_place (.setNZ _ true v)).setLow d v
    | cmp => exact setFlags_lingers m _
    | add | sub => exact (setFlags_lingers m _).setLow d _
  | alu op d s =>
    cases run
    exact alu_lingers m cycles
  | high op d s =>
    cases run
    exact high_lingers m s counter
  | loadAddress stack d offset =>
    cases run
    exact (Machine.Lingers.refl m).setLow d _
  | adjustStack distance | longBranchPrefix distance =>
    cases run
    exact .of_place (.setCell _ _ _)
  | push list link =>
    obtain ⟨none, rfl⟩ : list = 0 ∧ link = false := by
      simpa only [Instruction.accessesData, Bool.or_eq_false_iff, bne_eq_false_iff_eq] using data
    subst none
    cases run
    exact (Machine.Lingers.of_place (.setCell _ _ _)).setFetchKind .nonsequential
  | transferMultiple load base list =>
    obtain ⟨none, v5⟩ : list = 0 ∧ bus.isV5 = true := by
      simpa only [Instruction.accessesData, Bool.or_eq_false_iff, bne_eq_false_iff_eq, Bool.not_eq_false'] using data
    subst none
    cases load with
    | true => cases cycles
    | false =>
      cases run
      exact (Bus.transferNone_lingers m v5 (wide_ne_pc base) true true false).setFetchKind .nonsequential
  | branchIf c distance =>
    have fails : ¬ m.cpu.regs.satisfies c = true := Bool.eq_false_iff.1 counter
    cases run
    unfold branchIf
    rw [if_neg fails]
    exact .refl m
  | softwareInterrupt n =>
    obtain ⟨m₁, carried, same⟩ := call n rfl
    exact softwareInterrupt_lingers m carried same run
  | branchExchange | branch | longBranchSuffix => cases counter
  | loadRelative | transferRegister | transferImmediate | transferStack => cases data
  | pop => cases cycles
  | undefined => cases run

end Thumb

namespace Arm

theorem apply_samePlace (op : AluOp) (f : Registers) (set : Bool) (a b : Word) (c s : Bool) :
    f.SamePlace (op.apply f set a b c s).2 := by
  cases op with
  | and | eor | tst | teq | orr | mov | bic | mvn => exact .setNZC f set _ _
  | sub | rsb | add | adc | sbc | rsc | cmp | cmn => exact .setNZCV f set _

theorem processData_lingers {op : AluOp} {set : Bool} {n d : Register} {operand : Operand}
    {m' : Machine (σ × Transcript)} (counter : (op.writes && d == Register.pc) = false)
    (cycles : (Instruction.dataProcessing op set n d operand).internalCycles m.cpu.regs = 0)
    (run : processData bus.recorded op set n d operand m = .ok () m') : m.Lingers m.cpu.fetchKind m' := by
  have ordinary : (set && d == Register.pc && op.writes) = false := by
    rw [Bool.and_assoc, Bool.and_comm (d == Register.pc), counter, Bool.and_false]
  have unmoved : (fetchOperands n operand m).2 = m := by
    match operand with
    | .immediate .. | .shifted _ _ (.immediate _) => rfl
    | .shifted _ _ (.register _) => cases cycles
  have finished : ∀ writes v (m : Machine (σ × Transcript)), finish bus.recorded false writes d v m =
      .ok () (if writes then bus.recorded.setReg d v m else m) := fun writes v m => by cases writes <;> rfl
  rw [processData_eq, ordinary] at run
  simp only [Exec.get_bind, Exec.modifyGet_bind, unmoved, finished] at run
  cases run
  have flags := Machine.Lingers.of_place (m := m) (f := fun _ => _) (apply_samePlace op m.cpu.regs
    (set && !false) (fetchOperands n operand m).1.1 (fetchOperands n operand m).1.2.value (m.flag .carry)
    (fetchOperands n operand m).1.2.carry)
  split_ifs with writes
  · rw [writes] at counter
    exact flags.next (Bus.setReg_lingers _ _ (beq_eq_false_iff_ne.1 counter))
  · exact flags

theorem halfMultiply_lingers {op : HalfMulOp} {d n : Register} (s r : Register) (top₁ top₂ : Bool)
    (counter : (Instruction.halfMultiply op d n s r top₁ top₂).writesCounter bus.isV5 = false)
    (cycles : (Instruction.halfMultiply op d n s r top₁ top₂).internalCycles m.cpu.regs = 0) :
    m.Lingers m.cpu.fetchKind (halfMultiply bus.recorded op d n s r top₁ top₂ m) := by
  have hd : d ≠ Register.pc := beq_eq_false_iff_ne.1 (Bool.or_eq_false_iff.1 counter).1
  have accumulated : ∀ product acc, m.Lingers m.cpu.fetchKind (accumulateHalf product acc m).2 := by
    intro product acc
    unfold accumulateHalf
    simp only
    split_ifs
    · exact .of_place (.setFlag _ true (by decide))
    · exact .refl m
  cases op with
  | smla => exact (accumulated _ _).next (Bus.setReg_lingers _ _ hd)
  | smlawOrSmulw =>
    cases top₁
    · exact (accumulated _ _).next (Bus.setReg_lingers _ _ hd)
    · exact Bus.setReg_lingers m _ hd
  | smlal => cases cycles
  | smul => exact Bus.setReg_lingers m _ hd

theorem saturating_lingers (op : SaturatingOp) {d : Register} (n r : Register) (h : d ≠ Register.pc) :
    m.Lingers m.cpu.fetchKind (saturating bus.recorded op d n r m) := by
  refine Machine.Lingers.next ?_ (Bus.setReg_lingers _ _ h)
  split_ifs
  · exact .of_place (.setFlag _ true (by decide))
  · exact .refl m

theorem setCpsr_lingers {v : Word} {m' : Machine (σ × Transcript)} (kept : v.getLsbD 5 = m.cpu.isThumb)
    (run : Exec.setCpsr v m = .ok () m') : m.Lingers m.cpu.fetchKind m' := by
  rw [Exec.setCpsr_eq] at run
  cases hf : m.cpu.regs.setCpsr v with
  | ok f =>
    rw [hf] at run
    cases run
    exact .of_place (.setCpsr kept hf)
  | error e =>
    rw [hf] at run
    cases run

theorem writeStatus_lingers {saved flags control : Bool} {source : StatusSource} {m' : Machine (σ × Transcript)}
    (run : writeStatus saved flags control source m = .ok () m') : m.Lingers m.cpu.fetchKind m' := by
  rw [writeStatus_eq, Exec.get_bind] at run
  cases saved with
  | true =>
    cases run
    exact .of_place (.setSpsr _ _)
  | false =>
    refine setCpsr_lingers m ?_ run
    exact (Bits.getLsbD_put _ _ _ _ (by decide)).trans (if_pos rfl)

theorem transferControl_lingers (h : bus.SparesPipeline) {inst : Word} {load : Bool} {number : Nat}
    {reg : ControlRegister} {d : Register} {m' : Machine (σ × Transcript)}
    (run : transferControl bus.recorded inst load number reg d m = .ok () m') : m.Lingers m.cpu.fetchKind m' := by
  unfold transferControl at run
  by_cases other : number ≠ 15
  · rw [if_pos other] at run
    cases run
  rw [if_neg other] at run
  cases load with
  | true =>
    have asked : m.Lingers m.cpu.fetchKind (bus.recorded.controlRead reg m).2 := .noting (h.controlRead reg _) rfl
    rw [if_pos rfl, Exec.modifyGet_bind] at run
    cases answer : (bus.recorded.controlRead reg m).1 with
    | none =>
      rw [answer] at run
      cases run
    | some v =>
      rw [answer] at run
      by_cases hd : d = Register.pc
      · simp only [hd, if_true] at run
        cases run
        exact asked.next (.of_place (.setConditionFlags _ v))
      · simp only [hd, if_false] at run
        cases run
        exact asked.next (Bus.setReg_lingers _ v hd)
  | false =>
    rw [if_neg Bool.false_ne_true, Exec.get_bind, Exec.modifyGet_bind] at run
    have asked : m.Lingers m.cpu.fetchKind (bus.recorded.controlWrite reg (m.regLate d) m).2 :=
      .noting (h.controlWrite reg _ _) rfl
    cases taken : (bus.recorded.controlWrite reg (m.regLate d) m).1 with
    | true =>
      rw [taken] at run
      cases run
      exact asked
    | false =>
      rw [taken] at run
      cases run

/-- On the newer architecture a store of no registers only moves its base. -/
theorem blockTransfer_lingers (v5 : bus.isV5 = true) {n : Register} {user : Bool} {i : Indexing}
    {m' : Machine (σ × Transcript)} (base : n ≠ Register.pc)
    (run : blockTransfer bus.recorded false n 0 user i m = .ok () m') : m.Lingers .nonsequential m' := by
  rw [blockTransfer_eq, Exec.get_bind, Exec.modifyGet_bind] at run
  cases run
  refine Machine.Lingers.setFetchKind (k := m.cpu.fetchKind) ?_ .nonsequential
  refine Machine.Lingers.next ?_ (Bus.transferNone_lingers _ v5 base _ _ _)
  split_ifs
  · exact Bus.setReg_lingers m _ base
  · exact .refl m

/-- An ARM instruction that neither writes the program counter, nor accesses data, nor takes internal cycles. -/
theorem perform_lingers (h : bus.SparesPipeline) (word : Word) {i : Instruction} {m' : Machine (σ × Transcript)}
    (counter : i.writesCounter bus.isV5 = false) (data : i.accessesData bus.isV5 = false)
    (cycles : i.internalCycles m.cpu.regs = 0)
    (call : ∀ c, i = .softwareInterrupt c → ∃ m₁,
      bus.softwareCall (c.extractLsb' 16 8) (m.seen Prod.fst) = .ok true m₁ ∧ (m.seen Prod.fst).SamePipeline m₁)
    (run : perform bus.recorded word i m = .ok () m') :
    m.Lingers (if i.storesNone then .nonsequential else m.cpu.fetchKind) m' := by
  cases i with
  | dataProcessing op set n d operand => exact processData_lingers m counter cycles run
  | halfMultiply op d n s r top₁ top₂ =>
    cases run
    exact halfMultiply_lingers m s r top₁ top₂ counter cycles
  | countLeadingZeros d r | statusRead d saved =>
    cases run
    exact Bus.setReg_lingers m _ (beq_eq_false_iff_ne.1 counter)
  | saturating op d n r =>
    cases run
    exact saturating_lingers m op n r (beq_eq_false_iff_ne.1 counter)
  | statusWrite saved flags control source => exact writeStatus_lingers m run
  | coprocessor load number opcode1 primary secondary opcode2 d => exact transferControl_lingers m h run
  | blockTransfer load n list user i =>
    obtain ⟨none, v5⟩ : list = 0 ∧ bus.isV5 = true := by
      simpa only [Instruction.accessesData, Bool.or_eq_false_iff, bne_eq_false_iff_eq, Bool.not_eq_false'] using data
    subst none
    cases load with
    | true => cases cycles
    | false =>
      have base : n ≠ Register.pc := by
        rintro rfl
        simp [Instruction.writesCounter] at counter
      exact blockTransfer_lingers m v5 base run
  | softwareInterrupt c =>
    obtain ⟨m₁, carried, same⟩ := call c rfl
    exact softwareInterrupt_lingers m carried same run
  | multiply | multiplyLong => exact absurd (Nat.add_eq_zero_iff.1 cycles).2 (multiplierCycles_ne_zero _ _)
  | branch | branchThumb | branchExchange => cases counter
  | transfer | swap => cases data
  | undefined => cases run

end Arm

end Lockstep
