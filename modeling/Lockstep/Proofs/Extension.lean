import Lockstep.Proofs.Kinds
import Lockstep.Proofs.StepCosts

/-!
The newer architecture extends the older one. A word means the same on both or is undefined on the older one, but
for the branches under the condition that never holds; and of the words under that condition the older architecture
executes none.
-/

namespace Lockstep

variable {σ β : Type}

namespace Arm

def Instruction.isExtension : Instruction → Bool
  | .halfMultiply .. | .countLeadingZeros .. | .saturating .. | .coprocessor .. => true
  | .branchExchange link _ => link
  | .transfer kind .. => kind == .loadDouble || kind == .storeDouble
  | _ => false

def BranchesNever (w : Word) : Prop := condition w = Condition.never ∧ w.extractLsb' 25 3 = 0b101

variable (w : Word)

theorem classOf_branch : classOf w = .branch ↔ w.extractLsb' 25 3 = 0b101 := by
  constructor
  · intro branch
    by_cases never : condition w = Condition.never
    · exact (Kind.fits_of_kind? (k := .branchThumb) (by rw [branch, Class.kind?, if_pos never])).1
    · exact (Kind.fits_of_kind? (k := .branch) (by rw [branch, Class.kind?, if_neg never])).1
  · intro bits
    have kind : (classOf w).kind? w = some .branch ∨ (classOf w).kind? w = some .branchThumb := by
      by_cases never : condition w = Condition.never
      · exact .inr (Kind.kind?_of_fits ⟨bits, never⟩)
      · exact .inl (Kind.kind?_of_fits ⟨bits, never⟩)
    revert kind
    cases classOf w <;> unfold Class.kind? <;> (try split_ifs) <;> simp

/-- On the older architecture double words are not transferred. -/
theorem halfTransferKind?_older :
    halfTransferKind? false w =
      (halfTransferKind? true w).filter fun kind => !(kind == .loadDouble || kind == .storeDouble) := by
  unfold halfTransferKind?
  split <;> rfl

theorem transferKind_single : (transferKind w == .loadDouble || transferKind w == .storeDouble) = false := by
  unfold transferKind
  split <;> rfl

theorem decode_branch (branch : w.extractLsb' 25 3 = 0b101) :
    decode false w = .branch (w.getLsbD 24) (branchDistance w) ∧
      decode true w =
        if condition w = Condition.never then .branchThumb (branchDistance w + if w.getLsbD 24 then 2 else 0)
        else .branch (w.getLsbD 24) (branchDistance w) := by
  rw [decode, decode, (classOf_branch w).mpr branch]
  simp only [Bool.false_and, Bool.false_eq_true, if_false, Bool.true_and, beq_iff_eq, true_and]

/-- What a word means on the older architecture. -/
theorem decode_older (other : ¬ BranchesNever w) :
    decode false w = if (decode true w).isExtension then .undefined else decode true w := by
  by_cases branch : w.extractLsb' 25 3 = 0b101
  · obtain ⟨older, newer⟩ := decode_branch w branch
    rw [older, newer, if_neg fun never => other ⟨never, branch⟩]
    rfl
  · rw [← classOf_branch] at branch
    unfold decode
    cases cls : classOf w with
    | branch => exact absurd cls branch
    | branchExchange =>
      by_cases ones : w.extractLsb' 8 12 = 0xFFF
      · cases w.getLsbD 5 <;> simp [ones, Instruction.isExtension]
      · have other : (w.extractLsb' 8 12 != 0xFFF) = true := bne_iff_ne.mpr ones
        simp only [other, Bool.true_or]
        rfl
    | halfTransfer =>
      simp only [halfTransferKind?_older]
      cases halfTransferKind? true w with
      | none => rfl
      | some kind => cases kind <;> rfl
    | transferImmediate | transferRegister =>
      simp only [Instruction.isExtension, transferKind_single, Bool.false_eq_true, if_false]
    | _ => rfl

/-- Where a word means something else on the older architecture, it is because of an instruction that this does not
have. -/
theorem decode_older_cases (other : ¬ BranchesNever w) :
    (decode false w = decode true w ∨ decode false w = .undefined) ∧
      (decode false w = .undefined ∧ decode true w ≠ .undefined ↔ (decode true w).isExtension = true) := by
  rw [decode_older w other]
  by_cases extension : (decode true w).isExtension = true
  · rw [if_pos extension]
    refine ⟨.inr rfl, fun _ => extension, fun _ => ⟨rfl, fun none => ?_⟩⟩
    rw [none] at extension
    cases extension
  · rw [if_neg extension]
    exact ⟨.inl rfl, fun both => absurd both.1 both.2, fun holds => absurd holds extension⟩

end Arm

/-- Reading and waiting leave the processor alone, and what `view` shows of the system. -/
def Bus.ReadsApart (bus : Bus σ) (view : σ → β) : Prop :=
  bus.KeepsReading fun m m' => m'.cpu = m.cpu ∧ view m'.system = view m.system

namespace Exec

variable {bus : Bus σ} {view : σ → β} {m : Machine σ}

/-- What a fetch does to a processor that the system leaves alone. -/
theorem fetched_apart (apart : bus.ReadsApart view) (m : Machine σ) :
    ∃ cycles, (fetched bus m).2.cpu = { m.cpu with
        regs := { m.cpu.regs with pc := m.cpu.regs.pc + m.cpu.regs.instructionSize }
        timestamp := m.cpu.timestamp + cycles
        fetchKind := .sequel } ∧
      view (fetched bus m).2.system = view m.system := by
  let size := m.cpu.regs.instructionSize
  let w := Bus.fetchWidth m
  let moved := m.mapRegs fun f => { f with pc := f.pc + size }
  let waited := bus.waitTime w (m.cpu.regs.pc + size) m.cpu.fetchKind.asCode moved
  obtain ⟨waits, waitsView⟩ := apart.waitTime w (m.cpu.regs.pc + size) m.cpu.fetchKind.asCode moved
  obtain ⟨gets, getsView⟩ := apart.get w (m.cpu.regs.pc + size - size * 2)
    ((waited.2.idle waited.1).setFetchKind .sequel)
  refine ⟨waited.1, ?_, ?_⟩
  · rw [fetched, trace_cpu]
    refine gets.trans ?_
    show ({ waited.2.cpu.idle waited.1 with fetchKind := .sequel } : Processor) = _
    rw [waits]
    rfl
  · rw [fetched, trace_system]
    exact getsView.trans waitsView

/-- The older architecture executes nothing under the condition that never holds. -/
theorem step_never (older : bus.architecture = .v4) (awake : m.cpu.halted = false) (arm : m.cpu.isThumb = false)
    (never : Arm.condition (fetched bus m).1 = Condition.never) (calm : (fetched bus m).2.cpu.serviceable = false) :
    step bus m = .ok () (fetched bus m).2 := by
  have skipped : bus.skips (fetched bus m).2.cpu.regs false (fetched bus m).1 = true := by
    rw [Bus.skips, if_neg Bool.false_ne_true, Arm.executes, if_pos never, Bus.isV5, older]
    rfl
  rw [step_eq, work_eq, awake, if_neg Bool.false_ne_true, instruction_eq, arm, execute_of_skips bus _ skipped]
  exact congrArg (EStateM.Result.ok ()) (settle_of_unserviceable bus _ calm)

end Exec

/-- On the older architecture each word means what it means on the newer one, unless that is an instruction of the
extension, and then it is undefined; only the branches under the condition that never holds mean different
instructions. A step that meets a word under that condition does nothing beyond fetching it on the older
architecture, and so changes only the program counter, the clock and the kind of the next fetch. -/
theorem older_without_extension :
    (∀ w, ¬ Arm.BranchesNever w →
      (Arm.decode false w = Arm.decode true w ∨ Arm.decode false w = .undefined) ∧
      (Arm.decode false w = .undefined ∧ Arm.decode true w ≠ .undefined ↔
        (Arm.decode true w).isExtension = true)) ∧
    (∀ w, Arm.BranchesNever w →
      (∃ link distance, Arm.decode false w = .branch link distance) ∧
      ∃ distance, Arm.decode true w = .branchThumb distance) ∧
    ∀ {σ β : Type} (bus : Bus σ) (view : σ → β) (m : Machine σ), bus.architecture = .v4 →
      m.cpu.halted = false → m.cpu.isThumb = false →
      Arm.condition (Exec.fetched bus m).1 = Condition.never →
      let m' := (Exec.fetched bus m).2
      (m'.cpu.serviceable = false → Exec.step bus m = .ok () m') ∧
      (bus.ReadsApart view → m.cpu.serviceable = false →
        Exec.step bus m = .ok () m' ∧ view m'.system = view m.system ∧
        ∃ cycles, m'.cpu = { m.cpu with
          regs := { m.cpu.regs with pc := m.cpu.regs.pc + 4 }
          timestamp := m.cpu.timestamp + cycles
          fetchKind := .sequel }) := by
  refine ⟨Arm.decode_older_cases, fun w never => ?_, fun bus view m older awake arm never => ?_⟩
  · obtain ⟨older, newer⟩ := Arm.decode_branch w never.2
    rw [if_pos never.1] at newer
    exact ⟨⟨_, _, older⟩, _, newer⟩
  · refine ⟨Exec.step_never older awake arm never, fun apart calm => ?_⟩
    obtain ⟨cycles, fetched, shown⟩ := Exec.fetched_apart apart m
    have still : (Exec.fetched bus m).2.cpu.serviceable = false := by
      rw [fetched]
      exact calm
    have size : m.cpu.regs.instructionSize = 4 := Registers.instructionSize_of_clear arm
    rw [size] at fetched
    exact ⟨Exec.step_never older awake arm never still, shown, cycles, fetched⟩

/-- About to meet the word that is a linking branch into THUMB code on the newer architecture. -/
def reading : Machine FlatMemory where
  cpu := (Processor.powerOn .v4).mapRegs fun f => { f with pc := 4 }
  system := { ram := ⟨#[0x00, 0x00, 0x00, 0xFB]⟩ }
  journal := #[]

/-- The older architecture knows no `CLZ`, and it passes over `BLX` as if nothing was there. -/
theorem reading_passes_over :
    Arm.decode false 0xE16F0F11 = .undefined ∧ Arm.decode true 0xE16F0F11 ≠ .undefined ∧
    (∃ distance, Arm.decode true 0xFB000000 = .branchThumb distance) ∧
    ∃ m' cycles, Exec.step (FlatMemory.evenBus .v4) reading = .ok () m' ∧ m'.system.ram = reading.system.ram ∧
      m'.cpu = { reading.cpu with
        regs := { reading.cpu.regs with pc := 8 }, timestamp := cycles, fetchKind := .sequel } := by
  obtain ⟨kept, branches, passes⟩ := older_without_extension
  have other : ¬ Arm.BranchesNever 0xE16F0F11 := fun never => absurd never.1 (by decide)
  have undefined := (kept 0xE16F0F11 other).2.mpr (by decide)
  have apart : (FlatMemory.evenBus .v4).ReadsApart FlatMemory.ram :=
    ⟨fun _ _ _ => ⟨rfl, rfl⟩, fun _ _ _ _ => ⟨rfl, rfl⟩⟩
  have never : Arm.condition (Exec.fetched (FlatMemory.evenBus .v4) reading).1 = Condition.never := by decide +kernel
  obtain ⟨run, ram, cycles, cpu⟩ :=
    (passes (FlatMemory.evenBus .v4) FlatMemory.ram reading rfl rfl (by decide) never).2 apart (by decide)
  refine ⟨undefined.1, undefined.2, (branches 0xFB000000 ⟨by decide, by decide⟩).2, _, cycles, run, ram, ?_⟩
  rw [cpu]
  have start : reading.cpu.timestamp = 0 := rfl
  rw [start, Nat.zero_add]
  rfl

end Lockstep
