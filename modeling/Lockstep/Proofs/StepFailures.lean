import Lockstep.Proofs.Failures

/-!
When a step fails, and what it has done by then. A processor that is awake fetches, and then fails exactly where the
instruction does that it has fetched.
-/

namespace Lockstep

variable {σ α : Type}

/-- The registers are those of before but for the program counter, which is past one more instruction, and
nothing else but the clock has changed. -/
structure Machine.Fetches (m now : Machine σ) : Prop where
  regs : now.cpu.regs = { m.cpu.regs with pc := m.cpu.regs.pc + m.cpu.regs.instructionSize }
  fetchKind : now.cpu.fetchKind = .sequel
  interrupts : now.cpu.interrupts = m.cpu.interrupts
  halted : now.cpu.halted = m.cpu.halted
  exceptionBase : now.cpu.exceptionBase = m.cpu.exceptionBase
  system : now.system = m.system

namespace Exec

variable (bus : Bus σ) (m : Machine σ)

/-- The ARM instruction that comes next, if one is executed. -/
def nextArm : Option Arm.Instruction :=
  let (inst, now) := fetched bus m
  if !m.cpu.isThumb && Arm.executes bus.isV5 now.cpu.regs inst then some (Arm.decode bus.isV5 inst) else none

/-- Whether the processor does not implement the instruction that comes next. One that its condition skips does
not matter. -/
def Unimplemented : Prop :=
  m.cpu.isThumb = true ∧ Thumb.decode bus.isV5 ((fetched bus m).1.setWidth 16) = .undefined ∨
    ∃ i, nextArm bus m = some i ∧ i.Unimplemented bus (fetched bus m).2

def nextStatus : Option Word := (nextArm bus m).bind (·.status? bus (fetched bus m).2)

variable {bus m}

theorem fetched_fetches (h : bus.Discreet)
    (fetches : ∀ m', (bus.get (Bus.fetchWidth m) m.cpu.nextAddress m').2 = m') : m.Fetches (fetched bus m).2 := by
  let size := m.cpu.regs.instructionSize
  let moved := m.mapRegs fun f => { f with pc := f.pc + size }
  let n := (bus.waitTime (Bus.fetchWidth m) (m.cpu.regs.pc + size) m.cpu.fetchKind.asCode moved).1
  have got : (bus.fetch m).2 = (moved.idle n).setFetchKind .sequel := by
    have waited := h.waitTime (Bus.fetchWidth m) (m.cpu.regs.pc + size) m.cpu.fetchKind.asCode moved
    rw [← m.cpu.fetch_address] at fetches
    refine (fetches _).trans ?_
    exact congrArg (fun m : Machine σ => (m.idle n).setFetchKind .sequel) waited
  have cpu : (fetched bus m).2.cpu = ((moved.idle n).setFetchKind .sequel).cpu :=
    (trace_cpu ..).trans (congrArg Machine.cpu got)
  have system : (fetched bus m).2.system = (bus.fetch m).2.system := trace_system ..
  exact ⟨by rw [cpu]; rfl, by rw [cpu]; rfl, by rw [cpu]; rfl, by rw [cpu]; rfl, by rw [cpu]; rfl,
    by rw [system, got]; rfl⟩

/-- A fetched halfword has nothing above its lower half. -/
theorem fetched_thumb (thumb : m.cpu.isThumb = true) :
    ((fetched bus m).1.setWidth 16).setWidth 32 = (fetched bus m).1 := by
  have half : Bus.fetchWidth m = .half := if_pos thumb
  have truncated : ∀ v : Word, ((Width.half.truncate v).setWidth 16).setWidth 32 = Width.half.truncate v := by
    intro v
    refine BitVec.eq_of_toNat_eq ?_
    simp only [Width.truncate, BitVec.toNat_setWidth]
    omega
  unfold fetched Bus.fetch Bus.load
  simp only [half]
  exact truncated _

variable (fetches : m.Fetches (fetched bus m).2)
include fetches

theorem fetched_isThumb : (fetched bus m).2.cpu.isThumb = m.cpu.isThumb := by
  rw [Processor.isThumb, fetches.regs]
  rfl

theorem fetched_currentAddress : (fetched bus m).2.cpu.currentAddress = m.cpu.nextAddress := by
  have size : (fetched bus m).2.cpu.regs.instructionSize = m.cpu.regs.instructionSize := by
    rw [fetches.regs]
    rfl
  rw [Processor.currentAddress, Processor.nextAddress, size, fetches.regs]
  exact m.cpu.fetch_address

omit fetches in
theorem softwareInterrupt_error {n : BitVec 8} {now m' : Machine σ} {e : Fault} :
    bus.softwareInterrupt n now = .error e m' ↔ bus.softwareCall n now = .error e m' := by
  rw [softwareInterrupt_eq]
  cases bus.softwareCall n now with
  | error e m₁ => simp
  | ok b m₁ => cases b <;> simp

omit fetches in
/-- A step of a processor that is awake fails where its instruction does. -/
theorem step_error_iff (awake : m.cpu.halted = false) {e : Fault} {m' : Machine σ} :
    step bus m = .error e m' ↔
      execute bus m.cpu.isThumb (fetched bus m).1 (fetched bus m).2 = .error e m' := by
  rw [step_eq, work_eq, awake, if_neg Bool.false_ne_true, instruction_eq]
  cases execute bus m.cpu.isThumb (fetched bus m).1 (fetched bus m).2 with
  | ok _ m₁ => simp
  | error e m₁ => simp

omit fetches in
theorem nextArm_eq {i : Arm.Instruction} (next : nextArm bus m = some i) :
    m.cpu.isThumb = false ∧ Arm.executes bus.isV5 (fetched bus m).2.cpu.regs (fetched bus m).1 = true ∧
      i = Arm.decode bus.isV5 (fetched bus m).1 := by
  unfold nextArm at next
  simp only at next
  split_ifs at next with executed
  cases next
  simp only [Bool.and_eq_true, Bool.not_eq_true'] at executed
  exact ⟨executed.1, executed.2, rfl⟩

omit fetches in
theorem execute_arm {i : Arm.Instruction} (next : nextArm bus m = some i) :
    execute bus m.cpu.isThumb (fetched bus m).1 (fetched bus m).2 =
      Arm.perform bus (fetched bus m).1 i (fetched bus m).2 := by
  obtain ⟨arm, executed, rfl⟩ := nextArm_eq next
  rw [arm]
  exact (Arm.execute_eq ..).trans (if_pos executed)

omit fetches in
theorem nextCall_arm {c : BitVec 24} (next : nextArm bus m = some (.softwareInterrupt c)) :
    nextCall bus m = some (c.extractLsb' 16 8) := by
  obtain ⟨arm, executed, decoded⟩ := nextArm_eq next
  unfold nextCall Bus.callIn
  rw [arm, if_neg Bool.false_ne_true, if_pos executed, ← decoded]

omit fetches in
/-- Without an ARM instruction to execute, only a THUMB instruction can fail. -/
theorem execute_fault (none : nextArm bus m = none) (call : nextCall bus m = Option.none)
    (present : ¬ Unimplemented bus m) :
    (execute bus m.cpu.isThumb (fetched bus m).1).fault (fetched bus m).2 = Option.none := by
  unfold nextArm at none
  unfold nextCall Bus.callIn at call
  unfold execute
  cases thumb : m.cpu.isThumb with
  | true =>
    rw [thumb, if_pos rfl] at call
    refine Thumb.perform_fault bus _ _ (fun undefined => present (.inl ⟨thumb, undefined⟩)) fun n decoded => ?_
    rw [decoded] at call
    cases call
  | false =>
    simp only [thumb, Bool.not_false, Bool.true_and] at none
    split_ifs at none with skipped
    refine fault_of_ok ((Arm.execute_eq ..).trans (if_neg skipped))

/-- The fault of an instruction that is not implemented tells the word, where it was and what it was. -/
theorem fetched_unsupported :
    (fetched bus m).2.cpu.unsupported (fetched bus m).1 =
      .unsupported (fetched bus m).1 m.cpu.nextAddress m.cpu.isThumb := by
  rw [Processor.unsupported, fetched_currentAddress fetches, fetched_isThumb fetches]

theorem execute_unimplemented (h : bus.Discreet) (absent : Unimplemented bus m) :
    execute bus m.cpu.isThumb (fetched bus m).1 (fetched bus m).2 =
      .error (.unsupported (fetched bus m).1 m.cpu.nextAddress m.cpu.isThumb) (fetched bus m).2 := by
  rw [← fetched_unsupported fetches]
  rcases absent with ⟨thumb, undefined⟩ | ⟨i, next, absent⟩
  · have run : Thumb.perform bus ((fetched bus m).1.setWidth 16) .undefined (fetched bus m).2 =
        .error ((fetched bus m).2.cpu.unsupported (((fetched bus m).1.setWidth 16).setWidth 32))
          (fetched bus m).2 := rfl
    rw [thumb]
    show Thumb.perform bus _ (Thumb.decode bus.isV5 _) _ = _
    rw [undefined, run, fetched_thumb thumb]
  · rw [execute_arm next]
    exact Arm.perform_unimplemented bus _ h _ absent

/-- What ends a step: a missing instruction, a refused status, or the system. -/
theorem execute_error (h : bus.Discreet) (valid : (Mode.ofStatus? m.cpu.regs.cpsr).isSome) {e : Fault}
    {m' : Machine σ} (failed : execute bus m.cpu.isThumb (fetched bus m).1 (fetched bus m).2 = .error e m') :
    (Unimplemented bus m ∧ e = .unsupported (fetched bus m).1 m.cpu.nextAddress m.cpu.isThumb ∧
      m' = (fetched bus m).2) ∨
    (∃ v, nextStatus bus m = some v ∧ Mode.ofStatus? v = none ∧ e = .invalidMode (v &&& 0x1F)) ∨
    ∃ n reason, nextCall bus m = some n ∧ e = .invalidState reason ∧
      bus.softwareCall n (fetched bus m).2 = .error e m' := by
  by_cases present : Unimplemented bus m
  · rw [execute_unimplemented fetches h present] at failed
    cases failed
    exact .inl ⟨present, rfl, rfl⟩
  cases call : nextCall bus m with
  | some n =>
    rw [execute_call bus _ call, softwareInterrupt_error] at failed
    obtain ⟨reason, refusal⟩ := h.softwareCall _ _ _ _ failed
    exact .inr (.inr ⟨n, reason, rfl, refusal, failed⟩)
  | none =>
    refine .inr (.inl ?_)
    cases next : nextArm bus m with
    | none => cases (fault_of_error failed).symm.trans (execute_fault next call present)
    | some i =>
      rw [execute_arm next] at failed
      have ordinary : ∀ c, i ≠ .softwareInterrupt c := by
        rintro c rfl
        cases call.symm.trans (nextCall_arm next)
      have valid : (Mode.ofStatus? (fetched bus m).2.cpu.regs.cpsr).isSome := by
        rw [fetches.regs]
        exact valid
      have refused := (fault_of_error failed).symm.trans
        (Arm.perform_fault bus _ h _ (fun absent => present (.inr ⟨i, next, absent⟩)) ordinary valid)
      obtain ⟨v, status, refusal⟩ := Option.bind_eq_some_iff.mp refused.symm
      refine ⟨v, ?_, Mode.refusal?_eq_some.mp refusal⟩
      rw [nextStatus, next]
      exact status

/-- The converse: a status that names no mode is refused, and the system's refusals end the step. -/
theorem execute_refused (h : bus.Discreet) (valid : (Mode.ofStatus? m.cpu.regs.cpsr).isSome) {v : Word}
    (status : nextStatus bus m = some v) (unnamed : Mode.ofStatus? v = none) :
    ∃ m', execute bus m.cpu.isThumb (fetched bus m).1 (fetched bus m).2 =
      .error (.invalidMode (v &&& 0x1F)) m' := by
  obtain ⟨i, next, status⟩ := Option.bind_eq_some_iff.mp status
  have ordinary : ∀ c, i ≠ .softwareInterrupt c := by
    rintro c rfl
    cases status
  have present : ¬ i.Unimplemented bus (fetched bus m).2 := by
    intro absent
    cases i with
    | undefined | coprocessor => cases status
    | _ => cases absent
  have valid : (Mode.ofStatus? (fetched bus m).2.cpu.regs.cpsr).isSome := by
    rw [fetches.regs]
    exact valid
  have refused := Arm.perform_fault bus _ h (fetched bus m).1 present ordinary valid
  rw [status, Option.bind_some, Mode.refusal?_eq_some.mpr ⟨unnamed, rfl⟩] at refused
  rw [execute_arm next]
  unfold fault at refused
  split at refused
  · cases refused
  · next e m' failed =>
    cases refused
    exact ⟨m', failed⟩

omit fetches in
/-- When the step of an awake processor fails, how, and what it has done by then. -/
theorem step_failures (h : bus.Discreet)
    (fetches : ∀ m', (bus.get (Bus.fetchWidth m) m.cpu.nextAddress m').2 = m') (awake : m.cpu.halted = false)
    (valid : (Mode.ofStatus? m.cpu.regs.cpsr).isSome) :
    (∀ inst a thumb m', step bus m = .error (.unsupported inst a thumb) m' ↔
      Unimplemented bus m ∧ inst = (fetched bus m).1 ∧ a = m.cpu.nextAddress ∧ thumb = m.cpu.isThumb ∧
        m' = (fetched bus m).2) ∧
    (∀ bits, (∃ m', step bus m = .error (.invalidMode bits) m') ↔
      ∃ v, nextStatus bus m = some v ∧ Mode.ofStatus? v = none ∧ bits = v &&& 0x1F) ∧
    (∀ bits m' i, step bus m = .error (.invalidMode bits) m' → nextArm bus m = some i →
      i.isBlockTransfer = false →
      m' = if i.shiftsByRegister then (fetched bus m).2.mapCpu (·.idleNonsequential) else (fetched bus m).2) ∧
    (∀ reason m', step bus m = .error (.invalidState reason) m' ↔
      ∃ n, nextCall bus m = some n ∧ bus.softwareCall n (fetched bus m).2 = .error (.invalidState reason) m') ∧
    m.Fetches (fetched bus m).2 := by
  have fetches := fetched_fetches h fetches
  simp only [step_error_iff awake]
  refine ⟨fun inst a thumb m' => ⟨fun failed => ?_, ?_⟩, fun bits => ⟨?_, ?_⟩, fun bits m' i failed next single => ?_,
    fun reason m' => ⟨fun failed => ?_, ?_⟩, fetches⟩
  · rcases execute_error fetches h valid failed with ⟨absent, told, rfl⟩ | ⟨v, -, -, told⟩ | ⟨n, reason, -, told, -⟩ <;>
      cases told
    exact ⟨absent, rfl, rfl, rfl, rfl⟩
  · rintro ⟨absent, rfl, rfl, rfl, rfl⟩
    exact execute_unimplemented fetches h absent
  · rintro ⟨m', failed⟩
    rcases execute_error fetches h valid failed with
      ⟨-, told, -⟩ | ⟨v, status, unnamed, told⟩ | ⟨n, reason, -, told, -⟩ <;> cases told
    exact ⟨v, status, unnamed, rfl⟩
  · rintro ⟨v, status, unnamed, rfl⟩
    exact execute_refused fetches h valid status unnamed
  · rw [execute_arm next] at failed
    exact Arm.perform_refused bus _ h failed single
  · rcases execute_error fetches h valid failed with
      ⟨-, told, -⟩ | ⟨v, -, -, told⟩ | ⟨n, reason, call, told, refused⟩ <;> cases told
    exact ⟨n, call, refused⟩
  · rintro ⟨n, call, refused⟩
    rw [execute_call bus _ call]
    exact softwareInterrupt_error.mpr refused

end Exec

def constantBus (a : Architecture) (v : Word) : Bus Unit where
  architecture := a
  get _ _ m := (v, m)
  set _ _ _ m := m
  waitTime _ _ _ m := (1, m)

/-- A machine in interrupt mode with a saved status register that names no mode. -/
def returning : Machine Unit where
  cpu := (Processor.powerOn .v5).mapRegs fun f => { f with cpsr := 0x92, mode := .irq }
  system := ()
  journal := #[]

/-- `MOVS pc, r1, LSL r2` is refused, after the cycle for the amount of the shift. -/
theorem step_failures_returning :
    ∃ m', Exec.step (constantBus .v5 0xE1B0F211) returning = .error (.invalidMode 0) m' ∧
      m'.cpu.regs = { returning.cpu.regs with pc := returning.cpu.regs.pc + 4 } ∧ m'.cpu.timestamp = 2 := by
  have discreet : (constantBus .v5 0xE1B0F211).Discreet :=
    ⟨fun _ _ _ _ => rfl, fun _ _ _ => rfl, fun _ _ _ _ => rfl, fun _ _ _ _ failed => by cases failed⟩
  obtain ⟨-, refused, frame, -, fetches⟩ :=
    Exec.step_failures (m := returning) discreet (fun _ => rfl) (by decide +kernel) (by decide +kernel)
  obtain ⟨m', failed⟩ := (refused 0).mpr ⟨0, by decide +kernel, by decide +kernel, by decide +kernel⟩
  have before := frame 0 m' _ failed (show Exec.nextArm (constantBus .v5 0xE1B0F211) returning = some
    (.dataProcessing .mov true 0 15 (.shifted 1 .lsl (.register 2))) by decide +kernel) rfl
  refine ⟨m', failed, ?_, ?_⟩
  · rw [before]
    exact fetches.regs
  · rw [before]
    decide +kernel

end Lockstep
