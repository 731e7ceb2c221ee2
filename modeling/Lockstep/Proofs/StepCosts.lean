import Lockstep.Proofs.InstructionCosts

/-!
What a step costs. The clock of a processor advances by the answers to its waits and by the internal cycles of
its instruction, and by nothing else; and each access to data comes right after the one wait for it.
-/

namespace Lockstep

variable {σ τ : Type} (bus : Bus σ)

def Bus.cyclesIn (f : Registers) (thumb : Bool) (inst : Word) : Nat :=
  if thumb then (Thumb.decode bus.isV5 (inst.setWidth 16)).internalCycles f
  else if Arm.executes bus.isV5 f inst then (Arm.decode bus.isV5 inst).internalCycles f
  else 0

/-- Whether a word does not execute because its condition fails. -/
def Bus.skips (f : Registers) (thumb : Bool) (inst : Word) : Bool :=
  if thumb then
    match Thumb.decode bus.isV5 (inst.setWidth 16) with
    | .branchIf c _ => !f.satisfies c
    | _ => false
  else !Arm.executes bus.isV5 f inst

theorem Bus.cyclesIn_of_skips {f : Registers} {thumb : Bool} {inst : Word} (h : bus.skips f thumb inst = true) :
    bus.cyclesIn f thumb inst = 0 := by
  unfold skips at h
  unfold cyclesIn
  cases thumb with
  | true =>
    simp only [if_true] at h ⊢
    split at h
    · next c distance decoded => rw [decoded]; rfl
    · cases h
  | false =>
    simp only [Bool.false_eq_true, if_false, Bool.not_eq_true'] at h ⊢
    rw [h]
    rfl

namespace Exec

theorem fetched_seen {φ : View σ τ} {bus : Bus σ} {bus' : Bus τ} (h : bus.Shows φ bus') (m : Machine σ) :
    fetched bus' (m.viewed φ) = seenWith φ (fetched bus m) := by
  simp only [fetched, Machine.viewed_cpu, h.fetch, seenWith, h.trace]

section
variable (m : Machine σ)

def nextCycles : Nat := bus.cyclesIn (fetched bus m).2.cpu.regs m.cpu.isThumb (fetched bus m).1

def nextSkipped : Bool := bus.skips (fetched bus m).2.cpu.regs m.cpu.isThumb (fetched bus m).1

theorem execute_of_skips {thumb : Bool} {inst : Word} (h : bus.skips m.cpu.regs thumb inst = true) :
    execute bus thumb inst m = .ok () m := by
  unfold Bus.skips at h
  unfold execute
  cases thumb with
  | true =>
    simp only [if_true] at h ⊢
    split at h
    · next c distance decoded =>
      rw [Thumb.execute, decoded]
      show EStateM.Result.ok () (Thumb.branchIf bus c distance m) = _
      rw [Thumb.branchIf, if_neg]
      simpa using h
    · cases h
  | false =>
    simp only [Bool.false_eq_true, if_false, Bool.not_eq_true'] at h ⊢
    rw [Arm.execute_eq, h]
    rfl

end

variable {bus} (h : bus.SparesClock) (m : Machine (σ × Transcript))
include h

theorem execute_spends {thumb : Bool} {inst : Word}
    (unhandled : ∀ n m₁, bus.callIn m.cpu.regs thumb inst = some n →
      bus.softwareCall n (m.seen Prod.fst) ≠ .ok true m₁) :
    Spends (execute bus.recorded thumb inst) m (bus.cyclesIn m.cpu.regs thumb inst) := by
  unfold Bus.callIn at unhandled
  unfold execute Bus.cyclesIn
  cases thumb with
  | true =>
    simp only [if_true] at unhandled ⊢
    refine Thumb.perform_spends h m _ fun n m₁ decoded => unhandled n m₁ ?_
    rw [show Thumb.decode bus.isV5 _ = _ from decoded]
  | false =>
    simp only [Bool.false_eq_true, if_false] at unhandled ⊢
    intro u m' run
    rw [Arm.execute_eq, ← bus.recorded_shows.isV5] at run
    split_ifs at run unhandled ⊢ with executed
    · refine Arm.perform_spends h m inst (fun c m₁ decoded => unhandled _ m₁ ?_) u m' run
      rw [show Arm.decode bus.isV5 _ = _ from decoded]
    · cases run
      exact .refl m

/-- A fetch waits for the instruction two places ahead of the one that it gets. -/
theorem fetched_records :
    ∃ n, (fetched bus.recorded m).2.system.2 = m.system.2 ++
        [.wait (Bus.fetchWidth m) (m.cpu.regs.pc + m.cpu.regs.instructionSize) m.cpu.fetchKind.asCode n,
          .get (Bus.fetchWidth m) m.cpu.nextAddress (fetched bus.recorded m).1] ∧
      (fetched bus.recorded m).2.cpu.timestamp = m.cpu.timestamp + n := by
  let size := m.cpu.regs.instructionSize
  let w := Bus.fetchWidth m
  let moved := (m.mapRegs fun f => { f with pc := f.pc + size }).seen Prod.fst
  let waited := bus.waitTime w (m.cpu.regs.pc + size) m.cpu.fetchKind.asCode moved
  have waits : waited.2.cpu.timestamp = m.cpu.timestamp := h.waitTime w _ _ moved
  have gets := h.get w (m.cpu.regs.pc + size - size * 2) ((waited.2.idle waited.1).setFetchKind .sequel)
  refine ⟨waited.1, ?_, ?_⟩
  · rw [← m.cpu.fetch_address]
    exact (congrArg Prod.snd (trace_system _ _ _ _)).trans (List.append_assoc ..)
  · refine (congrArg Processor.timestamp (trace_cpu _ _ _ _)).trans (gets.trans ?_)
    exact congrArg (· + waited.1) waits

/-- An instruction that is not skipped takes its waits and its cycles, and one that is skipped asks for nothing. -/
theorem execute_records {thumb : Bool} {inst : Word} {m' : Machine (σ × Transcript)}
    (unhandled : ∀ n m₁, bus.callIn m.cpu.regs thumb inst = some n →
      bus.softwareCall n (m.seen Prod.fst) ≠ .ok true m₁)
    (run : execute bus.recorded thumb inst m = .ok () m') :
    ∃ t : Transcript, m'.system.2 = m.system.2 ++ t ∧ t.Orderly ∧
      m'.cpu.timestamp = m.cpu.timestamp + t.waits + bus.cyclesIn m.cpu.regs thumb inst ∧
      (bus.skips m.cpu.regs thumb inst = true → t = []) := by
  obtain ⟨t, record, orderly, clock⟩ := execute_spends h m unhandled () m' run
  refine ⟨t, record, orderly, clock, fun skipped => ?_⟩
  rw [execute_of_skips bus.recorded m skipped] at run
  cases run
  exact List.self_eq_append_right.mp record

omit h in
/-- The clock of a processor that is awake advances by the answers to its waits and by the cycles of its
instruction. After the fetch the requests come in order, and a skipped instruction asks for no data. -/
theorem step_cost {m m' : Machine σ} (spares : bus.SparesClock) (awake : m.cpu.halted = false)
    (unhandled : ∀ n m₁, nextCall bus m = some n → bus.softwareCall n (fetched bus m).2 ≠ .ok true m₁)
    (run : step bus m = .ok () m') :
    ∃ (cycles : Nat) (rest : Transcript),
      let t : Transcript :=
        .wait (Bus.fetchWidth m) (m.cpu.regs.pc + m.cpu.regs.instructionSize) m.cpu.fetchKind.asCode cycles ::
          .get (Bus.fetchWidth m) m.cpu.nextAddress (fetched bus m).1 :: rest
      step bus.recorded (m.recording []) = .ok () (m'.recording t) ∧ rest.Orderly ∧
        m'.cpu.timestamp = m.cpu.timestamp + t.waits + nextCycles bus m ∧
        (nextSkipped bus m = true → nextCycles bus m = 0 ∧ ∀ r ∈ rest, r.isAccess = false) := by
  obtain ⟨t, recorded⟩ := (step_seen bus.recorded_shows).recording run
  have shown : fetched bus m = seenWith (.of Prod.fst) (fetched bus.recorded (m.recording [])) :=
    fetched_seen bus.recorded_shows (m.recording [])
  obtain ⟨cycles, fetch, fetchClock⟩ := fetched_records spares (m.recording [])
  obtain ⟨m₁, worked, settled⟩ := step_ok bus.recorded _ recorded
  rw [work_eq, show (m.recording []).cpu.halted = false from awake, if_neg Bool.false_ne_true,
    instruction_eq] at worked
  unfold nextCall at unhandled
  unfold nextCycles nextSkipped
  rw [shown] at unhandled ⊢
  simp only [seenWith, Machine.viewed_cpu] at unhandled ⊢
  obtain ⟨t₁, record₁, orderly₁, clock₁, skipped⟩ := execute_records spares _ unhandled worked
  obtain ⟨t₂, record₂, orderly₂, quiet, clock₂⟩ := spares.settle m₁
  rw [← settled] at record₂ clock₂
  have whole : t = [.wait (Bus.fetchWidth m) (m.cpu.regs.pc + m.cpu.regs.instructionSize)
      m.cpu.fetchKind.asCode cycles, .get (Bus.fetchWidth m) m.cpu.nextAddress (fetched bus.recorded
        (m.recording [])).1] ++ t₁ ++ t₂ := by
    rw [record₁, fetch] at record₂
    exact record₂
  refine ⟨cycles, t₁ ++ t₂, ?_, orderly₁.append orderly₂, ?_, fun skips => ?_⟩
  · rw [recorded, whole]
    rfl
  · have parts : Transcript.waits (t₁ ++ t₂) = t₁.waits + t₂.waits := Transcript.waits_append t₁ t₂
    simp only [Transcript.waits_cons, Request.cycles, parts]
    have clock : m'.cpu.timestamp = m₁.cpu.timestamp + t₂.waits := clock₂
    have start : (fetched bus.recorded (m.recording [])).2.cpu.timestamp = m.cpu.timestamp + cycles := fetchClock
    rw [clock, clock₁, start]
    omega
  · refine ⟨bus.cyclesIn_of_skips skips, ?_⟩
    rw [skipped skips]
    exact quiet

end Exec

/-- A machine with an interrupt to take, about to execute `LDMIA r0!, {r1, r2}`. -/
def loading : Machine FlatMemory where
  cpu := { Processor.powerOn .v4 with interrupts := { master := true, enabled := 1, requested := 1 } }.mapRegs
    fun f => { f with cpsr := 0x13 }
  system := { ram := ⟨#[0x06, 0x00, 0xB0, 0xE8]⟩ }
  journal := #[]

/-- One wait for the fetch, two for the words, two for the refill of the handler, and an internal cycle. -/
theorem step_cost_loading :
    ∃ (m' : Machine FlatMemory) (t : Transcript), Exec.step (FlatMemory.evenBus .v4) loading = .ok () m' ∧
      Exec.step (FlatMemory.evenBus .v4).recorded (loading.recording []) = .ok () (m'.recording t) ∧
      m'.cpu.timestamp = t.waits + 1 ∧ m'.cpu.timestamp = 6 := by
  have spares : (FlatMemory.evenBus .v4).SparesClock :=
    (FlatMemory.bus_keeps _ _).mono fun _ _ same => congrArg Processor.timestamp same
  have hs := Exec.eq_ok_of_succeeds (x := Exec.step (FlatMemory.evenBus .v4)) (m := loading) (by decide +kernel)
  have ordinary : Exec.nextCall (FlatMemory.evenBus .v4) loading = none := by decide +kernel
  have one : Exec.nextCycles (FlatMemory.evenBus .v4) loading = 1 := by decide +kernel
  obtain ⟨cycles, rest, run, -, clock, -⟩ := Exec.step_cost spares rfl
    (fun n m₁ asked => by rw [ordinary] at asked; cases asked) hs
  refine ⟨_, _, hs, run, ?_, by decide +kernel⟩
  rw [clock, one]
  exact congrArg (· + 1) (Nat.zero_add _)

end Lockstep
