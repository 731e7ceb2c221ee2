import Lockstep.Proofs.FirmwareCalls
import Lockstep.Proofs.InterruptEntry
import Lockstep.Proofs.InterruptReturn

/-!
Software calls. One that the system declines goes to a handler; a handler that at once executes `MOVS PC, LR`
goes on behind the call, and only the link register and the saved status register of Supervisor mode have
changed. One that the system carries out as firmware would answers in r0, r1 and r3 and enters no handler, unless
an interrupt comes up on the way: the fetch of the call and its own loads and stores can all bring one about.
-/

namespace Lockstep

variable {σ : Type} {bus inner : Bus σ} {m m₁ m' : Machine σ} {n : BitVec 8}

abbrev Registers.further (f : Registers) : Registers := { f with pc := f.pc + f.instructionSize }

/-- The next instruction is the one behind, where the instructions are of the same set. -/
theorem Processor.nextAddress_behind {p p' : Processor} (pc : p'.regs.pc = p.regs.pc + p.regs.instructionSize)
    (size : p'.regs.instructionSize = p.regs.instructionSize) :
    p'.nextAddress = p.nextAddress + p.regs.instructionSize := by
  rw [nextAddress, nextAddress, size, pc, BitVec.sub_add_cancel]
  exact BitVec.add_sub_cancel _ _

structure Machine.SameRegisters (m m' : Machine σ) : Prop where
  regs : m'.cpu.regs = m.cpu.regs
  exceptionBase : m'.cpu.exceptionBase = m.cpu.exceptionBase

theorem Machine.SameRegisters.trans {m₁ m₂ m₃ : Machine σ} (a : m₁.SameRegisters m₂) (b : m₂.SameRegisters m₃) :
    m₁.SameRegisters m₃ := ⟨b.regs.trans a.regs, b.exceptionBase.trans a.exceptionBase⟩

/-- Reading and waiting leave the registers alone, and so does declining a software call. -/
structure Bus.HandsOff (bus : Bus σ) : Prop where
  reading : bus.KeepsReading Machine.SameRegisters
  declining : ∀ {n m m'}, bus.softwareCall n m = .ok false m' → m.SameRegisters m'

structure Bus.AccessesApart (bus : Bus σ) : Prop where
  get : ∀ w a m, (bus.get w a m).2.cpu.regs = m.cpu.regs
  set : ∀ w a v m, (bus.set w a v m).cpu.regs = m.cpu.regs

namespace Bus.HandsOff

variable (h : bus.HandsOff)
include h

theorem jump (a : Address) (m : Machine σ) :
    (bus.jump a m).cpu.regs =
        { m.cpu.regs with pc := landing m.cpu.regs a + m.cpu.regs.instructionSize } ∧
      (bus.jump a m).cpu.exceptionBase = m.cpu.exceptionBase := by
  obtain ⟨m', n, same, hj⟩ := jump_keeps h.reading.waitTime Machine.SameRegisters.trans a m
  rw [hj, ← same.regs]
  exact ⟨rfl, same.exceptionBase⟩

theorem enter (kind : Exception) (a : Address) (m : Machine σ) :
    ∃ pc, (bus.enter kind a m).cpu.regs = { m.cpu.regs.entering kind a with pc } :=
  ⟨_, (h.jump (m.cpu.exceptionBase + kind.vector) (m.mapRegs (·.entering kind a))).1⟩

theorem fetched (m : Machine σ) :
    (Exec.fetched bus m).2.cpu.regs = m.cpu.regs.further ∧
      (Exec.fetched bus m).2.cpu.exceptionBase = m.cpu.exceptionBase := by
  have same := Exec.fetched_keeps h.reading Machine.SameRegisters.trans
    (fun same regs _ base _ => ⟨regs.trans same.regs, base.trans same.exceptionBase⟩) m
  exact ⟨same.regs, same.exceptionBase⟩

theorem sameAbove : bus.KeepsWaiting Machine.SameAbove := by
  intro w a k m
  rw [Machine.SameAbove, (h.reading.waitTime w a k m).regs]
  exact .refl _

end Bus.HandsOff

namespace Arm

theorem return_returns (bus : Bus σ) : Returns bus 0xE1B0F00E id where
  execute {m f} hs hf := by
    have decoded : ∀ v5, decode v5 0xE1B0F00E =
        .dataProcessing .mov true ⟨0, by decide⟩ Register.pc (.shifted Register.lr .lsl (.immediate 0)) := by
      decide
    rw [Arm.execute_eq, executes_always _ _ (by decide), if_pos rfl, decoded]
    show processData bus .mov true ⟨0, by decide⟩ Register.pc (.shifted Register.lr .lsl (.immediate 0)) m = _
    rw [processData_eq]
    exact finish_restores m.cpu.regs.lr hs hf

end Arm

namespace Exec

/-- Where a declined call enters its handler, the link register points behind it. -/
theorem Declines.work (hb : bus.HandsOff) (h : Declines bus m n m₁) :
    work bus m = .ok () (bus.enter .softwareInterrupt m.cpu.regs.pc m₁) ∧
      m₁.cpu.regs = m.cpu.regs.further ∧ m₁.cpu.exceptionBase = m.cpu.exceptionBase := by
  obtain ⟨regs, base⟩ := hb.fetched m
  have same := hb.declining h.2.2
  have regs₁ := same.regs.trans regs
  have behind : m₁.cpu.currentAddress + m₁.cpu.regs.instructionSize = m.cpu.regs.pc := by
    have size : m₁.cpu.regs.instructionSize = m.cpu.regs.instructionSize := by
      rw [regs₁]
      rfl
    rw [Processor.currentAddress, size, regs₁]
    show m.cpu.regs.pc + m.cpu.regs.instructionSize - m.cpu.regs.instructionSize * 2 + m.cpu.regs.instructionSize = _
    rw [Processor.fetch_address]
    exact BitVec.sub_add_cancel _ _
  refine ⟨?_, regs₁, same.exceptionBase.trans base⟩
  have call : bus.callIn (fetched bus m).2.cpu.regs m.cpu.isThumb (fetched bus m).1 = some n := h.2.1
  rw [← behind, work_eq, h.1, if_neg Bool.false_ne_true, instruction_eq, execute_call bus _ call,
    softwareInterrupt_eq, h.2.2]

/-- A declined call enters its handler, and then no interrupt is taken. -/
theorem Declines.step (hb : bus.HandsOff) (h : Declines bus m n m₁) :
    ∃ m', step bus m = .ok () m' ∧ entries bus m = [.softwareInterrupt] ∧
      m'.cpu.Vectors m.cpu.exceptionBase 0x08 ∧
      ∃ pc, m'.cpu.regs = { m.cpu.regs.entering .softwareInterrupt m.cpu.regs.pc with pc } := by
  obtain ⟨worked, regs₁, base₁⟩ := h.work hb
  have vectors := Bus.enter_vectors hb.sameAbove .softwareInterrupt m.cpu.regs.pc m₁
  obtain ⟨pc, entered⟩ := hb.enter .softwareInterrupt m.cpu.regs.pc m₁
  generalize bus.enter .softwareInterrupt m.cpu.regs.pc m₁ = m' at worked vectors entered
  have masked : m'.cpu.serviceable = false := by
    have disabled : m'.cpu.regs.flag .irqDisable = true := by
      rw [entered]
      exact m₁.cpu.regs.entering_irqDisable .softwareInterrupt m.cpu.regs.pc
    rw [Processor.serviceable, disabled, Bool.not_true, Bool.and_false, Bool.false_and]
  refine ⟨m', ?_, ?_, base₁ ▸ vectors, pc, ?_⟩
  · rw [step_eq, worked]
    exact congrArg (EStateM.Result.ok ()) (settle_of_unserviceable bus m' masked)
  · rw [entries_eq, worked]
    unfold taken
    simp only [h.called, masked, Bool.and_false, Bool.false_eq_true, if_false, List.append_nil]
  · rw [entered, regs₁, Registers.entering_withPc]

/-- A handler of software calls that returns at once goes on behind the call. -/
theorem return_works (hb : bus.HandsOff) (valid : Mode.ofStatus? m.cpu.regs.cpsr = some m.cpu.regs.mode)
    (aligned : m.cpu.regs.instructionSize.toNat ∣ m.cpu.regs.pc.toNat) {pc : Address}
    (hr : m'.cpu.regs = { m.cpu.regs.entering .softwareInterrupt m.cpu.regs.pc with pc })
    (hh : m'.cpu.halted = false) (hi : (bus.fetch m').1 = 0xE1B0F00E) :
    ∃ m'', work bus m' = .ok () m'' ∧
      m.cpu.regs.further.SameBut .supervisor m''.cpu.regs := by
  obtain ⟨thumb, hasSaved, lr, hf⟩ := Registers.entering_restores valid hr
  have works := work_returns (Arm.return_returns bus) (hb.fetched m').1 hh thumb hasSaved hi hf
  refine ⟨_, works, ?_⟩
  -- The link register is an instruction of the restored set, so the jump does not round it.
  have resumed : Bus.landing m.cpu.regs m.cpu.regs.pc = m.cpu.regs.pc :=
    Word.alignDown_eq_self m.cpu.regs.instructionSize_cases aligned
  have landed : Bus.landing m.cpu.regs m'.cpu.regs.lr + m.cpu.regs.instructionSize =
      m.cpu.regs.pc + m.cpu.regs.instructionSize := by
    rw [lr, resumed]
  rw [(hb.jump _ _).1]
  show Registers.SameBut .supervisor _ { m'.cpu.regs with
    pc := Bus.landing m.cpu.regs m'.cpu.regs.lr + m.cpu.regs.instructionSize
    cpsr := m.cpu.regs.cpsr
    mode := m.cpu.regs.mode }
  rw [landed, hr]
  exact Registers.entering_sameBut m.cpu.regs.further .softwareInterrupt m.cpu.regs.pc

end Exec

theorem Registers.SameButAnswers.instructionSize {f f' : Registers} (h : f.SameButAnswers f') :
    f'.instructionSize = f.instructionSize := by
  unfold Registers.instructionSize isThumb flag
  rw [h.cpsr]

theorem Firmware.call_answers (hi : inner.AccessesApart) (n : BitVec 8) (m : Machine σ) :
    m.cpu.regs.SameButAnswers ((Firmware.call inner n).final m).cpu.regs :=
  Firmware.call_keeps (fun w a m => .of_eq (hi.get w a m)) (fun w a v m => .of_eq (hi.set w a v m))
    (fun _ _ answers => answers.regs) .trans n m

namespace Exec

section
variable (hb : bus.HandsOff) (hi : inner.AccessesApart) (hn : n ∈ Firmware.known) (hh : m.cpu.halted = false)
  (next : nextCall bus m = some n) (offered : (fetched bus m).2.SameRegisters m₁)
  (call : bus.softwareCall n (fetched bus m).2 = Firmware.call inner n m₁)
include hb hi hn hh next offered call

/-- The first part of a step with a call that is carried out as firmware would. -/
theorem call_works :
    called bus m = [] ∧
      m.cpu.regs.further.SameButAnswers ((work bus).final m).cpu.regs ∧
      ((∃ m', work bus m = .ok () m') ∨ n = 0x09 ∧ Firmware.argument 1 m = 0 ∧
        ∃ m', work bus m = .error (.invalidState "BIOS division by zero") m') := by
  have regs := offered.regs.trans (hb.fetched m).1
  have answers := Firmware.call_answers hi n m₁
  have ends := Firmware.call_ends inner hn m₁
  have worked : work bus m = bus.softwareInterrupt n (fetched bus m).2 := by
    rw [work_eq, hh, if_neg Bool.false_ne_true, instruction_eq, execute_call bus _ next]
  have same : Firmware.argument 1 m₁ = Firmware.argument 1 m := by
    unfold Firmware.argument Machine.reg
    rw [regs]
    rfl
  unfold final at answers ⊢
  rw [← regs]
  rcases ends with ⟨m₂, ended⟩ | ⟨nine, zero, failed⟩
  · have carried : work bus m =
        .ok () (m₂.note .trace ("SWI 0x" ++ Text.hexPadded 2 n.toNat ++ " handled by system")) := by
      rw [worked, softwareInterrupt_eq, call, ended]
    rw [ended] at answers
    rw [carried]
    refine ⟨?_, answers, .inl ⟨_, rfl⟩⟩
    simp only [called, hh, next, call, ended, Bool.false_eq_true, if_false]
  · have fails : work bus m = .error (.invalidState "BIOS division by zero") m₁ := by
      rw [worked, softwareInterrupt_eq, call, failed]
    rw [failed] at answers
    rw [fails]
    refine ⟨?_, answers, .inr ⟨nine, same ▸ zero, _, rfl⟩⟩
    simp only [called, hh, next, call, failed, Bool.false_eq_true, if_false]

/-- A call that is carried out enters no handler, unless an interrupt can be serviced when it is done. -/
theorem call_carried (calm : ((work bus).final m).cpu.serviceable = false) :
    entries bus m = [] ∧
      m.cpu.regs.further.SameButAnswers ((step bus).final m).cpu.regs ∧
      ((∃ m', step bus m = .ok () m') ∨ n = 0x09 ∧ Firmware.argument 1 m = 0 ∧
        ∃ m', step bus m = .error (.invalidState "BIOS division by zero") m') := by
  obtain ⟨none, answers, ends⟩ := call_works hb hi hn hh next offered call
  unfold final at answers calm ⊢
  rw [entries_eq, step_eq, none]
  unfold taken
  rcases ends with ⟨m₂, ended⟩ | ⟨nine, zero, m₂, failed⟩
  · rw [ended] at answers calm ⊢
    simp only at answers calm ⊢
    rw [settle_of_unserviceable bus m₂ calm, calm]
    exact ⟨by simp, answers, .inl ⟨m₂, rfl⟩⟩
  · rw [failed] at answers ⊢
    exact ⟨rfl, answers, .inr ⟨nine, zero, m₂, rfl⟩⟩

end

/-- A declined call and its return change two registers of Supervisor mode; a call that is carried out changes
r0, r1 and r3. Either goes on behind the call, and enters no handler but the one that returns. -/
theorem software_calls (hb : bus.HandsOff) (valid : Mode.ofStatus? m.cpu.regs.cpsr = some m.cpu.regs.mode)
    (aligned : m.cpu.regs.instructionSize.toNat ∣ m.cpu.regs.pc.toNat) (running : m.cpu.halted = false)
    (next : nextCall bus m = some n) :
    (∀ m₁, bus.softwareCall n (fetched bus m).2 = .ok false m₁ →
      ∃ m', step bus m = .ok () m' ∧ entries bus m = [.softwareInterrupt] ∧
        m'.cpu.Vectors m.cpu.exceptionBase 0x08 ∧
        ∀ m'' : Machine σ, m''.cpu.regs = m'.cpu.regs → m''.cpu.halted = false →
          (bus.fetch m'').1 = 0xE1B0F00E → ((work bus).final m'').cpu.serviceable = false →
          ∃ r, step bus m'' = .ok () r ∧
            m.cpu.regs.further.SameBut .supervisor r.cpu.regs ∧
            r.cpu.nextAddress = m.cpu.nextAddress + m.cpu.regs.instructionSize) ∧
    ∀ (inner : Bus σ) (m₁ : Machine σ), inner.AccessesApart → n ∈ Firmware.known →
      (fetched bus m).2.SameRegisters m₁ → bus.softwareCall n (fetched bus m).2 = Firmware.call inner n m₁ →
      ((work bus).final m).cpu.serviceable = false →
      entries bus m = [] ∧
        m.cpu.regs.further.SameButAnswers ((step bus).final m).cpu.regs ∧
        ((step bus).final m).cpu.nextAddress = m.cpu.nextAddress + m.cpu.regs.instructionSize ∧
        ((∃ m', step bus m = .ok () m') ∨ n = 0x09 ∧ Firmware.argument 1 m = 0 ∧
          ∃ m', step bus m = .error (.invalidState "BIOS division by zero") m') := by
  refine ⟨fun m₁ declined => ?_, fun inner m₁ hi hn offered call calm => ?_⟩
  · obtain ⟨m', stepped, entered, vectors, pc, regs⟩ := Declines.step hb ⟨running, next, declined⟩
    refine ⟨m', stepped, entered, vectors, fun m'' same awake word calm => ?_⟩
    obtain ⟨r, worked, restored⟩ := return_works hb valid aligned (same.trans regs) awake word
    unfold final at calm
    rw [worked] at calm
    refine ⟨r, ?_, restored, Processor.nextAddress_behind restored.pc restored.instructionSize⟩
    rw [step_eq, worked]
    exact congrArg (EStateM.Result.ok ()) (settle_of_unserviceable bus r calm)
  · obtain ⟨none, answers, ends⟩ := call_carried hb hi hn running next offered call calm
    exact ⟨none, answers, Processor.nextAddress_behind answers.pc answers.instructionSize, ends⟩

end Exec

def FlatMemory.callingBus (calls : FlatMemory.Calls) : Bus FlatMemory :=
  FlatMemory.equippedBus .v4 (fun _ _ _ => 1) calls none false 1

theorem FlatMemory.callingBus_handsOff (calls : Calls) : (FlatMemory.callingBus calls).HandsOff where
  reading := ⟨fun _ _ _ => ⟨rfl, rfl⟩, fun _ _ _ _ => ⟨rfl, rfl⟩⟩
  declining {n m m'} h := by
    cases calls with
    | listed numbers =>
      injection h with _ kept
      rw [← kept]
      exact ⟨rfl, rfl⟩
    | firmware =>
      rw [Firmware.call_declines h]
      exact ⟨rfl, rfl⟩

theorem FlatMemory.bus_accessesApart (a : Architecture) (timing : Width → Address → Access → Nat) :
    (FlatMemory.bus a timing).AccessesApart := ⟨fun _ _ _ => rfl, fun _ _ _ _ => rfl⟩

/-- A program in User mode that calls for the square root of 49; a handler of the call returns at once. -/
def rooting : Machine FlatMemory where
  cpu := { Processor.powerOn .v4 with
    regs := { Registers.initial with
      cells := Registers.initial.cells.set 0 49, pc := 0x14, cpsr := 0x60000010, mode := .user } }
  system := { ram := ⟨#[0, 0, 0, 0, 0, 0, 0, 0, 0x0E, 0xF0, 0xB0, 0xE1, 0, 0, 0, 0,
    0, 0, 0x0D, 0xEF, 0, 0, 0, 0, 0, 0, 0, 0, 0, 0, 0, 0]⟩ }
  journal := #[]

theorem rooting_calls :
    (∃ m, Exec.step (FlatMemory.callingBus (.listed [])) rooting = .ok () m ∧ m.cpu.nextAddress = 8 ∧
      ∃ m', Exec.step (FlatMemory.callingBus (.listed [])) m = .ok () m' ∧
        rooting.cpu.regs.further.SameBut .supervisor m'.cpu.regs) ∧
      Exec.entries (FlatMemory.callingBus .firmware) rooting = [] ∧
      rooting.cpu.regs.further.SameButAnswers
        ((Exec.step (FlatMemory.callingBus .firmware)).final rooting).cpu.regs := by
  have calls := FlatMemory.callingBus_handsOff
  obtain ⟨declined, -⟩ := Exec.software_calls (m := rooting) (n := 0x0D) (calls (.listed []))
    rfl (by decide) rfl (by decide +kernel)
  obtain ⟨-, carried⟩ := Exec.software_calls (m := rooting) (n := 0x0D) (calls .firmware)
    rfl (by decide) rfl (by decide +kernel)
  constructor
  · obtain ⟨m, stepped, -, vectors, returns⟩ := declined _ rfl
    have reached : (Exec.step (FlatMemory.callingBus (.listed []))).final rooting = m := by
      unfold Exec.final
      rw [stepped]
    obtain ⟨m', returned, same, -⟩ := returns m rfl (by rw [← reached]; decide +kernel)
      (by rw [← reached]; decide +kernel) (by rw [← reached]; decide +kernel)
    exact ⟨m, stepped, vectors.2 (by decide), m', returned, same⟩
  · let called := (Exec.fetched (FlatMemory.callingBus .firmware) rooting).2.mapSystem (·.record (.call 0x0D))
    obtain ⟨none, same, -⟩ := carried (FlatMemory.evenBus .v4) called (FlatMemory.bus_accessesApart .v4 _)
      (by decide) ⟨rfl, rfl⟩ rfl (by decide +kernel)
    exact ⟨none, same⟩

end Lockstep
