import Lockstep.Proofs.WellFormed

/-!
Interrupts are transparent. A handler that at once executes `SUBS PC, LR, #4` gives the interrupted program
everything back, in either instruction set; only the link register and the saved status register of the
handler's mode have changed.
-/

namespace Lockstep

variable {σ β : Type} {bus : Bus σ} {view : σ → β} {m m' : Machine σ}

/-- No interrupt has come up, and what `view` shows of the system is as before. -/
structure Machine.Undisturbed (view : σ → β) (m m' : Machine σ) : Prop where
  calm : m.cpu.interrupts.hasPending = false → m'.cpu.interrupts.hasPending = false
  view : view m'.system = view m.system

theorem Machine.Undisturbed.trans {m₁ m₂ m₃ : Machine σ} (a : m₁.Undisturbed view m₂)
    (b : m₂.Undisturbed view m₃) : m₁.Undisturbed view m₃ :=
  ⟨b.calm ∘ a.calm, b.view.trans a.view⟩

/-- The registers have not changed either. -/
structure Machine.Untouched (view : σ → β) (m m' : Machine σ) : Prop extends
    m.Undisturbed view m' where
  regs : m'.cpu.regs = m.cpu.regs

theorem Machine.Untouched.trans {m₁ m₂ m₃ : Machine σ} (a : m₁.Untouched view m₂)
    (b : m₂.Untouched view m₃) : m₁.Untouched view m₃ :=
  ⟨a.toUndisturbed.trans b.toUndisturbed, b.regs.trans a.regs⟩

/-- Reading and waiting leave the registers alone, request no interrupts, and do not show. -/
def Bus.Quiet (bus : Bus σ) (view : σ → β) : Prop := bus.KeepsReading (Machine.Untouched view)

/-- Equal files, except for the link register and the saved status register of one bank. -/
structure Registers.SameBut (b : Bank) (f f' : Registers) : Prop where
  pc : f'.pc = f.pc
  cpsr : f'.cpsr = f.cpsr
  mode : f'.mode = f.mode
  cells : ∀ s, s ≠ .link b → f'.cell s = f.cell s
  saved : ∀ c, c ≠ b → f'.bankedSpsr c = f.bankedSpsr c

theorem Registers.SameBut.instructionSize {b : Bank} {f f' : Registers} (h : f.SameBut b f') :
    f'.instructionSize = f.instructionSize := by
  rw [Registers.instructionSize, Registers.instructionSize, isThumb, isThumb, flag, flag, h.cpsr]

theorem Registers.entering_sameBut (f : Registers) (kind : Exception) (a : Address) :
    f.SameBut kind.mode.bank { f.entering kind a with pc := f.pc, cpsr := f.cpsr, mode := f.mode } where
  pc := rfl
  cpsr := rfl
  mode := rfl
  cells s hs := (f.cell_entering kind a s).trans (if_neg hs)
  saved c hc := (f.bankedSpsr_entering kind a c).trans (if_neg hc)

/-- The registers with which a handler is entered are those with which it can return to where it was called from. -/
theorem Registers.entering_restores {f g : Registers} {kind : Exception} {a pc : Address}
    (valid : Mode.ofStatus? f.cpsr = some f.mode) (hg : g = { f.entering kind a with pc }) :
    g.isThumb = false ∧ g.mode.hasSaved = true ∧ g.lr = a ∧
      g.setCpsr g.spsr = .ok { g with cpsr := f.cpsr, mode := f.mode } := by
  subst hg
  have spsr : Registers.spsr { f.entering kind a with pc } = f.cpsr := f.entering_spsr kind a
  refine ⟨f.entering_thumb kind a, f.entering_hasSaved kind a, f.entering_lr kind a, ?_⟩
  rw [spsr, Registers.setCpsr, valid]

namespace Bus

theorem jump_quiet (hq : bus.Quiet view) (a : Address) (m : Machine σ) :
    (bus.jump a m).cpu.regs =
        { m.cpu.regs with pc := landing m.cpu.regs a + m.cpu.regs.instructionSize } ∧
      m.Undisturbed view (bus.jump a m) := by
  obtain ⟨m', n, same, hj⟩ := jump_keeps hq.waitTime Machine.Untouched.trans a m
  rw [hj, ← same.regs]
  exact ⟨rfl, same.calm, same.view⟩

theorem quiet_sameAbove (hq : bus.Quiet view) : bus.KeepsWaiting Machine.SameAbove := by
  intro w a k m
  rw [Machine.SameAbove, (hq.waitTime w a k m).regs]
  exact .refl _

end Bus

theorem Exec.fetched_quiet (hq : bus.Quiet view) (m : Machine σ) :
    (fetched bus m).2.cpu.regs =
        { m.cpu.regs with pc := m.cpu.regs.pc + m.cpu.regs.instructionSize } ∧
      m.Undisturbed view (fetched bus m).2 := by
  have same := fetched_keeps hq Machine.Untouched.trans
    (fun {m m₁ m₂} same hr hi _ hs => ⟨⟨fun h => hi ▸ same.calm h, hs ▸ same.view⟩, hr.trans same.regs⟩) m
  exact ⟨same.regs, same.calm, same.view⟩

namespace Arm

theorem executes_resume (v5 : Bool) (f : Registers) : executes v5 f 0xE25EF004 = true :=
  executes_always v5 f (by decide)

theorem decode_resume (v5 : Bool) :
    decode v5 0xE25EF004 = .dataProcessing .sub true Register.lr Register.pc (.immediate 4 none) := by
  cases v5 <;> decide

/-- An operation that returns from a handler. -/
theorem finish_restores {f : Registers} (value : Word) (hs : m.cpu.regs.mode.hasSaved = true)
    (hf : m.cpu.regs.setCpsr m.cpu.regs.spsr = .ok f) :
    finish bus true true Register.pc value m = .ok () (bus.jump value (m.mapRegs fun _ => f)) := by
  have set : (Exec.setCpsr m.cpu.regs.spsr : Exec σ Unit) m = .ok () (m.mapRegs fun _ => f) := by
    rw [Exec.setCpsr_eq, hf]
  unfold finish
  show EStateM.bind get _ m = _
  simp only [EStateM.bind, Exec.get_eq, hs]
  show EStateM.bind (Exec.setCpsr m.cpu.regs.spsr) _ m = _
  simp only [EStateM.bind, set]
  rfl

/-- A word that returns from a handler to where the link register says. -/
structure Returns (bus : Bus σ) (inst : Word) (target : Word → Address) : Prop where
  execute : ∀ {m : Machine σ} {f : Registers}, m.cpu.regs.mode.hasSaved = true →
    m.cpu.regs.setCpsr m.cpu.regs.spsr = .ok f →
      Arm.execute bus inst m = .ok () (bus.jump (target m.cpu.regs.lr) (m.mapRegs fun _ => f))

theorem resume_returns (bus : Bus σ) : Returns bus 0xE25EF004 (· - 4) where
  execute {m f} hs hf := by
    rw [Arm.execute_eq, executes_resume, if_pos rfl, decode_resume]
    show processData bus .sub true Register.lr Register.pc (.immediate 4 none) m = _
    rw [processData_eq]
    exact finish_restores (m.cpu.regs.lr - 4) hs hf

end Arm

namespace Exec

/-- The first part of a step that returns from a handler. -/
theorem work_returns {inst : Word} {target : Word → Address} (returns : Arm.Returns bus inst target) {f : Registers}
    (same : (fetched bus m).2.cpu.regs = { m.cpu.regs with pc := m.cpu.regs.pc + m.cpu.regs.instructionSize })
    (hh : m.cpu.halted = false) (ht : m.cpu.isThumb = false) (hs : m.cpu.regs.mode.hasSaved = true)
    (hi : (bus.fetch m).1 = inst) (hf : m.cpu.regs.setCpsr m.cpu.regs.spsr = .ok f) :
    work bus m = .ok () (bus.jump (target m.cpu.regs.lr) ((fetched bus m).2.mapRegs fun _ =>
      { f with pc := m.cpu.regs.pc + m.cpu.regs.instructionSize })) := by
  obtain ⟨k, hk, rfl⟩ := Registers.setCpsr_ok _ hf
  have hi : (fetched bus m).1 = inst := hi
  generalize hm₁ : (fetched bus m).2 = m₁ at same
  have hasSaved : m₁.cpu.regs.mode.hasSaved = true := by
    rw [same]
    exact hs
  have spsr : m₁.cpu.regs.spsr = m.cpu.regs.spsr := by
    rw [same]
    rfl
  have lr : m₁.cpu.regs.lr = m.cpu.regs.lr := by
    rw [same]
    rfl
  have restored : m₁.cpu.regs.setCpsr m₁.cpu.regs.spsr =
      .ok { m₁.cpu.regs with cpsr := m.cpu.regs.spsr, mode := k } := by
    rw [spsr, Registers.setCpsr, hk]
  rw [work_eq, hh, if_neg Bool.false_ne_true, instruction_eq, ht, execute, if_neg Bool.false_ne_true, hi, hm₁,
    returns.execute hasSaved restored, lr, same]

/-- The first part of a step that executes `SUBS PC, LR, #4`. -/
theorem work_resume (hq : bus.Quiet view) {f : Registers} (hh : m.cpu.halted = false)
    (ht : m.cpu.isThumb = false) (hs : m.cpu.regs.mode.hasSaved = true)
    (hi : (bus.fetch m).1 = 0xE25EF004) (hf : m.cpu.regs.setCpsr m.cpu.regs.spsr = .ok f) :
    ∃ m₁, work bus m = .ok () m₁ ∧ m.Undisturbed view m₁ ∧
      m₁.cpu.regs = { f with pc := Bus.landing f (m.cpu.regs.lr - 4) + f.instructionSize } := by
  obtain ⟨r₁, u₁⟩ := fetched_quiet hq m
  obtain ⟨r₂, u₂⟩ := Bus.jump_quiet hq (m.cpu.regs.lr - 4) ((fetched bus m).2.mapRegs fun _ =>
    { f with pc := m.cpu.regs.pc + m.cpu.regs.instructionSize })
  exact ⟨_, work_returns (Arm.resume_returns bus) r₁ hh ht hs hi hf,
    ⟨u₂.calm ∘ u₁.calm, u₂.view.trans u₁.view⟩, r₂⟩

theorem step_resume (hq : bus.Quiet view) {f : Registers} (hh : m.cpu.halted = false)
    (ht : m.cpu.isThumb = false) (hs : m.cpu.regs.mode.hasSaved = true)
    (hp : m.cpu.interrupts.hasPending = false) (hi : (bus.fetch m).1 = 0xE25EF004)
    (hf : m.cpu.regs.setCpsr m.cpu.regs.spsr = .ok f) :
    ∃ m', step bus m = .ok () m' ∧ m.Undisturbed view m' ∧
      m'.cpu.regs = { f with pc := Bus.landing f (m.cpu.regs.lr - 4) + f.instructionSize } := by
  obtain ⟨m₁, hw, u, hr⟩ := work_resume hq hh ht hs hi hf
  have calm : m₁.cpu.serviceable = false := by
    rw [Processor.serviceable, u.calm hp, Bool.and_false]
  refine ⟨m₁, ?_, u, hr⟩
  rw [step_eq, hw]
  exact congrArg (EStateM.Result.ok ()) (settle_of_unserviceable bus m₁ calm)

/-- Whatever handler was entered, if it returns at once nothing but its own two registers has changed. -/
theorem step_returns (hq : bus.Quiet view) (hw : m.cpu.WellFormed) (kind : Exception)
    (hr : m'.cpu.regs = (bus.enter kind (m.cpu.nextAddress + 4) m).cpu.regs) (hh : m'.cpu.halted = false)
    (hp : m'.cpu.interrupts.hasPending = false) (hi : (bus.fetch m').1 = 0xE25EF004) :
    ∃ m'', step bus m' = .ok () m'' ∧ m'.Undisturbed view m'' ∧
      m.cpu.regs.SameBut kind.mode.bank m''.cpu.regs := by
  obtain ⟨r, -⟩ := Bus.jump_quiet hq (m.cpu.exceptionBase + kind.vector)
    (m.mapRegs (·.entering kind (m.cpu.nextAddress + 4)))
  replace hr := hr.trans r
  obtain ⟨thumb, hasSaved, lr, hf⟩ := Registers.entering_restores hw.mode hr
  let f : Registers := { m'.cpu.regs with cpsr := m.cpu.regs.cpsr, mode := m.cpu.regs.mode }
  obtain ⟨m'', hs, u, h⟩ := step_resume hq hh thumb hasSaved hp hi hf
  -- The link register minus four is an instruction of the restored set, so the jump does not round it.
  have size : f.instructionSize = m.cpu.regs.instructionSize := rfl
  have resumed : Bus.landing f (m'.cpu.regs.lr - 4) + f.instructionSize = m.cpu.regs.pc := by
    have cases := m.cpu.regs.instructionSize_cases
    rw [lr, BitVec.add_sub_cancel, Bus.landing, size, Processor.nextAddress,
      Word.alignDown_eq_self cases (Word.dvd_sub cases hw.aligned)]
    exact BitVec.sub_add_cancel _ _
  refine ⟨m'', hs, u, ?_⟩
  rw [h, resumed]
  show m.cpu.regs.SameBut _
    { m'.cpu.regs with pc := m.cpu.regs.pc, cpsr := m.cpu.regs.cpsr, mode := m.cpu.regs.mode }
  rw [hr]
  exact Registers.entering_sameBut m.cpu.regs kind (m.cpu.nextAddress + 4)

/-- An interrupt whose handler returns at once has no effect on the program. -/
theorem interrupt_transparent (hq : bus.Quiet view) (hw : m.cpu.WellFormed)
    (hs : m.cpu.serviceable = true) :
    (bus.checkInterrupt m).cpu.Vectors m.cpu.exceptionBase 0x18 ∧
    view (bus.checkInterrupt m).system = view m.system ∧
    ∀ m' : Machine σ, m'.cpu.regs = (bus.checkInterrupt m).cpu.regs → m'.cpu.halted = false →
      m'.cpu.interrupts.hasPending = false → (bus.fetch m').1 = 0xE25EF004 →
      ∃ m'', step bus m' = .ok () m'' ∧ m.cpu.regs.SameBut .irq m''.cpu.regs ∧
        m''.cpu.nextAddress = m.cpu.nextAddress ∧ view m''.system = view m'.system := by
  have taken : bus.checkInterrupt m = bus.enter .irq (m.cpu.nextAddress + 4) m := by
    rw [Bus.checkInterrupt, hs, if_pos rfl]
  rw [taken]
  refine ⟨Bus.enter_vectors (Bus.quiet_sameAbove hq) _ _ _, ?_, fun m' hr hh hp hi => ?_⟩
  · exact (Bus.jump_quiet hq _ _).2.view
  · obtain ⟨m'', h, u, same⟩ := step_returns hq hw .irq hr hh hp hi
    refine ⟨m'', h, same, ?_, u.view⟩
    rw [Processor.nextAddress, Processor.nextAddress, same.instructionSize, same.pc]

end Exec

theorem FlatMemory.bus_quiet (a : Architecture) (timing : Width → Address → Access → Nat) :
    (FlatMemory.bus a timing).Quiet FlatMemory.ram where
  get _ _ _ := ⟨⟨id, rfl⟩, rfl⟩
  waitTime _ _ _ _ := ⟨⟨id, rfl⟩, rfl⟩

/-- A THUMB program in User mode that is about to be interrupted; the handler returns at once. -/
def interrupted : Machine FlatMemory where
  cpu := { Processor.powerOn .v4 with
    regs := { Registers.initial with pc := 0x102, cpsr := 0x60000030, mode := .user }
    interrupts := { master := true, enabled := 1, requested := 1 } }
  system := { ram := ⟨Array.replicate 24 0 ++ #[0x04, 0xF0, 0x5E, 0xE2, 0, 0, 0, 0]⟩ }
  journal := #[]

/-- The handler of `interrupted`, once the request has been taken back. -/
def acknowledged : Machine FlatMemory :=
  ((FlatMemory.evenBus .v4).checkInterrupt interrupted).mapCpu fun p =>
    { p with interrupts := p.interrupts.acknowledge 1 }

theorem interrupted_transparent :
    interrupted.cpu.WellFormed ∧ interrupted.cpu.serviceable = true ∧ acknowledged.cpu.nextAddress = 0x18 ∧
      ∃ m, Exec.step (FlatMemory.evenBus .v4) acknowledged = .ok () m ∧
        interrupted.cpu.regs.SameBut .irq m.cpu.regs ∧ m.cpu.nextAddress = 0x100 ∧
        m.system.ram = interrupted.system.ram := by
  have hw : interrupted.cpu.WellFormed := ⟨by decide, by decide, .inl rfl⟩
  have hs : interrupted.cpu.serviceable = true := by decide
  obtain ⟨vectors, entered, returns⟩ :=
    Exec.interrupt_transparent (FlatMemory.bus_quiet .v4 fun _ _ _ => 1) hw hs
  obtain ⟨m, hm, same, next, returned⟩ := returns acknowledged rfl rfl (by decide +kernel) (by decide +kernel)
  exact ⟨hw, hs, vectors.2 (by decide), m, hm, same, next, returned.trans entered⟩

end Lockstep
