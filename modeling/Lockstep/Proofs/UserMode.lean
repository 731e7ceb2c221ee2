import Lockstep.Proofs.WellFormed

/-!
User mode contains its programs. No instruction writes the control bits of the status register, a saved
status register or a register of another bank while in User mode; the only ways out are the handlers of
software interrupts and of interrupts.
-/

namespace Lockstep

/-- The registers that programs in User mode do not see. -/
def Slot.isPrivileged : Slot → Bool
  | .low _ | .high _ => false
  | .fast _ => true
  | .stack b | .link b => b != .user

theorem Mode.owns_user {s : Slot} (h : Mode.user.Owns s) : s.isPrivileged = false := by
  have seen : ∀ r, ((Mode.user.slot? r).all (!·.isPrivileged)) = true := by decide
  obtain ⟨r, h | h⟩ := h
  all_goals
    have hs := seen r
    rw [h] at hs
    simpa using hs

theorem Slot.ne_low {s : Slot} (h : s.isPrivileged = true) (i : Fin 8) : s ≠ .low i := by
  rintro rfl
  cases h

namespace Registers

structure Confined (f f' : Registers) : Prop where
  mode : f'.mode = f.mode
  /-- The control byte of the status register, except for the instruction set. -/
  control : ∀ i < 8, i ≠ Flag.thumb.position → f'.cpsr.getLsbD i = f.cpsr.getLsbD i
  saved : f'.saved = f.saved
  cells : ∀ s, s.isPrivileged = true → f'.cell s = f.cell s

namespace Confined

variable {f g h : Registers}

theorem refl (f : Registers) : f.Confined f := ⟨rfl, fun _ _ _ => rfl, rfl, fun _ _ => rfl⟩

theorem withPc (f : Registers) (v : Word) : f.Confined { f with pc := v } :=
  ⟨rfl, fun _ _ _ => rfl, rfl, fun _ _ => rfl⟩

theorem trans (a : f.Confined g) (b : g.Confined h) : f.Confined h where
  mode := b.mode.trans a.mode
  control i hi ht := (b.control i hi ht).trans (a.control i hi ht)
  saved := b.saved.trans a.saved
  cells s hs := (b.cells s hs).trans (a.cells s hs)

theorem status (a : f.Confined g) : Mode.ofStatus? g.cpsr = Mode.ofStatus? f.cpsr :=
  Mode.ofStatus?_congr fun i hi => a.control i (by omega) (by simp only [Flag.position]; omega)

theorem of_flag (x : Flag) (b : Bool) (hx : x.isArithmetic = true ∨ x = .thumb) :
    f.Confined (f.setFlag x b) := by
  refine ⟨rfl, fun i hi ht => ?_, rfl, fun _ _ => rfl⟩
  rw [getLsbD_setFlag, if_neg]
  rintro rfl
  rcases hx with hx | rfl
  · revert hx hi
    cases x <;> decide
  · exact ht rfl

end Confined

theorem SameAbove.confined {f g : Registers} (h : f.SameAbove g) : f.Confined g where
  mode := h.mode
  control _ _ _ := by rw [h.cpsr]
  saved := h.saved
  cells s hs := h.cells s (Slot.ne_low hs)

/-- A handler was entered from `f`, in a mode, while the status register held `status`. -/
structure Entered (k : Mode) (status : Word) (f f' : Registers) : Prop where
  mode : f'.mode = k
  irqDisable : f'.flag .irqDisable = true
  thumb : f'.flag .thumb = false
  saved : ∀ b, f'.bankedSpsr b = if b = k.bank then status else f.bankedSpsr b
  cells : ∀ s, s.isPrivileged = true → s ≠ .link k.bank → f'.cell s = f.cell s

end Registers

variable {σ : Type} {bus : Bus σ} {m m' : Machine σ}

namespace Bus

theorem jump_confined (hb : bus.SparesRegisters) (a : Address) (m : Machine σ) :
    m.cpu.regs.Confined (bus.jump a m).cpu.regs :=
  (Registers.Confined.withPc _ _).trans (jump_sameAbove hb.waitTime a m).confined

theorem enter_entered (hb : bus.SparesRegisters) (kind : Exception) (a : Address) {f : Registers}
    (hf : f.Confined m.cpu.regs) : f.Entered kind.mode m.cpu.regs.cpsr (bus.enter kind a m).cpu.regs := by
  have h := jump_sameAbove hb.waitTime (m.cpu.exceptionBase + kind.vector) (m.mapRegs (·.entering kind a))
  rw [enter_eq]
  refine ⟨?_, ?_, ?_, fun b => ?_, fun s hs hl => ?_⟩
  · exact h.mode.trans (Registers.entering_mode _ kind a)
  · exact (h.flag .irqDisable).trans (Registers.entering_irqDisable _ kind a)
  · exact (h.flag .thumb).trans (Registers.entering_thumb _ kind a)
  · rw [Registers.bankedSpsr, Registers.bankedSpsr, h.saved, ← hf.saved]
    exact Registers.bankedSpsr_entering m.cpu.regs kind a b
  · rw [h.cells s (Slot.ne_low hs), ← hf.cells s hs]
    refine (Registers.cell_entering m.cpu.regs kind a s).trans ?_
    rw [if_neg hl]

end Bus

theorem Move.confined (hb : bus.SparesRegisters) (hm : Move bus m m') (hu : m.cpu.regs.mode = .user) :
    m.cpu.regs.Confined m'.cpu.regs := by
  cases hm with
  | note | idle | wake | nonsequential | sequel => exact .refl _
  | get w a => exact (hb.get w a m).confined
  | set w a v => exact (hb.set w a v m).confined
  | wait w a k => exact (hb.waitTime w a k m).confined
  | controlRead r => exact (hb.controlRead r m).confined
  | controlWrite r v => exact (hb.controlWrite r v m).confined
  | softwareCall n => exact (hb.softwareCall n m).confined
  | @write s v ho =>
    rw [hu] at ho
    refine ⟨rfl, fun _ _ _ => rfl, rfl, fun t ht => ?_⟩
    refine (Registers.cell_setCell _ _ _ _).trans (if_neg ?_)
    rintro rfl
    rw [Mode.owns_user ho] at ht
    cases ht
  | flag b hx => exact .of_flag _ b (.inl hx)
  | conditions v =>
    exact ⟨rfl, fun i hi _ => Registers.getLsbD_setConditionFlags _ _ (by omega), rfl, fun _ _ => rfl⟩
  | advance => exact .withPc _ _
  | jump a => exact Bus.jump_confined hb a m
  | exchange thumb a =>
    have switched : m.cpu.regs.Confined (m.setFlag .thumb thumb).cpu.regs := .of_flag _ thumb (.inr rfl)
    exact switched.trans (Bus.jump_confined hb a _)

/-- A status register that names User mode goes on to name it. -/
theorem StatusChange.confined (hc : StatusChange bus m m') (hu : m.cpu.regs.mode = .user)
    (hs : Mode.ofStatus? m.cpu.regs.cpsr = some .user) : m.cpu.regs.Confined m'.cpu.regs := by
  cases hc with
  | resume a saved =>
    rw [hu] at saved
    cases saved
  | @status v f _ control hf =>
    have control := control hu
    obtain ⟨k, hk, rfl⟩ := Registers.setCpsr_ok _ hf
    have hk' : some .user = some k := hs.symm.trans ((Mode.ofStatus?_congr fun i hi =>
      (control i (by omega)).symm).trans hk)
    cases hk'
    exact ⟨hu.symm, fun i hi _ => control i hi, rfl, fun _ _ => rfl⟩
  | saved v =>
    have : m.cpu.regs.setSpsr v = m.cpu.regs := by
      rw [Registers.setSpsr, hu]
      rfl
    show m.cpu.regs.Confined (m.cpu.regs.setSpsr v)
    rw [this]
    exact .refl _

theorem acts_confined (hb : bus.SparesRegisters) (ha : Acts bus m m') (hu : m.cpu.regs.mode = .user)
    (hs : Mode.ofStatus? m.cpu.regs.cpsr = some .user) : m.cpu.regs.Confined m'.cpu.regs :=
  ha.keep (P := fun m' => m.cpu.regs.Confined m'.cpu.regs)
    (fun last ih => ih.trans (last.confined hb (ih.mode.trans hu)))
    (fun last ih => ih.trans (last.confined (ih.mode.trans hu) (ih.status.trans hs))) (.refl _)

namespace Exec

theorem fetched_sameAbove (hb : bus.SparesRegisters) (m : Machine σ) :
    ({ m.cpu.regs with pc := m.cpu.regs.pc + m.cpu.regs.instructionSize } : Registers).SameAbove
      (fetched bus m).2.cpu.regs := by
  refine fetched_keeps hb.toKeepsReading Registers.SameAbove.trans (fun same hr _ _ _ => ?_) m
  rwa [Machine.SameAbove, hr]

theorem declines_sameAbove (hb : bus.SparesRegisters) {n : BitVec 8} {m₁ : Machine σ}
    (h : Declines bus m n m₁) :
    ({ m.cpu.regs with pc := m.cpu.regs.pc + m.cpu.regs.instructionSize } : Registers).SameAbove
      m₁.cpu.regs := by
  have offered := hb.softwareCall n (fetched bus m).2
  unfold final at offered
  rw [h.2.2] at offered
  exact (fetched_sameAbove hb m).trans offered

/-- A step from User mode stays in User mode, or enters the handler of software interrupts, eight bytes into the
vectors and in Supervisor mode, or that of interrupts, 24 bytes into the vectors and in its own mode. -/
theorem step_from_user (hb : bus.SparesRegisters) (hw : m.cpu.WellFormed) (hu : m.cpu.regs.mode = .user)
    (h : step bus m = .ok () m') :
    m'.cpu.regs.mode = .user ∧ m.cpu.regs.Confined m'.cpu.regs ∨
    (∃ n m₁, Declines bus m n m₁ ∧ m'.cpu.Vectors m₁.cpu.exceptionBase 0x08 ∧
      m.cpu.regs.Entered .supervisor m.cpu.regs.cpsr m'.cpu.regs) ∨
    (∃ m₁, work bus m = .ok () m₁ ∧ m.cpu.regs.Confined m₁.cpu.regs ∧
      m'.cpu.Vectors m₁.cpu.exceptionBase 0x18 ∧
      m.cpu.regs.Entered .irq m₁.cpu.regs.cpsr m'.cpu.regs) := by
  obtain ⟨m₁, hx, rfl⟩ := step_ok bus m h
  rcases work_cases bus m with ⟨-, moved⟩ | ⟨n, m₂, hd, hc⟩
  · have confined := acts_confined hb moved hu (hw.mode.trans (congrArg some hu))
    unfold final at confined
    rw [hx] at confined
    unfold settle Bus.checkInterrupt
    split_ifs
    · exact .inl ⟨confined.mode.trans hu, confined⟩
    · refine .inr (.inr ⟨m₁, hx, confined, ?_, ?_⟩)
      · exact Bus.enter_vectors hb.waitTime _ _ _
      · exact Bus.enter_entered hb .irq _ confined
    · exact .inl ⟨confined.mode.trans hu, confined⟩
  · rw [hx] at hc
    cases hc
    have same := declines_sameAbove hb hd
    have confined := (Registers.Confined.withPc m.cpu.regs _).trans same.confined
    have entered := Bus.enter_entered hb .softwareInterrupt
      (m₂.cpu.currentAddress + m₂.cpu.regs.instructionSize) confined
    have masked : (bus.enter .softwareInterrupt (m₂.cpu.currentAddress + m₂.cpu.regs.instructionSize)
        m₂).cpu.serviceable = false := by
      rw [Processor.serviceable, entered.irqDisable, Bool.not_true, Bool.and_false, Bool.false_and]
    rw [settle_of_unserviceable bus _ masked]
    rw [same.cpsr] at entered
    exact .inr (.inl ⟨n, m₂, hd, Bus.enter_vectors hb.waitTime _ _ _, entered⟩)

end Exec

/-- A machine in User mode about to execute `SWI 0`. -/
def calling : Machine FlatMemory where
  cpu := (Processor.powerOn .v4).mapRegs fun f => { f with cpsr := 0x10, mode := .user }
  system := { ram := ⟨#[0x00, 0x00, 0x00, 0xEF]⟩ }
  journal := #[]

theorem step_from_user_calling :
    calling.cpu.WellFormed ∧
      ∃ m, Exec.step (FlatMemory.evenBus .v4) calling = .ok () m ∧
        m.cpu.nextAddress = 0x08 ∧ m.cpu.regs.bankedSpsr .supervisor = 0x10 ∧
        calling.cpu.regs.Entered .supervisor 0x10 m.cpu.regs := by
  have hw : calling.cpu.WellFormed := ⟨by decide, by decide, .inl rfl⟩
  have hs := Exec.eq_ok_of_succeeds (x := Exec.step (FlatMemory.evenBus .v4)) (m := calling) (by decide +kernel)
  have hm : ((Exec.step (FlatMemory.evenBus .v4)).final calling).cpu.regs.mode = .supervisor := by
    decide +kernel
  have handler : ((Exec.step (FlatMemory.evenBus .v4)).final calling).cpu.nextAddress = 0x08 := by decide +kernel
  refine ⟨hw, _, hs, handler, ?_⟩
  rcases Exec.step_from_user (FlatMemory.bus_sparesRegisters _ _) hw rfl hs with
    ⟨hu, -⟩ | ⟨_, _, -, -, entered⟩ | ⟨_, -, -, -, entered⟩
  · cases hu.symm.trans hm
  · exact ⟨entered.saved .supervisor, entered⟩
  · cases entered.mode.symm.trans hm

end Lockstep
