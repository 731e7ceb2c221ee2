import Lockstep.Proofs.Frame
import Lockstep.Proofs.HandlerEntries

/-!
When interrupts are taken. No step leaves an interrupt behind that could be serviced, unless the processor
sleeps; a sleeping processor wakes up for every interrupt that is enabled and requested, but enters the
handler only if it may; and no step enters two handlers. What a step enters is noted where it calls for an entry. The
rest of it changes one status register at most, and an entry changes two, so none hides there. Only waiting for an
access has to leave interrupts alone: all other calls of the system can request them, mask them and put the processor
to sleep.
-/

namespace Lockstep

variable {σ : Type} {bus : Bus σ} {m m' : Machine σ}

/-- Whether interrupts are taken has not changed. -/
structure Machine.SameLines (m m' : Machine σ) : Prop where
  interrupts : m'.cpu.interrupts = m.cpu.interrupts
  halted : m'.cpu.halted = m.cpu.halted
  irqDisable : m'.cpu.regs.flag .irqDisable = m.cpu.regs.flag .irqDisable

theorem Machine.SameLines.trans {m₁ m₂ m₃ : Machine σ} (a : m₁.SameLines m₂) (b : m₂.SameLines m₃) :
    m₁.SameLines m₃ :=
  ⟨b.interrupts.trans a.interrupts, b.halted.trans a.halted, b.irqDisable.trans a.irqDisable⟩

def Machine.wake (m : Machine σ) : Machine σ := m.mapCpu ({ · with halted := false })

namespace Bus

theorem jump_sameLines (hb : bus.KeepsWaiting Machine.SameLines) (a : Address) (m : Machine σ) :
    m.SameLines (bus.jump a m) := by
  obtain ⟨m', n, same, hj⟩ := jump_keeps hb Machine.SameLines.trans a m
  rw [hj]
  exact ⟨same.interrupts, same.halted, same.irqDisable⟩

theorem enter_lines (hb : bus.KeepsWaiting Machine.SameLines) (kind : Exception) (a : Address)
    (m : Machine σ) :
    (bus.enter kind a m).cpu.interrupts = m.cpu.interrupts ∧
      (bus.enter kind a m).cpu.halted = m.cpu.halted ∧
      (bus.enter kind a m).cpu.regs.flag .irqDisable = true := by
  have h := jump_sameLines hb (m.cpu.exceptionBase + kind.vector) (m.mapRegs (·.entering kind a))
  rw [enter_eq]
  exact ⟨h.interrupts, h.halted, h.irqDisable.trans (Registers.entering_irqDisable _ kind a)⟩

end Bus

/-- The saved status registers are as before, and interrupts are disabled if they were. -/
structure Registers.SameGuards (f f' : Registers) : Prop where
  saved : f'.saved = f.saved
  irqDisable : f'.flag .irqDisable = f.flag .irqDisable

namespace Registers.SameGuards

variable {f g h : Registers}

theorem trans (a : f.SameGuards g) (b : g.SameGuards h) : f.SameGuards h :=
  ⟨b.saved.trans a.saved, b.irqDisable.trans a.irqDisable⟩

theorem of_sameAbove (h : f.SameAbove g) : f.SameGuards g := ⟨h.saved, h.flag .irqDisable⟩

theorem of_flag {x : Flag} (b : Bool) (h : x ≠ .irqDisable) : f.SameGuards (f.setFlag x b) := by
  refine ⟨rfl, (Registers.flag_setFlag ..).trans (if_neg ?_)⟩
  exact h.symm

end Registers.SameGuards

theorem Bus.jump_sameGuards (hb : bus.SparesRegisters) (a : Address) (m : Machine σ) :
    m.cpu.regs.SameGuards (bus.jump a m).cpu.regs :=
  have same := jump_sameAbove hb.waitTime a m
  ⟨same.saved, same.flag .irqDisable⟩

theorem Move.sameGuards (hb : bus.SparesRegisters) (hm : Move bus m m') :
    m.cpu.regs.SameGuards m'.cpu.regs := by
  cases hm with
  | note | idle | wake | nonsequential | sequel | write | advance => exact ⟨rfl, rfl⟩
  | get w a => exact .of_sameAbove (hb.get w a m)
  | set w a v => exact .of_sameAbove (hb.set w a v m)
  | wait w a k => exact .of_sameAbove (hb.waitTime w a k m)
  | controlRead r => exact .of_sameAbove (hb.controlRead r m)
  | controlWrite r v => exact .of_sameAbove (hb.controlWrite r v m)
  | softwareCall n => exact .of_sameAbove (hb.softwareCall n m)
  | flag b hx => exact .of_flag b (by rintro rfl; cases hx)
  | conditions v => exact ⟨rfl, Registers.getLsbD_setConditionFlags _ _ (by decide)⟩
  | jump a => exact Bus.jump_sameGuards hb a m
  | exchange thumb a =>
    have switched : m.cpu.regs.SameGuards (m.setFlag .thumb thumb).cpu.regs := .of_flag thumb (by decide)
    exact switched.trans (Bus.jump_sameGuards hb a _)

theorem moves_sameGuards (hb : bus.SparesRegisters) (hm : Moves bus m m') : m.cpu.regs.SameGuards m'.cpu.regs := by
  induction hm with
  | refl => exact ⟨rfl, rfl⟩
  | tail _ hm ih => exact ih.trans (hm.sameGuards hb)

theorem StatusChange.keeps_guard (hb : bus.SparesRegisters) (hc : StatusChange bus m m') :
    m'.cpu.regs.saved = m.cpu.regs.saved ∨ m'.cpu.regs.flag .irqDisable = m.cpu.regs.flag .irqDisable := by
  cases hc with
  | resume a _ hf =>
    obtain ⟨k, -, rfl⟩ := Registers.setCpsr_ok _ hf
    exact .inl (Bus.jump_sameGuards hb a _).saved
  | status _ _ hf =>
    obtain ⟨k, -, rfl⟩ := Registers.setCpsr_ok _ hf
    exact .inl rfl
  | saved v =>
    refine .inr ?_
    show (m.cpu.regs.setSpsr v).flag .irqDisable = _
    unfold Registers.setSpsr
    split_ifs <;> rfl

/-- An entry from a status that is not yet saved, with interrupts enabled, changes two status registers, so that no act
comes to it. -/
theorem Acts.ne_enter (hb : bus.SparesRegisters) (acts : Acts bus m m') (kind : Exception) (a : Address)
    {m₁ : Machine σ} (enabled : m.cpu.regs.flag .irqDisable = false)
    (fresh : m.cpu.regs.bankedSpsr kind.mode.bank ≠ m₁.cpu.regs.cpsr) : m' ≠ bus.enter kind a m₁ := by
  rintro rfl
  have jumped := Bus.jump_sameGuards hb (m₁.cpu.exceptionBase + kind.vector) (m₁.mapRegs (·.entering kind a))
  rw [← Bus.enter_eq] at jumped
  obtain ⟨n₁, n₂, before, change, after⟩ := acts
  have first := moves_sameGuards hb before
  have last := moves_sameGuards hb after
  have kept : n₂.cpu.regs.saved = n₁.cpu.regs.saved ∨
      n₂.cpu.regs.flag .irqDisable = n₁.cpu.regs.flag .irqDisable := by
    cases change with
    | refl => exact .inl rfl
    | single change => exact change.keeps_guard hb
  rcases kept with saved | irqDisable
  · have banked : (m₁.cpu.regs.entering kind a).saved = m.cpu.regs.saved :=
      jumped.saved.symm.trans (last.saved.trans (saved.trans first.saved))
    have entered := m₁.cpu.regs.bankedSpsr_entering kind a kind.mode.bank
    rw [if_pos rfl, Registers.bankedSpsr, banked] at entered
    exact fresh entered
  · have masked := jumped.irqDisable.symm.trans (last.irqDisable.trans (irqDisable.trans first.irqDisable))
    rw [enabled] at masked
    exact Bool.false_ne_true (masked.symm.trans (m₁.cpu.regs.entering_irqDisable kind a))

namespace Exec

/-- A step of a halted processor lets time pass and then looks for interrupts. -/
theorem step_halted (hh : m.cpu.halted = true) :
    step bus m = .ok ()
      (if m.cpu.interrupts.hasPending then
        if m.cpu.interrupts.master && !m.cpu.regs.flag .irqDisable then
          bus.enter .irq (m.cpu.nextAddress + 4) (m.idle (bus.dozeLength m.system)).wake
        else (m.idle (bus.dozeLength m.system)).wake
      else m.idle (bus.dozeLength m.system)) := by
  have worked : work bus m = .ok () (doze bus m) := by rw [work_eq, hh, if_pos rfl]
  rw [step_eq, worked]
  refine congrArg (EStateM.Result.ok ()) ?_
  cases hp : m.cpu.interrupts.hasPending with
  | false =>
    have slept : doze bus m = m.idle (bus.dozeLength m.system) := if_neg (by rw [Bool.not_eq_true]; exact hp)
    rw [slept, settle]
    exact if_pos hh
  | true =>
    have woken : doze bus m = (m.idle (bus.dozeLength m.system)).wake := if_pos hp
    have ready : (m.idle (bus.dozeLength m.system)).wake.cpu.serviceable =
        (m.cpu.interrupts.master && !m.cpu.regs.flag .irqDisable) := by
      show (m.cpu.interrupts.master && !m.cpu.regs.flag .irqDisable && m.cpu.interrupts.hasPending) = _
      rw [hp, Bool.and_true]
    rw [woken, if_pos rfl, ← ready]
    exact if_neg Bool.false_ne_true

end Exec

end Lockstep
