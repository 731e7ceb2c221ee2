import Lockstep.Proofs.Frame

/-!
What a step does to the system around a processor, and to the processor's clock. A processor reaches its
system through the bus alone, and all that it does by itself takes time or leaves the clock where it is. So
whatever every call of the bus keeps, a step keeps.
-/

namespace Lockstep

variable {σ : Type}

/-- What a processor can do without its bus: it changes its registers and lets time pass. -/
structure Machine.Alone (m m' : Machine σ) : Prop where
  system : m'.system = m.system
  timestamp : m.cpu.timestamp ≤ m'.cpu.timestamp
  interrupts : m'.cpu.interrupts = m.cpu.interrupts
  exceptionBase : m'.cpu.exceptionBase = m.cpu.exceptionBase

/-- A relation that all calls of the bus keep, and all that a processor does by itself. -/
structure Bus.Carries (bus : Bus σ) (R : Machine σ → Machine σ → Prop) : Prop where
  calls : bus.Keeps R
  own : ∀ m m', m.Alone m' → R m m'
  trans : ∀ {m₁ m₂ m₃}, R m₁ m₂ → R m₂ m₃ → R m₁ m₃

namespace Bus.Carries

variable {bus : Bus σ} {R : Machine σ → Machine σ → Prop} (h : bus.Carries R)
include h

theorem refl (m : Machine σ) : R m m := h.own m m ⟨rfl, Nat.le_refl _, rfl, rfl⟩

theorem jump (a : Address) (m : Machine σ) : R m (bus.jump a m) := by
  obtain ⟨m', n, waited, hj⟩ := jump_keeps h.calls.waitTime h.trans a m
  rw [hj]
  exact h.trans waited (h.own _ _ ⟨rfl, Nat.le_add_right _ _, rfl, rfl⟩)

theorem jumpWith (f : Registers → Registers) (a : Address) (m : Machine σ) :
    R m (bus.jump a (m.mapRegs f)) := by
  have changed : R m (m.mapRegs f) := h.own _ _ ⟨rfl, Nat.le_refl _, rfl, rfl⟩
  exact h.trans changed (h.jump a _)

theorem enter (kind : Exception) (a : Address) (m : Machine σ) : R m (bus.enter kind a m) :=
  h.jumpWith (·.entering kind a) _ m

theorem move {m m' : Machine σ} (hm : Move bus m m') : R m m' := by
  cases hm with
  | idle n => exact h.own _ _ ⟨rfl, Nat.le_add_right _ _, rfl, rfl⟩
  | get w a => exact h.calls.get w a m
  | set w a v => exact h.calls.set w a v m
  | wait w a k => exact h.calls.waitTime w a k m
  | controlRead r => exact h.calls.controlRead r m
  | controlWrite r v => exact h.calls.controlWrite r v m
  | softwareCall n => exact h.calls.softwareCall n m
  | jump a => exact h.jump a m
  | exchange thumb a => exact h.jumpWith (·.setFlag .thumb thumb) a m
  | note | wake | nonsequential | sequel | write | flag | conditions | advance =>
    exact h.own _ _ ⟨rfl, Nat.le_refl _, rfl, rfl⟩

theorem change {m m' : Machine σ} (hc : StatusChange bus m m') : R m m' := by
  cases hc with
  | @resume f a => exact h.jumpWith (fun _ => f) a m
  | status | saved => exact h.own _ _ ⟨rfl, Nat.le_refl _, rfl, rfl⟩

theorem acts {m m' : Machine σ} (ha : Acts bus m m') : R m m' :=
  ha.keep (fun last before => h.trans before (h.move last)) (fun last before => h.trans before (h.change last))
    (h.refl m)

theorem settle (m : Machine σ) : R m (Exec.settle bus m) := by
  unfold Exec.settle Bus.checkInterrupt
  split_ifs
  · exact h.refl m
  · exact h.enter _ _ m
  · exact h.refl m

theorem execute (thumb : Bool) (inst : Word) (m : Machine σ) :
    R m ((Exec.execute bus thumb inst).final m) := by
  cases hc : bus.callIn m.cpu.regs thumb inst with
  | none => exact h.acts (Exec.execute_acts bus m hc)
  | some n =>
    have offered := h.calls.softwareCall n m
    unfold Exec.final at offered ⊢
    rw [Exec.execute_call bus m hc, Exec.softwareInterrupt_eq]
    cases hs : bus.softwareCall n m with
    | error e m₁ =>
      rw [hs] at offered
      exact offered
    | ok b m₁ =>
      rw [hs] at offered
      cases b with
      | true => exact h.trans offered (h.own _ _ ⟨rfl, Nat.le_refl _, rfl, rfl⟩)
      | false => exact h.trans offered (h.enter _ _ m₁)

theorem fetched (m : Machine σ) : R m (Exec.fetched bus m).2 := h.acts (Exec.fetched_moves bus m).acts

theorem work (m : Machine σ) : R m ((Exec.work bus).final m) := by
  unfold Exec.final
  rw [Exec.work_eq]
  split_ifs
  · exact h.acts (Exec.doze_moves bus m).acts
  · exact h.trans (h.fetched m) (h.execute _ _ _)

/-- A step keeps what the calls of the bus keep, whether or not it fails. -/
theorem step (m : Machine σ) : R m ((Exec.step bus).final m) := by
  have worked := h.work m
  unfold Exec.final at worked ⊢
  rw [Exec.step_eq]
  cases hw : Exec.work bus m with
  | ok _ m₁ =>
    rw [hw] at worked
    exact h.trans worked (h.settle m₁)
  | error e m₁ =>
    rw [hw] at worked
    exact worked

theorem run {m m' : Machine σ} (hr : Exec.Run bus m m') : R m m' := by
  induction hr with
  | refl => exact h.refl m
  | tail _ hs ih => exact hs ▸ h.trans ih (h.step _)

end Bus.Carries

end Lockstep
