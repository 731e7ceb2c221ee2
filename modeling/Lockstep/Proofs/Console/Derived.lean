import Lockstep.Proofs.Console.Parts
import Lockstep.Proofs.Console.Store

/-!
What a console derives from its registers and keeps beside them: the windows of the tightly coupled
memories, the exception vectors, and the times of slot 2. Whatever happens, they agree with the registers.
-/

namespace Lockstep.Console

variable {δ : Type}

namespace ExternalMemory

theorem firstTime_le : ∀ n, firstTime n ≤ 18 := by decide

theorem secondTime_le : ∀ n, secondTime n ≤ 6 := by decide

/-- No access to slot 2 takes more than 36 cycles of the ARM7. -/
theorem times_le (c : ExternalMemory) (k : TimingClass) :
    c.romTimes.get k ≤ 36 ∧ c.sramTimes.get k ≤ 36 := by
  have first := firstTime_le c.romFirstTime
  have second := secondTime_le c.romSecondTime
  have time := firstTime_le c.sramTime
  cases k <;> simp only [romTimes, sramTimes, AccessTimes.get] <;> omega

end ExternalMemory

theorem AccessTimes.scale_one (t : AccessTimes) : t.scale 1 = t := by
  simp only [scale, Nat.mul_one]

theorem AccessTimes.get_scale (t : AccessTimes) (n : Nat) (k : TimingClass) :
    (t.scale n).get k = t.get k * n := by
  cases k <;> rfl

namespace Waitstates

def timesUnder (c : ExternalMemory) (i : Fin 16) : AccessTimes :=
  if i.val = 8 ∨ i.val = 9 then c.romTimes else if i.val = 10 then c.sramTimes else base.get i

def Follows (c : ExternalMemory) (t : Waitstates) : Prop :=
  ∀ id i, (t.regions id).get i = (timesUnder c i).scale (factor id)

theorem initial_follows : initial.Follows 0 := by
  intro id i
  rw [initial, get_applyExternal, timesUnder]
  split_ifs
  · rfl
  · rfl
  · cases id with
    | arm7 => exact (AccessTimes.scale_one _).symm
    | arm9 => exact Vector.getElem_map ..

theorem applyExternal_follows {t : Waitstates} {c : ExternalMemory} (h : t.Follows c) (c' : ExternalMemory) :
    (t.applyExternal c').Follows c' := by
  intro id i
  have outside := h id i
  rw [get_applyExternal]
  unfold timesUnder at outside ⊢
  split_ifs with h₁ h₂
  · rfl
  · rfl
  · rw [if_neg h₁, if_neg h₂] at outside
    exact outside

theorem timesUnder_le (c : ExternalMemory) (i : Fin 16) (k : TimingClass) :
    (timesUnder c i).get k ≤ 36 := by
  have slot2 := c.times_le k
  unfold timesUnder
  split_ifs
  · exact slot2.1
  · exact slot2.2
  · revert i
    cases k <;> decide

theorem timesUnder_pos (c : ExternalMemory) (i : Fin 16) : (timesUnder c i).Positive := by
  unfold timesUnder
  split_ifs
  · exact c.romTimes_positive
  · exact c.sramTimes_positive
  · exact base_positive i

namespace Follows

variable {t : Waitstates} {c : ExternalMemory} (h : t.Follows c)
include h

theorem arm7 (i : Fin 16) : t.arm7.get i = timesUnder c i := (h .arm7 i).trans (AccessTimes.scale_one _)

/-- The ARM9 counts twice as many cycles. -/
theorem arm9 (i : Fin 16) (k : TimingClass) : (t.arm9.get i).get k = 2 * (t.arm7.get i).get k := by
  have twice : t.arm9.get i = (timesUnder c i).scale 2 := h .arm9 i
  rw [twice, h.arm7, AccessTimes.get_scale, Nat.mul_comm]

theorem bounds (id : ProcessorId) (i : Fin 16) (k : TimingClass) :
    1 ≤ ((t.regions id).get i).get k ∧ ((t.regions id).get i).get k ≤ 72 := by
  have least := timesUnder_pos c i k
  have most := timesUnder_le c i k
  rw [h id i, AccessTimes.get_scale]
  cases id <;> simp only [factor] <;> omega

end Follows

end Waitstates

/-- What the console derives from its registers agrees with them. -/
structure Board.UpToDate (s : Board δ) : Prop where
  windows : s.hardware.control.Reachable
  vectors9 : s.cpu9.exceptionBase = s.hardware.control.exceptionBase
  vectors7 : s.cpu7.exceptionBase = 0
  times : s.hardware.waitstates.Follows s.hardware.externalMemory

namespace Board.UpToDate

variable {devices : Devices δ} {s s' : Board δ}

theorem congr (h : s.UpToDate) (h9 : s'.cpu9.exceptionBase = s.cpu9.exceptionBase)
    (h7 : s'.cpu7.exceptionBase = s.cpu7.exceptionBase) (control : s'.hardware.control = s.hardware.control)
    (waitstates : s'.hardware.waitstates = s.hardware.waitstates)
    (externalMemory : s'.hardware.externalMemory = s.hardware.externalMemory) : s'.UpToDate where
  windows := control ▸ h.windows
  vectors9 := by rw [h9, control, h.vectors9]
  vectors7 := h7.trans h.vectors7
  times := by
    rw [waitstates, externalMemory]
    exact h.times

/-- No access makes anything out of date. -/
theorem node_keeps (devices : Devices δ) (s : Board δ) (id : ProcessorId) :
    Node.Keeps devices id fun m m' => (s.put id m).UpToDate → (s.put id m').UpToDate where
  own m m' alone h := by
    obtain ⟨system, -, -, base⟩ := alone
    cases id with
    | arm7 => exact h.congr rfl base (congrArg _ system) (congrArg _ system) (congrArg _ system)
    | arm9 => exact h.congr base rfl (congrArg _ system) (congrArg _ system) (congrArg _ system)
  trans h h' := h' ∘ h
  core r v mask m h := by
    have spared := Node.writeCore_spares id r v mask m
    have times : (Node.writeCore id r v mask m).system.waitstates.Follows
        (Node.writeCore id r v mask m).system.externalMemory := by
      have before : m.system.waitstates.Follows m.system.externalMemory := by cases id <;> exact h.times
      -- The table changes with the external memory control and in no other way.
      rcases spared.waitstates with ⟨times, register⟩ | times
      · rw [times, register]
        exact before
      · rw [times]
        exact Waitstates.applyExternal_follows before _
    cases id with
    | arm7 =>
      exact ⟨spared.control ▸ h.windows, h.vectors9.trans (congrArg _ spared.control.symm),
        spared.exceptionBase.trans h.vectors7, times⟩
    | arm9 =>
      exact ⟨spared.control ▸ h.windows,
        spared.exceptionBase.trans (h.vectors9.trans (congrArg _ spared.control.symm)), h.vectors7, times⟩
  read a m h := by cases id <;> exact h.congr rfl rfl rfl rfl rfl
  write a v mask m h := by cases id <;> exact h.congr rfl rfl rfl rfl rfl
  memory r offset w v m h := by cases id <;> exact h.congr rfl rfl rfl rfl rfl
  control only reg v m h := by
    subst only
    exact ⟨h.windows.write reg v m.journal, rfl, h.vectors7, h.times⟩

theorem reset (h : s.UpToDate) : s.reset.UpToDate where
  windows := .refl
  vectors9 := rfl
  vectors7 := h.vectors7
  times := Waitstates.initial_follows

theorem part (h : s.UpToDate) (p : Part) : (p.apply devices s).UpToDate := by
  have carries (id : ProcessorId) := (node_keeps devices s id).carries
  have here (id : ProcessorId) : (s.put id (s.node id)).UpToDate := (s.put_node id).symm ▸ h
  cases p with
  | step id => exact (carries id).step (s.node id) (here id)
  | get id w a => exact (carries id).calls.get w a (s.node id) (here id)
  | set id w a v => exact (carries id).calls.set w a v (s.node id) (here id)
  | deliver | clock | plan | mark | enterProgram => exact h.congr rfl rfl rfl rfl rfl
  | dispatch =>
    unfold Part.apply
    rcases s.hardware.schedule.takeDue with ⟨_ | ⟨_ | event, lateBy⟩, schedule⟩
    · exact h
    · exact h.congr rfl rfl rfl rfl rfl
    · exact h.congr rfl rfl rfl rfl rfl
  | reset => exact h.reset

theorem parts (h : s.UpToDate) (parts : List Part) : (Part.run devices s parts).UpToDate := by
  induction parts generalizing s with
  | nil => exact h
  | cons p parts ih => exact ih (h.part p)

theorem boot (h : s.UpToDate) (entry9 entry7 : Address) : (s.boot entry9 entry7).UpToDate := by
  unfold Board.boot
  simp only
  split_ifs
  · exact h.reset.congr rfl rfl rfl rfl rfl
  · exact h.reset

end Board.UpToDate

end Lockstep.Console
