import Lockstep.Proofs.Frame

/-!
Well-formed processors. The mode is the one that the status register names, the program counter is
aligned to the instruction set in use, and the next fetch is an ordinary one. Every move keeps this, on any
system that leaves the registers above r7 and the kind of the next fetch alone, and so do changes of a status
register and handler entries: hence every step, whether it fails or not.
-/

namespace Lockstep

structure Processor.WellFormed (p : Processor) : Prop where
  mode : Mode.ofStatus? p.regs.cpsr = some p.regs.mode
  aligned : p.regs.instructionSize.toNat ∣ p.regs.pc.toNat
  fetchKind : p.fetchKind = .nonsequential ∨ p.fetchKind = .sequel

variable {σ : Type} {bus : Bus σ} {m m' : Machine σ}

/-- A system that leaves the registers above r7 and the kind of the next fetch alone. -/
def Bus.SparesFetches (bus : Bus σ) : Prop :=
  bus.SparesRegisters ∧ bus.Keeps fun m m' => m'.cpu.fetchKind = m.cpu.fetchKind

namespace Processor.WellFormed

theorem congr {p p' : Processor} (h : p.WellFormed) (hr : p.regs.SameAbove p'.regs)
    (hk : p'.fetchKind = p.fetchKind) : p'.WellFormed where
  mode := by rw [hr.cpsr, hr.mode]; exact h.mode
  aligned := by
    rw [hr.instructionSize, hr.pc]
    exact h.aligned
  fetchKind := by rw [hk]; exact h.fetchKind

/-- New registers with the same program counter and instruction set. -/
theorem of_status {p : Processor} {f : Registers} (h : p.WellFormed) (hp : f.pc = p.regs.pc)
    (ht : f.isThumb = p.regs.isThumb) (hm : Mode.ofStatus? f.cpsr = some f.mode) :
    WellFormed { p with regs := f } where
  mode := hm
  aligned := by
    show f.instructionSize.toNat ∣ f.pc.toNat
    rw [Registers.instructionSize, ht, hp]
    exact h.aligned
  fetchKind := h.fetchKind

end Processor.WellFormed

/-- A jump aligns the program counter, whatever it was before. -/
theorem jump_wellFormed (hb : bus.SparesRegisters) (a : Address) {m : Machine σ}
    (hm : Mode.ofStatus? m.cpu.regs.cpsr = some m.cpu.regs.mode) : (bus.jump a m).cpu.WellFormed where
  mode := by
    have h := Bus.jump_sameAbove hb.waitTime a m
    rw [h.cpsr, h.mode]
    exact hm
  aligned := by
    have h := Bus.jump_sameAbove hb.waitTime a m
    rw [h.instructionSize, h.pc]
    have size := m.cpu.regs.instructionSize_cases
    exact Word.dvd_add size (Word.dvd_alignDown a size)
  fetchKind := .inr rfl

theorem enter_wellFormed (hb : bus.SparesRegisters) (kind : Exception) (a : Address) (m : Machine σ) :
    (bus.enter kind a m).cpu.WellFormed := by
  rw [Bus.enter_eq]
  refine jump_wellFormed hb _ ?_
  show Mode.ofStatus? (m.cpu.regs.entering kind a).cpsr = some (m.cpu.regs.entering kind a).mode
  rw [Registers.entering_status, Registers.entering_mode]

theorem Registers.setFlag_status (f : Registers) {x : Flag} (b : Bool) :
    Mode.ofStatus? (f.setFlag x b).cpsr = Mode.ofStatus? f.cpsr := by
  refine Mode.ofStatus?_congr fun i hi => ?_
  rw [getLsbD_setFlag, if_neg]
  rintro rfl
  revert hi
  cases x <;> decide

theorem Move.wellFormed (hb : bus.SparesFetches) (hm : Move bus m m') (h : m.cpu.WellFormed) :
    m'.cpu.WellFormed := by
  obtain ⟨hr, hk⟩ := hb
  cases hm with
  | note | idle | wake => exact ⟨h.mode, h.aligned, h.fetchKind⟩
  | nonsequential => exact ⟨h.mode, h.aligned, .inl rfl⟩
  | sequel => exact ⟨h.mode, h.aligned, .inr rfl⟩
  | get w a => exact h.congr (hr.get w a m) (hk.get w a m)
  | set w a v => exact h.congr (hr.set w a v m) (hk.set w a v m)
  | wait w a k => exact h.congr (hr.waitTime w a k m) (hk.waitTime w a k m)
  | controlRead r => exact h.congr (hr.controlRead r m) (hk.controlRead r m)
  | controlWrite r v => exact h.congr (hr.controlWrite r v m) (hk.controlWrite r v m)
  | softwareCall n => exact h.congr (hr.softwareCall n m) (hk.softwareCall n m)
  | write v _ => exact h.of_status rfl rfl h.mode
  | @flag x b hx =>
    refine h.of_status rfl ?_ ((Registers.setFlag_status _ b).trans h.mode)
    rw [Registers.isThumb, Registers.flag_setFlag, if_neg]
    · rfl
    · rintro rfl; cases hx
  | conditions v =>
    refine h.of_status rfl ?_ ?_
    · exact Registers.getLsbD_setConditionFlags _ _ (by decide)
    · refine (Mode.ofStatus?_congr fun i hi => ?_).trans h.mode
      exact Registers.getLsbD_setConditionFlags _ _ (by omega)
  | advance =>
    refine ⟨h.mode, ?_, h.fetchKind⟩
    exact Word.dvd_add m.cpu.regs.instructionSize_cases h.aligned
  | jump a => exact jump_wellFormed hr a h.mode
  | exchange thumb a => exact jump_wellFormed hr a ((Registers.setFlag_status _ thumb).trans h.mode)

theorem StatusChange.wellFormed (hb : bus.SparesFetches) (hc : StatusChange bus m m') (h : m.cpu.WellFormed) :
    m'.cpu.WellFormed := by
  cases hc with
  | resume a saved hf =>
    obtain ⟨k, hk, rfl⟩ := Registers.setCpsr_ok _ hf
    exact jump_wellFormed hb.1 a hk
  | status ht hu hf =>
    obtain ⟨k, hk, rfl⟩ := Registers.setCpsr_ok _ hf
    exact h.of_status rfl ht hk
  | saved v =>
    show Processor.WellFormed { m.cpu with regs := m.cpu.regs.setSpsr v }
    unfold Registers.setSpsr
    split_ifs
    · exact h.of_status rfl rfl h.mode
    · exact h

theorem settle_wellFormed (hb : bus.SparesFetches) (h : m.cpu.WellFormed) :
    (Exec.settle bus m).cpu.WellFormed := by
  unfold Exec.settle Bus.checkInterrupt
  split_ifs
  · exact h
  · exact enter_wellFormed hb.1 _ _ m
  · exact h

theorem work_wellFormed (hb : bus.SparesFetches) (h : m.cpu.WellFormed) :
    ((Exec.work bus).final m).cpu.WellFormed := by
  rcases Exec.work_cases bus m with ⟨-, hm⟩ | ⟨n, m₁, -, hw⟩
  · exact hm.keep (·.wellFormed hb) (·.wellFormed hb) h
  · unfold Exec.final
    rw [hw]
    exact enter_wellFormed hb.1 _ _ m₁

theorem step_wellFormed (hb : bus.SparesFetches) (h : m.cpu.WellFormed) :
    ((Exec.step bus).final m).cpu.WellFormed := by
  have hw := work_wellFormed hb h
  unfold Exec.final at hw ⊢
  rw [Exec.step_eq]
  cases hx : Exec.work bus m with
  | ok _ m₁ =>
    rw [hx] at hw
    exact settle_wellFormed hb hw
  | error e m₁ =>
    rw [hx] at hw
    exact hw

/-- A processor about to execute ARM code from a word-aligned address. -/
theorem Processor.WellFormed.of_start {p : Processor} {a : Address} (h : 4 ∣ a.toNat) (hp : p.regs.pc = a + 4)
    (ht : p.regs.flag .thumb = false) (hm : Mode.ofStatus? p.regs.cpsr = some p.regs.mode)
    (hk : p.fetchKind = .nonsequential) : p.WellFormed where
  mode := hm
  aligned := by
    rw [Registers.instructionSize_of_clear ht, hp]
    exact Word.dvd_add (.inr rfl) h
  fetchKind := .inl hk

theorem reset_wellFormed {p : Processor} (h : 4 ∣ p.exceptionBase.toNat) : p.reset.WellFormed := by
  have hc : p.reset.regs.cpsr = 0xD3 := rfl
  refine .of_start h rfl ?_ ?_ rfl
  · rw [Registers.flag, hc]
    decide
  · rw [hc]
    show Mode.ofStatus? 0xD3 = some .supervisor
    decide

/-- A boot program leaves System mode behind, with interrupts enabled. -/
theorem enterProgram_cpsr (p : Processor) (entry : Address) (tops : StackTops) :
    (p.enterProgram entry tops).regs.cpsr = 0x1F := by
  show (((Registers.initial.setFlag .irqDisable false).setFlag .fiqDisable false).setMode .system).cpsr = 0x1F
  decide

theorem enterProgram_wellFormed (p : Processor) {entry : Address} (tops : StackTops)
    (h : 4 ∣ entry.toNat) : (p.enterProgram entry tops).WellFormed := by
  have hc := enterProgram_cpsr p entry tops
  refine .of_start h rfl ?_ ?_ rfl
  · rw [Registers.flag, hc]
    decide
  · rw [hc]
    show Mode.ofStatus? 0x1F = some .system
    decide

theorem run_wellFormed (hb : bus.SparesFetches) (hr : Exec.Run bus m m') (h : m.cpu.WellFormed) :
    m'.cpu.WellFormed := by
  induction hr with
  | refl => exact h
  | tail _ hs ih =>
    subst hs
    exact step_wellFormed hb ih

/-- Resets and boot programs give well-formed processors, and steps keep them well-formed, those that fail
included. -/
theorem wellFormed_throughout (hb : bus.SparesFetches) :
    (∀ m, m.cpu.WellFormed → ((Exec.step bus).final m).cpu.WellFormed) ∧
    (∀ p : Processor, 4 ∣ p.exceptionBase.toNat → p.reset.WellFormed) ∧
    (∀ (p : Processor) (entry : Address) (tops : StackTops), 4 ∣ entry.toNat →
      (p.enterProgram entry tops).WellFormed) ∧
    ∀ m m', Exec.Run bus m m' → m.cpu.WellFormed → m'.cpu.WellFormed :=
  ⟨fun _ h => step_wellFormed hb h, fun _ h => reset_wellFormed h,
    fun p _ tops h => enterProgram_wellFormed p tops h, fun _ _ hr h => run_wellFormed hb hr h⟩

theorem FlatMemory.bus_sparesFetches (a : Architecture) (timing : Width → Address → Access → Nat) :
    (FlatMemory.bus a timing).SparesFetches :=
  ⟨bus_sparesRegisters a timing, (bus_keeps a timing).mono fun _ _ h => congrArg Processor.fetchKind h⟩

/-- A machine about to execute `BX LR`, with the address of THUMB code in the link register. -/
def exchanging : Machine FlatMemory where
  cpu := (Processor.powerOn .v4).mapRegs (·.setLr 0x23)
  system := { ram := ⟨#[0x1E, 0xFF, 0x2F, 0xE1]⟩ }
  journal := #[]

theorem wellFormed_exchanged :
    exchanging.cpu.WellFormed ∧
      ((Exec.step (FlatMemory.evenBus .v4)).final exchanging).cpu.isThumb = true ∧
      ((Exec.step (FlatMemory.evenBus .v4)).final exchanging).cpu.WellFormed ∧
      ∃ m', Exec.Run (FlatMemory.evenBus .v4) exchanging m' ∧ m'.cpu.WellFormed := by
  obtain ⟨stepped, started, -, throughout⟩ :=
    wellFormed_throughout (FlatMemory.bus_sparesFetches .v4 fun _ _ _ => 1)
  have h : exchanging.cpu.WellFormed := by
    obtain ⟨hm, ha, hk⟩ := started { (default : Processor) with exceptionBase := 0 } (by decide)
    exact ⟨hm, ha, hk⟩
  have twice : Exec.Run (FlatMemory.evenBus .v4) exchanging _ := .tail (.single rfl) rfl
  exact ⟨h, by decide +kernel, stepped _ h, _, twice, throughout _ _ twice h⟩

end Lockstep
