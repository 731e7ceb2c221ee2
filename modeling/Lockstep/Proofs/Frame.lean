import Lockstep.FlatMemory
import Lockstep.Proofs.StepMoves

/-!
What a system may do to the processor that calls it, and what the processor's own fetches, refills and
handler entries then do to the registers.
-/

namespace Lockstep

variable {σ : Type}

/-- Waiting for an access relates the machine before to the machine after. -/
def Bus.KeepsWaiting (bus : Bus σ) (R : Machine σ → Machine σ → Prop) : Prop :=
  ∀ w a k m, R m (bus.waitTime w a k m).2

/-- So do all calls of the bus that reads and fetches make. -/
structure Bus.KeepsReading (bus : Bus σ) (R : Machine σ → Machine σ → Prop) : Prop where
  get : ∀ w a m, R m (bus.get w a m).2
  waitTime : bus.KeepsWaiting R

structure Bus.Keeps (bus : Bus σ) (R : Machine σ → Machine σ → Prop) : Prop extends
    bus.KeepsReading R where
  set : ∀ w a v m, R m (bus.set w a v m)
  softwareCall : ∀ n m, R m ((bus.softwareCall n).final m)
  controlRead : ∀ r m, R m (bus.controlRead r m).2
  controlWrite : ∀ r v m, R m (bus.controlWrite r v m).2

/-- Two files that differ at most in r0 to r7. -/
structure Registers.SameAbove (f f' : Registers) : Prop where
  cells : ∀ s, (∀ i, s ≠ .low i) → f'.cell s = f.cell s
  saved : f'.saved = f.saved
  pc : f'.pc = f.pc
  cpsr : f'.cpsr = f.cpsr
  mode : f'.mode = f.mode

namespace Registers.SameAbove

variable {f g h : Registers}

theorem refl (f : Registers) : f.SameAbove f := ⟨fun _ _ => rfl, rfl, rfl, rfl, rfl⟩

theorem trans (a : f.SameAbove g) (b : g.SameAbove h) : f.SameAbove h :=
  ⟨fun s hs => (b.cells s hs).trans (a.cells s hs), b.saved.trans a.saved, b.pc.trans a.pc,
    b.cpsr.trans a.cpsr, b.mode.trans a.mode⟩

theorem withPc (a : f.SameAbove g) (v : Word) : SameAbove { f with pc := v } { g with pc := v } :=
  ⟨a.cells, a.saved, rfl, a.cpsr, a.mode⟩

theorem flag (a : f.SameAbove g) (x : Flag) : g.flag x = f.flag x := by
  rw [Registers.flag, Registers.flag, a.cpsr]

theorem instructionSize (a : f.SameAbove g) : g.instructionSize = f.instructionSize := by
  rw [Registers.instructionSize, Registers.instructionSize, Registers.isThumb, Registers.isThumb, a.flag]

end Registers.SameAbove

abbrev Machine.SameAbove (m m' : Machine σ) : Prop := m.cpu.regs.SameAbove m'.cpu.regs

def Registers.entering (f : Registers) (kind : Exception) (returnTo : Address) : Registers :=
  let old := f.cpsr
  let f := ((f.setMode kind.mode).setFlag .thumb false).setFlag .irqDisable true
  let f := if kind.masksFiq then f.setFlag .fiqDisable true else f
  (f.setLr returnTo).setSpsr old

namespace Registers

variable (f : Registers) (kind : Exception) (returnTo : Address)

theorem entering_eq :
    f.entering kind returnTo =
      let g := ((f.setMode kind.mode).setFlag .thumb false).setFlag .irqDisable true
      let g := if kind.masksFiq then g.setFlag .fiqDisable true else g
      { g.setCell (.link kind.mode.bank) returnTo with
        saved := f.saved.set kind.mode.bank.index f.cpsr } := by
  cases kind <;> rfl

theorem entering_withPc (pc : Address) :
    ({ f with pc } : Registers).entering kind returnTo = { f.entering kind returnTo with pc } := by
  cases kind <;> rfl

@[simp] theorem entering_mode : (f.entering kind returnTo).mode = kind.mode := by
  cases kind <;> rfl

theorem entering_saved :
    (f.entering kind returnTo).saved = f.saved.set kind.mode.bank.index f.cpsr := by
  rw [entering_eq]

def bankedSpsr (b : Bank) : Word := f.saved.get b.index

theorem bankedSpsr_entering (b : Bank) :
    (f.entering kind returnTo).bankedSpsr b =
      if b = kind.mode.bank then f.cpsr else f.bankedSpsr b := by
  rw [bankedSpsr, entering_saved]
  by_cases h : b = kind.mode.bank
  · subst h
    rw [if_pos rfl]
    exact Vector.getElem_set_self _
  · rw [if_neg h]
    exact Vector.getElem_set_ne _ _ fun e => h (Bank.index_inj.1 (Fin.ext e)).symm

theorem cell_entering (s : Slot) :
    (f.entering kind returnTo).cell s = if s = .link kind.mode.bank then returnTo else f.cell s := by
  rw [← cell_setCell]
  cases kind <;> rfl

theorem entering_hasSaved : (f.entering kind returnTo).mode.hasSaved = true := by
  rw [entering_mode]
  cases kind <;> rfl

theorem entering_bank : (f.entering kind returnTo).bank = kind.mode.bank :=
  congrArg Mode.bank (f.entering_mode kind returnTo)

theorem entering_spsr : (f.entering kind returnTo).spsr = f.cpsr := by
  rw [spsr, entering_hasSaved, if_pos rfl]
  refine (f.bankedSpsr_entering kind returnTo (f.entering kind returnTo).bank).trans ?_
  rw [entering_bank, if_pos rfl]

theorem entering_lr : (f.entering kind returnTo).lr = returnTo := by
  rw [lr, entering_bank, cell_entering, if_pos rfl]

theorem getLsbD_entering (i : Nat) :
    (f.entering kind returnTo).cpsr.getLsbD i =
      if kind.masksFiq ∧ i = 6 then true else if i = 7 then true else if i = 5 then false
      else (f.setMode kind.mode).cpsr.getLsbD i := by
  rw [entering_eq]
  cases kind.masksFiq with
  | false =>
    simp only [Bool.false_eq_true, false_and, if_false]
    rw [setCell_cpsr, getLsbD_setFlag, getLsbD_setFlag]
    rfl
  | true =>
    simp only [true_and, if_true]
    rw [setCell_cpsr, getLsbD_setFlag, getLsbD_setFlag, getLsbD_setFlag]
    rfl

theorem entering_thumb : (f.entering kind returnTo).flag .thumb = false := by
  rw [flag, getLsbD_entering]
  simp [Flag.position]

theorem instructionSize_of_clear {f : Registers} (h : f.flag .thumb = false) : f.instructionSize = 4 := by
  rw [instructionSize, isThumb, h]
  rfl

theorem entering_irqDisable : (f.entering kind returnTo).flag .irqDisable = true := by
  rw [flag, getLsbD_entering]
  simp [Flag.position]

theorem entering_status : Mode.ofStatus? (f.entering kind returnTo).cpsr = some kind.mode := by
  rw [← setMode_status f kind.mode]
  refine Mode.ofStatus?_congr fun i hi => ?_
  rw [getLsbD_entering, if_neg (by omega), if_neg (by omega), if_neg (by omega)]

end Registers

/-- About to execute a handler at a distance from the exception base. A base that is not aligned is rounded down. -/
def Processor.Vectors (p : Processor) (base : Address) (distance : Word) : Prop :=
  p.nextAddress = Word.alignDown (base + distance) 4 ∧ (4 ∣ base.toNat → p.nextAddress = base + distance)

namespace Bus

variable (bus : Bus σ)

theorem enter_eq (kind : Exception) (returnTo : Address) (m : Machine σ) :
    bus.enter kind returnTo m =
      bus.jump (m.cpu.exceptionBase + kind.vector) (m.mapRegs (·.entering kind returnTo)) := rfl

def SparesRegisters : Prop := bus.Keeps Machine.SameAbove

def landing (f : Registers) (a : Address) : Address := Word.alignDown a f.instructionSize

variable {bus}

/-- A jump waits twice and then writes the program counter. -/
theorem jump_keeps {R : Machine σ → Machine σ → Prop} (h : bus.KeepsWaiting R)
    (trans : ∀ {m₁ m₂ m₃}, R m₁ m₂ → R m₂ m₃ → R m₁ m₃) (a : Address) (m : Machine σ) :
    ∃ m' n, R m m' ∧ bus.jump a m = m'.mapCpu fun p => { p with
      regs := { p.regs with pc := landing m.cpu.regs a + m.cpu.regs.instructionSize }
      timestamp := p.timestamp + n
      fetchKind := .sequel } :=
  ⟨_, _, trans (h _ _ _ m) (h _ _ _ _), rfl⟩

theorem jump_sameAbove (h : bus.KeepsWaiting Machine.SameAbove) (a : Address) (m : Machine σ) :
    ({ m.cpu.regs with pc := landing m.cpu.regs a + m.cpu.regs.instructionSize } : Registers).SameAbove
      (bus.jump a m).cpu.regs := by
  obtain ⟨m', n, same, hj⟩ := jump_keeps h Registers.SameAbove.trans a m
  rw [hj]
  exact same.withPc _

theorem jump_nextAddress (h : bus.KeepsWaiting Machine.SameAbove) (a : Address) (m : Machine σ) :
    (bus.jump a m).cpu.nextAddress = landing m.cpu.regs a := by
  have h := jump_sameAbove h a m
  rw [Processor.nextAddress, h.instructionSize, h.pc]
  exact BitVec.add_sub_cancel _ _

theorem enter_vectors (h : bus.KeepsWaiting Machine.SameAbove) (kind : Exception) (a : Address)
    (m : Machine σ) : (bus.enter kind a m).cpu.Vectors m.cpu.exceptionBase kind.vector := by
  have hn : (bus.enter kind a m).cpu.nextAddress = Word.alignDown (m.cpu.exceptionBase + kind.vector) 4 := by
    have h4 : (m.mapRegs (·.entering kind a)).cpu.regs.instructionSize = 4 :=
      Registers.instructionSize_of_clear (Registers.entering_thumb m.cpu.regs kind a)
    rw [enter_eq, jump_nextAddress h, landing, h4]
  refine ⟨hn, fun aligned => hn.trans (Word.alignDown_eq_self (.inr rfl) ?_)⟩
  have hv : 4 ∣ kind.vector.toNat := by cases kind <;> decide
  show 4 ∣ (m.cpu.exceptionBase + kind.vector).toNat
  rw [BitVec.toNat_add]
  exact (Nat.dvd_mod_iff (by decide)).2 (Nat.dvd_add aligned hv)

end Bus

/-- What a fetch gets is the next instruction, two places before the one that it waits for. -/
theorem Processor.fetch_address (p : Processor) :
    p.regs.pc + p.regs.instructionSize - p.regs.instructionSize * 2 = p.nextAddress := by
  rw [nextAddress]
  bv_omega

/-- A fetch moves the program counter, waits, and gets memory. -/
theorem Exec.fetched_keeps {bus : Bus σ} {R : Machine σ → Machine σ → Prop} (h : bus.KeepsReading R)
    (trans : ∀ {m₁ m₂ m₃}, R m₁ m₂ → R m₂ m₃ → R m₁ m₃)
    (congr : ∀ {m m₁ m₂}, R m m₁ → m₂.cpu.regs = m₁.cpu.regs →
      m₂.cpu.interrupts = m₁.cpu.interrupts → m₂.cpu.exceptionBase = m₁.cpu.exceptionBase →
      m₂.system = m₁.system → R m m₂) (m : Machine σ) :
    R (m.mapRegs fun f => { f with pc := f.pc + f.instructionSize }) (fetched bus m).2 := by
  let w := Bus.fetchWidth m
  let ahead := m.cpu.regs.pc + m.cpu.regs.instructionSize
  let moved := m.mapRegs fun f => { f with pc := f.pc + f.instructionSize }
  let waited := (bus.wait w ahead m.cpu.fetchKind.asCode moved).setFetchKind .sequel
  have waits : R moved waited := congr (h.waitTime w ahead m.cpu.fetchKind.asCode moved) rfl rfl rfl rfl
  have gets : R waited (bus.fetch m).2 := h.get w (ahead - m.cpu.regs.instructionSize * 2) waited
  have hc := trace_cpu bus (bus.fetch m).2 m.cpu.isThumb (bus.fetch m).1
  have hs := trace_system bus (bus.fetch m).2 m.cpu.isThumb (bus.fetch m).1
  exact congr (trans waits gets) (congrArg (·.regs) hc) (congrArg (·.interrupts) hc)
    (congrArg (·.exceptionBase) hc) hs

/-- The bus of a flat memory with one cycle for each access. -/
def FlatMemory.evenBus (a : Architecture) : Bus FlatMemory := FlatMemory.bus a fun _ _ _ => 1

/-- A flat memory has no way to the processor. -/
theorem FlatMemory.bus_keeps (a : Architecture) (timing : Width → Address → Access → Nat) :
    (FlatMemory.bus a timing).Keeps fun m m' => m'.cpu = m.cpu where
  get _ _ _ := rfl
  set _ _ _ _ := rfl
  waitTime _ _ _ _ := rfl
  softwareCall _ _ := rfl
  controlRead _ _ := rfl
  controlWrite _ _ _ := rfl

theorem Bus.Keeps.mono {bus : Bus σ} {R S : Machine σ → Machine σ → Prop} (h : bus.Keeps R)
    (hRS : ∀ m m', R m m' → S m m') : bus.Keeps S where
  get w a m := hRS _ _ (h.get w a m)
  set w a v m := hRS _ _ (h.set w a v m)
  waitTime w a k m := hRS _ _ (h.waitTime w a k m)
  softwareCall n m := hRS _ _ (h.softwareCall n m)
  controlRead r m := hRS _ _ (h.controlRead r m)
  controlWrite r v m := hRS _ _ (h.controlWrite r v m)

theorem FlatMemory.bus_sparesRegisters (a : Architecture) (timing : Width → Address → Access → Nat) :
    (FlatMemory.bus a timing).SparesRegisters := by
  refine (bus_keeps a timing).mono fun m m' h => ?_
  rw [Machine.SameAbove, h]
  exact .refl _

end Lockstep
