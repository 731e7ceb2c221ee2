import Lockstep.Proofs.BlockTransfers

/-!
The base of a transfer of several registers that does not write it back. It keeps its value, as far as it is not loaded
itself, whether or not the transfer fails; but if no register is listed it moves by the size of all sixteen.
-/

namespace Lockstep

variable {σ : Type} {bus : Bus σ}

theorem Registers.setCpsr_cell {f f' : Registers} {v : Word} (h : f.setCpsr v = .ok f') (s : Slot) :
    f'.cell s = f.cell s := by
  obtain ⟨k, -, rfl⟩ := f.setCpsr_ok h
  rfl

theorem Bus.KeepsRegisters.jump_cell (h : bus.KeepsRegisters) (a : Address) (m : Machine σ) (s : Slot) :
    (bus.jump a m).cpu.regs.cell s = m.cpu.regs.cell s := by
  rw [h.jump]
  rfl

namespace Arm

theorem continueAt_cell (h : bus.KeepsRegisters) (returns : Bool) (pc : Option Word) (m : Machine σ) (s : Slot) :
    ((continueAt bus returns pc).final m).cpu.regs.cell s = m.cpu.regs.cell s := by
  cases pc with
  | none => rfl
  | some target =>
    simp only [continueAt, Exec.final_bind, Exec.get_eq]
    split_ifs with restores
    · rw [Exec.final_bind, Exec.setCpsr_eq]
      cases restored : m.cpu.regs.setCpsr m.cpu.regs.spsr with
      | ok f => exact (h.jump_cell target _ s).trans (Registers.setCpsr_cell restored s)
      | error e => rfl
    · show (bus.setRegLoaded Register.pc target m).cpu.regs.cell s = _
      rw [Bus.setRegLoaded, if_pos rfl]
      split_ifs
      · exact h.jump_cell target (m.setFlag .thumb (target.getLsbD 0)) s
      · exact h.jump_cell target m s

theorem loadEach_cell (h : bus.KeepsRegisters) (user : Bool) {rs : List Register} {s : Slot} (apart : s.number ∉ rs)
    (pc : Option Word) (a : Address) (k : Access) (m : Machine σ) :
    (loadEach bus user pc rs a k m).2.cpu.regs.cell s = m.cpu.regs.cell s := by
  induction rs generalizing pc a k m with
  | nil => rfl
  | cons r rs ih =>
    obtain ⟨other, later⟩ := not_or.mp (mt List.mem_cons.mpr apart)
    have named (k : Mode) : k.slot? r ≠ some s := fun same => other (Mode.number_slot same)
    rw [loadEach_cons, ih later]
    exact (Registers.cell_put (named _) _).trans (congrArg (·.cell s) (h.read .word a k m))

theorem storeEach_regs (h : bus.KeepsRegisters) (user : Bool) {early : Register → Bool} (never : ∀ r, early r = false)
    (final : Word) (rs : List Register) (a : Address) (k : Access) (m : Machine σ) :
    (storeEach bus user early final rs a k m).cpu.regs = m.cpu.regs := by
  induction rs generalizing a k m with
  | nil => rfl
  | cons r rs ih =>
    have own : writeEarly early final r = id := by
      funext f
      rw [writeEarly, never, if_neg Bool.false_ne_true, id]
    rw [storeEach_cons bus user fun now => absurd ((never r).symm.trans now) Bool.false_ne_true, own, ih]
    exact h.write .word a _ k _

/-- The base is written whether or not the transfer asks for it. -/
theorem transferNone_cells (h : bus.KeepsRegisters) {n : Register} (based : n ≠ Register.pc) (store up before : Bool)
    (m : Machine σ) (s : Slot) :
    (bus.transferNone n store up before m).cpu.regs.cell s =
      (m.cpu.regs.put m.cpu.regs.mode n (Word.offset (m.reg n) 0x40 up)).cell s := by
  have moved : bus.setReg n (Word.offset (m.reg n) 0x40 up) m =
      m.mapRegs fun f => f.put f.mode n (Word.offset (m.reg n) 0x40 up) := by
    rw [Bus.setReg, if_neg based]
    simp only [Registers.put_mode based]
  unfold Bus.transferNone
  simp only [moved]
  split_ifs
  · rfl
  · exact congrArg (·.cell s) (h.write ..)
  · exact (h.jump_cell _ _ s).trans (congrArg (·.cell s) (h.read ..))

namespace Block

variable {b : Block}

theorem moveBlock_cell (h : bus.KeepsRegisters) (fixed : b.i.writeback = false) {s : Slot}
    (unloaded : ¬ b.Loads s.number) (m : Machine σ) :
    (moveBlock bus b.load b.n b.list b.user b.i m).2.cpu.regs.cell s = m.cpu.regs.cell s := by
  cases load : b.load with
  | true =>
    rw [← load, moveBlock_load bus load]
    exact loadEach_cell h _ (fun listed => unloaded ⟨load, listed⟩) ..
  | false =>
    have never : ∀ r, storesFinal bus.isV5 b.i.writeback b.n b.registers r = false := by
      intro r
      rw [storesFinal, fixed, Bool.false_and, Bool.false_and, Bool.false_and]
    rw [← load, moveBlock_store bus load]
    exact congrArg (·.cell s) (storeEach_regs h _ never ..)

/-- The end of a transfer of some registers. -/
theorem rest_cell (h : bus.KeepsRegisters) (listed : b.list ≠ 0) (pc : Option Word) (m : Machine σ) (s : Slot) :
    ((b.rest bus pc).final m).cpu.regs.cell s = m.cpu.regs.cell s := by
  have continued := continueAt_cell h (b.user && b.load && b.list.getLsbD 15) pc m s
  unfold Exec.final at continued
  rw [rest, Exec.final_bind]
  cases outcome : continueAt bus (b.user && b.load && b.list.getLsbD 15) pc m with
  | ok _ m₁ =>
    rw [outcome] at continued
    exact (congrArg (·.cell s) (finishBlock_same bus listed m₁).2).trans continued
  | error e m₁ =>
    rw [outcome] at continued
    exact continued

/-- The end of a transfer of none. -/
theorem rest_none (none : b.list = 0) (m : Machine σ) :
    ((b.rest bus .none).final m).cpu.regs = (bus.transferNone b.n (!b.load) b.i.up b.i.before m).cpu.regs := by
  have empty : (Register.ofList b.list).isEmpty = true := by
    rw [none]
    decide
  rw [rest, Exec.final_bind]
  show (finishBlock bus b.load b.n b.list b.i m).cpu.regs = _
  rw [finishBlock, empty]
  cases b.load <;> rfl

/-- The cell of the base, if the base is not written back. -/
theorem final_base (h : bus.KeepsRegisters) (fixed : b.i.writeback = false) {m : Machine σ} {s : Slot}
    (based : m.cpu.regs.mode.slot? b.n = some s) (unloaded : ¬ b.Loads b.n) :
    ((blockTransfer bus b.load b.n b.list b.user b.i).final m).cpu.regs.cell s =
      if b.list = 0 then Word.offset (m.reg b.n) 0x40 b.i.up else m.reg b.n := by
  have counter : b.n ≠ Register.pc := by
    intro same
    rw [(Mode.slot?_eq_none _ _).mpr same] at based
    cases based
  have named : s.number = b.n := Mode.number_slot based
  have parts : (blockTransfer bus b.load b.n b.list b.user b.i).final m =
      (b.rest bus (moveBlock bus b.load b.n b.list b.user b.i m).1).final
        (moveBlock bus b.load b.n b.list b.user b.i m).2 := by
    have unsettled : b.settle bus.isV5 (b.final m.cpu.regs) = id :=
      funext fun _ => if_neg fun moves => absurd (fixed.symm.trans moves.1) Bool.false_ne_true
    rw [Exec.final, blockTransfer_parts bus counter m, unsettled]
    rfl
  rw [parts]
  split_ifs with none
  · have unmoved : moveBlock bus b.load b.n b.list b.user b.i m = (.none, m) := by
      have empty : Register.ofList b.list = [] := by
        rw [none]
        decide
      rw [moveBlock, empty]
      cases b.load <;> rfl
    rw [unmoved, rest_none none, transferNone_cells h counter, Registers.put, based]
    exact (Registers.cell_setCell ..).trans (if_pos rfl)
  · rw [rest_cell h none, moveBlock_cell h fixed (named ▸ unloaded)]
    exact (Registers.readAs_eq based).symm

end Block

/-- A load or store of several registers that does not write its base back leaves the base as it was, as long as it
does not load it and lists any register at all. If none are listed the base moves nevertheless, by 64 bytes. -/
theorem unwritten_base (h : bus.KeepsRegisters) {w : Word} (block : w.extractLsb' 25 3 = 0b100)
    (fixed : w.getLsbD 21 = false) (based : register w 16 ≠ Register.pc)
    (unloaded : ¬ (Block.ofWord w).Loads (register w 16)) (m : Machine σ) :
    let b := Block.ofWord w
    let moves := executes bus.isV5 m.cpu.regs w = true ∧ b.list = 0
    let base := ((execute bus w).final m).cpu.regs.readAs m.cpu.regs.mode b.n
    base = (if moves then Word.offset (m.reg b.n) 0x40 b.i.up else m.reg b.n) ∧ (base = m.reg b.n ↔ ¬ moves) := by
  intro b moves base
  obtain ⟨s, named⟩ : ∃ s, m.cpu.regs.mode.slot? b.n = some s :=
    Option.ne_none_iff_exists'.mp (based ∘ (Mode.slot?_eq_none _ _).mp)
  have value : base = if moves then Word.offset (m.reg b.n) 0x40 b.i.up else m.reg b.n := by
    simp only [base, Registers.readAs_eq named]
    unfold Exec.final
    rw [execute_eq]
    by_cases runs : executes bus.isV5 m.cpu.regs w = true
    · simp only [moves, runs, true_and, if_true, Block.decode_ofWord _ block]
      exact Block.final_base (b := b) h fixed named unloaded
    · rw [if_neg runs, if_neg fun both => runs both.1]
      exact (Registers.readAs_eq named).symm
  refine ⟨value, ?_⟩
  have apart : Word.offset (m.reg b.n) 0x40 b.i.up ≠ m.reg b.n := by
    unfold Word.offset
    split_ifs <;> bv_omega
  rw [value]
  split_ifs with moved
  · exact ⟨fun same => absurd same apart, fun still => absurd moved still⟩
  · exact ⟨fun _ => moved, fun _ => rfl⟩

/-- A machine with an address in r1. -/
def pointing (a : Architecture) : Machine FlatMemory where
  cpu := (Processor.powerOn a).mapRegs fun f => { f.write (register 1 0) 0x200 with pc := 0x108 }
  system := { ram := ⟨Array.replicate 1024 0⟩ }
  journal := #[]

/-- `LDMIA r1, {r0, r2}` keeps r1. -/
theorem pointing_keeps :
    let w : Word := 0xE8910005
    let bus := FlatMemory.evenBus .v4
    bus.KeepsRegisters ∧ w.extractLsb' 25 3 = 0b100 ∧ w.getLsbD 21 = false ∧ register w 16 ≠ Register.pc ∧
      ¬ (Block.ofWord w).Loads (register w 16) ∧
      ((execute bus w).final (pointing .v4)).cpu.regs.readAs (pointing .v4).cpu.regs.mode (register w 16) = 0x200 := by
  intro w bus
  have keeps : bus.KeepsRegisters := FlatMemory.bus_keepsRegisters _ _
  have block : w.extractLsb' 25 3 = 0b100 := by decide
  have fixed : w.getLsbD 21 = false := by decide
  have based : register w 16 ≠ Register.pc := by decide
  have unloaded : ¬ (Block.ofWord w).Loads (register w 16) := by decide
  refine ⟨keeps, block, fixed, based, unloaded, ?_⟩
  have kept := (unwritten_base keeps block fixed based unloaded (pointing .v4)).2.mpr (by decide)
  have old : (pointing .v4).reg (Block.ofWord w).n = 0x200 := by decide +kernel
  exact kept.trans old

/-- `LDMIA r1, {}` moves r1, on either architecture. -/
theorem pointing_moves :
    let w : Word := 0xE8910000
    w.extractLsb' 25 3 = 0b100 ∧ w.getLsbD 21 = false ∧ register w 16 = 1 ∧ ¬ (Block.ofWord w).Loads 1 ∧
      ∀ a, (pointing a).cpu.regs.read 1 = 0x200 ∧
        ((execute (FlatMemory.evenBus a) w).final (pointing a)).cpu.regs.read 1 = 0x240 := by
  intro w
  refine ⟨by decide, by decide, by decide, by decide, fun a => ?_⟩
  cases a <;> exact ⟨by decide +kernel, by decide +kernel⟩

end Arm

end Lockstep
