import Lockstep.Proofs.Blind
import Lockstep.Proofs.ThumbAsArm
import Lockstep.Proofs.TransferCounterpart

/-!
THUMB transfers are ARM transfers. From machines alike but for the program counter and the instruction set, a
halfword and its counterpart ask the same of a system that does not look at the registers, and come to machines that
are again alike.
-/

namespace Lockstep

open Registers (Part)

variable {σ : Type} {bus : Bus σ} {hidden : Part → Prop} {m m' : Machine σ}

/-- The parts of the registers that tell where the code is and in which instruction set. -/
def Registers.Part.IsCode : Part → Prop
  | .pc => True
  | .status i => i = Flag.thumb.position
  | .cell _ | .saved _ | .mode => False

theorem Bank.exists_index (i : Fin 6) : ∃ b : Bank, b.index = i := by
  have all : ∀ i : Fin 6, ∃ b ∈ Bank.all, b.index = i := by decide
  obtain ⟨b, -, hb⟩ := all i
  exact ⟨b, hb⟩

theorem Slot.exists_index (i : Fin 30) : ∃ s : Slot, s.index = i := by
  obtain h | h | h | h | h : i.val < 8 ∨ (8 ≤ i.val ∧ i.val < 13) ∨ (13 ≤ i.val ∧ i.val < 18) ∨
      (18 ≤ i.val ∧ i.val < 24) ∨ 24 ≤ i.val := by omega
  · exact ⟨.low ⟨i.val, h⟩, rfl⟩
  · exact ⟨.high ⟨i.val - 8, by omega⟩, Fin.ext (Nat.add_sub_of_le h.1)⟩
  · exact ⟨.fast ⟨i.val - 13, by omega⟩, Fin.ext (Nat.add_sub_of_le h.1)⟩
  · obtain ⟨b, hb⟩ := Bank.exists_index ⟨i.val - 18, by omega⟩
    exact ⟨.stack b, Fin.ext ((congrArg (18 + ·.val) hb).trans (Nat.add_sub_of_le h.1))⟩
  · obtain ⟨b, hb⟩ := Bank.exists_index ⟨i.val - 24, by omega⟩
    exact ⟨.link b, Fin.ext ((congrArg (24 + ·.val) hb).trans (Nat.add_sub_of_le h))⟩

namespace Machine

theorem SameButCode.alike (h : m.SameButCode m') : m.Alike Part.IsCode m' := by
  refine ⟨⟨h.interrupts, h.halted, h.timestamp, h.exceptionBase, h.system, h.journal⟩, fun p shown => ?_⟩
  cases p with
  | cell s => exact congrArg (·[s.index]) h.cells
  | saved b => exact congrArg (·.get b.index) h.saved
  | pc => exact absurd trivial shown
  | status i => exact h.cpsr i shown
  | mode => exact h.mode

theorem Alike.sameButCode (h : m.Alike Part.IsCode m') (kind : m'.cpu.fetchKind = m.cpu.fetchKind) :
    m.SameButCode m' where
  cells := by
    refine Vector.ext fun i hi => ?_
    obtain ⟨s, hs⟩ := Slot.exists_index ⟨i, hi⟩
    obtain rfl := congrArg Fin.val hs
    exact h.parts (.cell s) id
  saved := by
    refine Vector.ext fun i hi => ?_
    obtain ⟨b, hb⟩ := Bank.exists_index ⟨i, hi⟩
    obtain rfl := congrArg Fin.val hb
    exact h.parts (.saved b) id
  mode := h.parts .mode id
  cpsr i hi := h.parts (.status i) hi
  fetchKind := kind
  interrupts := h.beside.interrupts
  halted := h.beside.halted
  timestamp := h.beside.timestamp
  exceptionBase := h.beside.exceptionBase
  system := h.beside.system
  journal := h.beside.journal

end Machine

namespace Thumb

theorem low_eq (m : Machine σ) (r : LowRegister) : low m r = m.cpu.regs.cell (.low r) := by
  simp only [low, Machine.reg, Registers.read, Registers.readAs, Registers.slot?_wide]

theorem setLow_eq (m : Machine σ) (r : LowRegister) (v : Word) :
    setLow r v m = m.mapRegs (·.setCell (.low r) v) := by
  simp only [setLow, Machine.mapRegs, Machine.mapCpu, Processor.mapRegs, Registers.write, Registers.slot?_wide]

end Thumb

namespace Machine.Alike

variable (alike : m.Alike hidden m')
include alike

theorem low {r : LowRegister} (shown : ¬ hidden (.cell (.low r))) : Thumb.low m' r = Thumb.low m r := by
  rw [Thumb.low_eq, Thumb.low_eq]
  exact alike.parts (.cell (.low r)) shown

theorem setLow (r : LowRegister) (v : Word) : (Thumb.setLow r v m).Alike hidden (Thumb.setLow r v m') := by
  rw [Thumb.setLow_eq, Thumb.setLow_eq]
  exact (alike.setCell (.low r) v).mono fun _ hid => hid.1

theorem bank (shown : ¬ hidden .mode) : m'.cpu.regs.bank = m.cpu.regs.bank :=
  congrArg Mode.bank (alike.parts .mode shown)

theorem sp (mode : ¬ hidden .mode) (stack : ∀ b, ¬ hidden (.cell (.stack b))) :
    m'.cpu.regs.sp = m.cpu.regs.sp := by
  rw [Registers.sp, alike.bank mode]
  exact alike.parts (.cell (.stack m.cpu.regs.bank)) (stack _)

theorem setSp (mode : ¬ hidden .mode) (v : Word) :
    (m.mapRegs (·.setSp v)).Alike hidden (m'.mapRegs (·.setSp v)) := by
  have same : m'.mapRegs (·.setSp v) = m'.mapRegs (·.setCell (.stack m.cpu.regs.bank) v) :=
    congrArg (fun b => m'.mapRegs (·.setCell (.stack b) v)) (alike.bank mode)
  rw [same]
  exact (alike.setCell (.stack m.cpu.regs.bank) v).mono fun _ hid => hid.1

omit alike

/-- After a cycle of its own a processor fetches out of sequence. -/
theorem resume (alike : m.Alike Part.IsCode m') : m.idleNonsequential.SameButCode m'.idleNonsequential :=
  (((alike.idle 1).setFetchKind_left .nonsequential).setFetchKind_right .nonsequential).sameButCode rfl

end Machine.Alike

/-- What is loaded into a low register is a function of what was read. -/
theorem Machine.AlikeWith.setLow {x x' : Word × Machine σ} (read : AlikeWith hidden x x') (r : LowRegister)
    (f : Word → Word) : (Thumb.setLow r (f x.1) x.2).Alike hidden (Thumb.setLow r (f x'.1) x'.2) := by
  rw [read.1]
  exact read.2.setLow r _

namespace Thumb

/-- Low registers are loaded and stored by both instruction sets in the same way. -/
theorem loadInto_onArm {op : TransferOp} (load : op.isLoad = true) (d : LowRegister) (a : Address) (m : Machine σ) :
    Arm.loadInto bus op.kind d.wide a m = loadInto bus op d a m := by
  have hd := wide_ne_pc d
  cases op with
  | loadWord => exact if_neg hd
  | loadHalf | loadByte | loadSignedByte | loadSignedHalf => exact bus.setReg_of_ne _ hd _
  | storeWord | storeHalf | storeByte => cases load

theorem storeFrom_onArm {op : TransferOp} (store : op.isLoad = false) (d : LowRegister) (a : Address)
    (m : Machine σ) : Arm.storeFrom bus op.kind d.wide a m = storeFrom bus op d a m := by
  have late : m.regLate d.wide = low m d := if_neg (wide_ne_pc d)
  cases op with
  | storeWord => exact congrArg (bus.write .word a · .nonsequential m) late
  | storeHalf => exact congrArg (bus.write .half a · .nonsequential m) late
  | storeByte => exact congrArg (bus.write .byte a · .nonsequential m) late
  | loadWord | loadHalf | loadByte | loadSignedByte | loadSignedHalf => cases store

theorem transfer_onArm (op : TransferOp) (d : LowRegister) (n : Register) (offset : Arm.Offset) (m : Machine σ) :
    Arm.transfer bus op.kind n d.wide offset Arm.upwards m =
      let a := m.reg n + offset.distance m
      if op.isLoad then ((loadInto bus op d a m).setFetchKind .nonsequential).idle 1
      else (storeFrom bus op d a m).setFetchKind .nonsequential := by
  have kind : op.kind.isLoad = op.isLoad := by cases op <;> rfl
  rw [Arm.transfer, kind]
  cases hop : op.isLoad with
  | true =>
    refine congrArg (fun m : Machine σ => (m.setFetchKind .nonsequential).idle 1) ?_
    exact loadInto_onArm hop d _ m
  | false =>
    refine congrArg (fun m : Machine σ => m.setFetchKind .nonsequential) ?_
    exact storeFrom_onArm hop d _ m

variable (blind : bus.Blind)
include blind

theorem loadInto_alike (alike : m.Alike hidden m') (op : TransferOp) (d : LowRegister) (a : Address) :
    (loadInto bus op d a m).Alike hidden (loadInto bus op d a m') := by
  cases op with
  | loadWord => exact (blind.readRotated alike a .nonsequential).setLow d id
  | loadHalf => exact (blind.read alike .half a .nonsequential).setLow d id
  | loadByte => exact (blind.read alike .byte a .nonsequential).setLow d id
  | loadSignedByte => exact (blind.read alike .byte a .nonsequential).setLow d fun v => Word.extend (v.setWidth 8)
  | loadSignedHalf => exact (blind.readSignedHalf alike a .nonsequential).setLow d id
  | storeWord | storeHalf | storeByte => exact alike

theorem storeFrom_alike (alike : m.Alike hidden m') (op : TransferOp) {d : LowRegister}
    (shown : ¬ hidden (.cell (.low d))) (a : Address) :
    (storeFrom bus op d a m).Alike hidden (storeFrom bus op d a m') := by
  unfold storeFrom
  rw [alike.low shown]
  cases op with
  | storeWord | storeHalf | storeByte => exact blind.write alike _ a _ .nonsequential
  | loadWord | loadHalf | loadByte | loadSignedByte | loadSignedHalf => exact alike

theorem loadInto_fetchKind (op : TransferOp) (d : LowRegister) (a : Address) (m : Machine σ) :
    (loadInto bus op d a m).cpu.fetchKind = m.cpu.fetchKind := by
  cases op with
  | loadWord => exact blind.readRotated_fetchKind m a _
  | loadHalf | loadByte | loadSignedByte => exact blind.read_fetchKind m _ a _
  | loadSignedHalf => exact blind.readSignedHalf_fetchKind m a _
  | storeWord | storeHalf | storeByte => rfl

theorem storeFrom_fetchKind (op : TransferOp) (d : LowRegister) (a : Address) (m : Machine σ) :
    (storeFrom bus op d a m).cpu.fetchKind = m.cpu.fetchKind := by
  cases op with
  | storeWord | storeHalf | storeByte => exact blind.write_fetchKind m _ a _ _
  | loadWord | loadHalf | loadByte | loadSignedByte | loadSignedHalf => rfl

/-- THUMB sets the kind of the next fetch before the access and ARM after it. -/
theorem transfer_sameButCode (alike : m.Alike Part.IsCode m') (op : TransferOp) (d : LowRegister) {a : Address}
    {n : Register} {offset : Arm.Offset} (place : m'.reg n + offset.distance m' = a) :
    (transfer bus op d a m).SameButCode (Arm.transfer bus op.kind n d.wide offset Arm.upwards m') := by
  subst place
  have started := alike.setFetchKind_left .nonsequential
  rw [transfer_onArm, transfer]
  simp only
  split_ifs
  · have loaded := loadInto_alike blind started op d (m'.reg n + offset.distance m')
    have kind := loadInto_fetchKind blind op d (m'.reg n + offset.distance m') (m.setFetchKind .nonsequential)
    exact ((loaded.setFetchKind_right .nonsequential).idle 1).sameButCode kind.symm
  · have stored := storeFrom_alike blind started op (d := d) id (m'.reg n + offset.distance m')
    have kind := storeFrom_fetchKind blind op d (m'.reg n + offset.distance m') (m.setFetchKind .nonsequential)
    exact (stored.setFetchKind_right .nonsequential).sameButCode kind.symm

omit blind

theorem wide_inj {r s : LowRegister} : r.wide = s.wide ↔ r = s :=
  ⟨fun h => Fin.ext (Fin.mk.inj h), congrArg _⟩

theorem wide_beq (r s : LowRegister) : (r.wide == s.wide) = (r == s) := by
  rw [Bool.eq_iff_iff, beq_iff_eq, beq_iff_eq, wide_inj]

theorem ofList_wide (list : BitVec 8) :
    Register.ofList (list.setWidth 16) = (LowRegister.ofList list).map LowRegister.wide := by
  have split : List.finRange 16 = (List.finRange 8).map LowRegister.wide ++
      (List.finRange 8).map fun i : Fin 8 => (⟨8 + i.val, by omega⟩ : Fin 16) := by decide
  have low : ∀ r ∈ List.finRange 8, (list.setWidth 16).getLsbD (LowRegister.wide r).val = list.getLsbD r.val := by
    intro r _
    rw [BitVec.getLsbD_setWidth, decide_eq_true (LowRegister.wide r).isLt, Bool.true_and]
    rfl
  have high : ∀ r ∈ List.finRange 8, ¬ (list.setWidth 16).getLsbD (8 + r.val) = true := by
    intro r _
    rw [BitVec.getLsbD_setWidth, BitVec.getLsbD_of_ge _ _ (Nat.le_add_right 8 r.val), Bool.and_false]
    exact Bool.false_ne_true
  rw [Register.ofList, split, List.filter_append, List.filter_map, List.filter_map]
  refine (congrArg₂ (· ++ ·) (congrArg _ (List.filter_congr low))
    (congrArg _ (List.filter_eq_nil_iff.mpr high))).trans ?_
  exact List.append_nil _

theorem ofList_isEmpty {list : BitVec 8} (h : list ≠ 0) :
    ((LowRegister.ofList list).map LowRegister.wide).isEmpty = false := by
  rw [List.isEmpty_map, List.isEmpty_eq_false_iff]
  intro none
  refine h (BitVec.eq_of_getLsbD_eq fun i hi => ?_)
  have clear := List.filter_eq_nil_iff.mp none ⟨i, hi⟩ (List.mem_finRange _)
  exact (Bool.eq_false_iff.mpr clear).trans BitVec.getLsbD_zero.symm

theorem ofList_nodup (list : BitVec 8) : (LowRegister.ofList list).Nodup := (List.nodup_finRange 8).filter _

theorem loadEach_onArm (rs : List LowRegister) (a : Address) (k : Access) (m : Machine σ) :
    Arm.loadEach bus false none (rs.map LowRegister.wide) a k m = (none, (loadEach bus rs a k m).2) := by
  induction rs generalizing a k m with
  | nil => rfl
  | cons r rs ih =>
    simp only [List.map_cons, Arm.loadEach, Bool.false_eq_true, if_false, if_neg (wide_ne_pc r)]
    exact ih _ _ _

variable (bus) in
/-- A load ends after the words of all registers. -/
theorem loadEach_end (rs : List LowRegister) (a : Address) (k : Access) (m : Machine σ) :
    (loadEach bus rs a k m).1.1 = a + BitVec.ofNat 32 (4 * rs.length) := by
  induction rs generalizing a k m with
  | nil => exact (BitVec.add_zero a).symm
  | cons r rs ih =>
    refine (ih _ _ _).trans ?_
    rw [List.length_cons, Nat.mul_succ, Nat.add_comm, BitVec.ofNat_add, BitVec.add_assoc]
    rfl

/-- What an ARM instruction does that loads low registers upwards from a base and moves the base. -/
theorem loadMultiple_onArm (n : Register) {list : BitVec 8} (listed : list ≠ 0) (m : Machine σ) :
    Arm.blockTransfer bus true n (list.setWidth 16) false Arm.following m =
      let registers := (LowRegister.ofList list).map LowRegister.wide
      let loaded := (loadEach bus (LowRegister.ofList list) (m.reg n) .nonsequential m).2
      .ok () (if Arm.keepsBase bus.isV5 registers n then loaded
        else bus.setReg n (m.reg n + BitVec.ofNat 32 (4 * registers.length)) loaded).idleNonsequential := by
  have moved : Arm.moveBlock bus true n (list.setWidth 16) false Arm.following m =
      (none, (loadEach bus (LowRegister.ofList list) (m.reg n) .nonsequential m).2) := by
    rw [Arm.moveBlock, ofList_wide]
    exact loadEach_onArm ..
  rw [Arm.blockTransfer_eq, Exec.get_bind]
  simp only [Arm.finishBlock_eq, ofList_wide, ofList_isEmpty listed]
  rw [Exec.modifyGet_bind, moved, Bool.true_and]
  cases Arm.keepsBase bus.isV5 ((LowRegister.ofList list).map LowRegister.wide) n <;> rfl

/-- What an ARM instruction does that stores low registers upwards from a base and moves the base. -/
theorem storeMultiple_onArm (n : Register) {list : BitVec 8} (listed : list ≠ 0) (m : Machine σ) :
    Arm.blockTransfer bus false n (list.setWidth 16) false Arm.following m =
      let registers := (LowRegister.ofList list).map LowRegister.wide
      let final := m.reg n + BitVec.ofNat 32 (4 * registers.length)
      .ok () ((bus.setReg n final (Arm.storeEach bus false (Arm.storesFinal bus.isV5 true n registers) final registers
        (m.reg n) .nonsequential m)).setFetchKind .nonsequential) := by
  rw [Arm.blockTransfer_eq, Exec.get_bind]
  simp only [Arm.finishBlock_eq, ofList_wide, ofList_isEmpty listed]
  rw [Exec.modifyGet_bind, Arm.moveBlock, ofList_wide]
  rfl

theorem keepsBase_wide (v5 : Bool) (rs : List LowRegister) (base : LowRegister) :
    Arm.keepsBase v5 (rs.map LowRegister.wide) base.wide = Arm.keepsBase v5 rs base := by
  have contains : (rs.map LowRegister.wide).contains base.wide = rs.contains base := by
    rw [Bool.eq_iff_iff, List.contains_iff_mem, List.contains_iff_mem, List.mem_map]
    simp only [wide_inj, exists_eq_right]
  have last : ((rs.map LowRegister.wide).getLast? != some base.wide) = (rs.getLast? != some base) := by
    rw [List.getLast?_map]
    cases rs.getLast? with
    | none => rfl
    | some r => exact congrArg not (wide_beq r base)
  rw [Arm.keepsBase, Arm.keepsBase, contains, last, List.length_map]

/-- The stack pointer is not a low register. -/
theorem keepsBase_sp (v5 : Bool) (rs : List LowRegister) :
    Arm.keepsBase v5 (rs.map LowRegister.wide) Register.sp = false := by
  have other : ∀ r : LowRegister, r.wide ≠ Register.sp := by decide
  have contains : (rs.map LowRegister.wide).contains Register.sp = false := by
    rw [Bool.eq_false_iff, ne_eq, List.contains_iff_mem, List.mem_map]
    rintro ⟨r, -, hr⟩
    exact other r hr
  rw [Arm.keepsBase, contains, Bool.false_and]

theorem loadMultiple_eq (base : LowRegister) {list : BitVec 8} (listed : list ≠ 0) (m : Machine σ) :
    loadMultiple bus base list m =
      let registers := LowRegister.ofList list
      let loaded := (loadEach bus registers (low m base) .nonsequential m).2
      (if Arm.keepsBase bus.isV5 registers base then loaded
        else setLow base (low m base + BitVec.ofNat 32 (4 * registers.length)) loaded).idleNonsequential := by
  have several : (LowRegister.ofList list).isEmpty = false := by
    rw [← List.isEmpty_map, ofList_isEmpty listed]
  have final := loadEach_end bus (LowRegister.ofList list) (low m base) .nonsequential m
  unfold loadMultiple
  simp only [several, Bool.false_eq_true, if_false, ← final]
  rfl

section
include blind

theorem loadEach_alike (alike : m.Alike hidden m') (rs : List LowRegister) (a : Address) (k : Access) :
    Machine.AlikeWith hidden (loadEach bus rs a k m) (loadEach bus rs a k m') := by
  induction rs generalizing a k m m' with
  | nil => exact ⟨rfl, alike⟩
  | cons r rs ih => exact ih ((blind.read alike .word a k).setLow r id) (a + 4) .sequel

theorem loadMultiple_sameButCode (alike : m.Alike Part.IsCode m') (base : LowRegister) {list : BitVec 8}
    (listed : list ≠ 0) :
    ∃ n', Arm.blockTransfer bus true base.wide (list.setWidth 16) false Arm.following m' = .ok () n' ∧
      (loadMultiple bus base list m).SameButCode n' := by
  refine ⟨_, loadMultiple_onArm base.wide listed m', ?_⟩
  have start : m'.reg base.wide = low m base := alike.low id
  have loaded := (loadEach_alike blind alike (LowRegister.ofList list) (low m base) .nonsequential).2
  rw [loadMultiple_eq base listed, keepsBase_wide, start, List.length_map]
  refine Machine.Alike.resume ?_
  rw [bus.setReg_of_ne _ (wide_ne_pc base)]
  split_ifs
  · exact loaded
  · exact loaded.setLow base _

theorem pop_sameButCode (alike : m.Alike Part.IsCode m') {list : BitVec 8} (listed : list ≠ 0) :
    ∃ n', Arm.blockTransfer bus true Register.sp (list.setWidth 16) false Arm.following m' = .ok () n' ∧
      (pop bus list false m).SameButCode n' := by
  refine ⟨_, loadMultiple_onArm Register.sp listed m', ?_⟩
  have start : m'.reg Register.sp = m.cpu.regs.sp := alike.sp id fun _ => id
  have loaded := (loadEach_alike blind alike (LowRegister.ofList list) m.cpu.regs.sp .nonsequential).2
  have final := loadEach_end bus (LowRegister.ofList list) m.cpu.regs.sp .nonsequential m
  rw [keepsBase_sp, start, List.length_map, ← final]
  exact Machine.Alike.resume (loaded.setSp id _)

end

/-- What the two machines need not have in common while the registers after the first are stored. On the older
architecture the base among them already has its final value for ARM, but not for THUMB. -/
def StoringBase (v5 : Bool) (base : LowRegister) (p : Part) : Prop :=
  p.IsCode ∨ v5 = false ∧ p = .cell (.low base)

/-- ARM writes the base and stores it, where THUMB stores what the base will be. -/
theorem storeBase_alike {base : LowRegister} (alike : m.Alike (StoringBase bus.isV5 base) m') (r : LowRegister)
    (final : Word) :
    let early := if r == base && !bus.isV5 then bus.setReg r.wide final m' else m'
    m.Alike (StoringBase bus.isV5 base) early ∧
      early.reg r.wide = if r == base && !bus.isV5 then final else low m r := by
  intro early
  by_cases hr : (r == base && !bus.isV5) = true
  -- The base differs from here on, and it is what ARM stores.
  · obtain ⟨same, older⟩ := (Bool.and_eq_true ..).mp hr
    obtain rfl := eq_of_beq same
    have written : early = m'.mapRegs (·.setCell (.low r) final) := by
      rw [← setLow_eq]
      exact (if_pos hr).trans (bus.setReg_of_ne m' (wide_ne_pc r) final)
    rw [if_pos hr, written]
    refine ⟨alike.setCell_right (.inr ⟨Bool.not_eq_true' _ ▸ older, rfl⟩) final, ?_⟩
    refine (low_eq _ r).trans ?_
    exact (m'.cpu.regs.cell_setCell (.low r) (.low r) final).trans (if_pos rfl)
  -- Any other register is the same on both sides.
  · have kept : early = m' := if_neg hr
    rw [if_neg hr, kept]
    refine ⟨alike, alike.low ?_⟩
    rintro (code | ⟨older, same⟩)
    · exact code
    · cases same
      simp [older] at hr

/-- In the end both write the base. -/
theorem setBase_alike {v5 : Bool} {base : LowRegister} (alike : m.Alike (StoringBase v5 base) m') (final : Word) :
    (setLow base final m).Alike Part.IsCode (setLow base final m') := by
  rw [setLow_eq, setLow_eq]
  refine (alike.setCell (.low base) final).mono fun p hid => ?_
  exact hid.1.resolve_right fun same => hid.2 same.2

-- The first register is stored as it is, and those after it are others.

theorem storesFinal_first (v5 : Bool) (n r : Register) (rs : List Register) :
    Arm.storesFinal v5 true n (r :: rs) r = false := by
  simp [Arm.storesFinal]

theorem storesFinal_rest (v5 : Bool) (base r : LowRegister) {rs : List LowRegister} (distinct : (r :: rs).Nodup) :
    ∀ s ∈ rs, Arm.storesFinal v5 true base.wide ((r :: rs).map LowRegister.wide) s.wide = (s == base && !v5) := by
  intro s hs
  have other : (s == r) = false := beq_eq_false_iff_ne.mpr fun same => (List.nodup_cons.mp distinct).1 (same ▸ hs)
  simp [Arm.storesFinal, bne, wide_beq, other]

theorem storeEach_onArm_first {early : Register → Bool} {r : LowRegister} (late : early r.wide = false) (final : Word)
    (rs : List LowRegister) (a : Address) (m : Machine σ) :
    Arm.storeEach bus false early final ((r :: rs).map LowRegister.wide) a .nonsequential m =
      Arm.storeEach bus false early final (rs.map LowRegister.wide) (a + 4) .sequel
        (bus.write .word a (low m r) .nonsequential m) := by
  rw [List.map_cons, Arm.storeEach, late]
  simp only [if_neg (wide_ne_pc r), Bool.false_eq_true, if_false]
  rfl

theorem storeEach_first (base r : LowRegister) (final : Word) (rs : List LowRegister) (a : Address) (m : Machine σ) :
    storeEach bus base final (r :: rs) a .nonsequential m =
      storeEach bus base final rs (a + 4) .sequel (bus.write .word a (low m r) .nonsequential m) := by
  have value : (r == base && Access.nonsequential != Access.nonsequential && !bus.isV5) = false := by
    rw [show (Access.nonsequential != Access.nonsequential) = false from rfl, Bool.and_false, Bool.false_and]
  rw [storeEach, value]
  rfl

section
include blind

theorem storeEach_alike {base : LowRegister} {early : Register → Bool} (final : Word) (rs : List LowRegister)
    (first : ∀ r ∈ rs, early r.wide = (r == base && !bus.isV5))
    (alike : m.Alike (StoringBase bus.isV5 base) m') (a : Address) :
    (storeEach bus base final rs a .sequel m).Alike (StoringBase bus.isV5 base)
      (Arm.storeEach bus false early final (rs.map LowRegister.wide) a .sequel m') := by
  induction rs generalizing a m m' with
  | nil => exact alike
  | cons r rs ih =>
    obtain ⟨after, stored⟩ := storeBase_alike alike r final
    rw [← first r (List.mem_cons_self ..)] at after stored
    have value : (if r == base && Access.sequel != Access.nonsequential && !bus.isV5 then final else low m r) =
        if early r.wide then final else low m r := by
      rw [first r (List.mem_cons_self ..), show (Access.sequel != Access.nonsequential) = true from rfl, Bool.and_true]
    simp only [storeEach, List.map_cons, Arm.storeEach, if_neg (wide_ne_pc r), Bool.false_eq_true, if_false]
    rw [value, stored]
    refine ih (fun r hr => first r (List.mem_cons_of_mem _ hr)) ?_ (a + 4)
    exact blind.write after .word a _ .sequel

theorem storeMultiple_sameButCode (alike : m.Alike Part.IsCode m') (base : LowRegister) {list : BitVec 8}
    (listed : list ≠ 0) :
    ∃ n', Arm.blockTransfer bus false base.wide (list.setWidth 16) false Arm.following m' = .ok () n' ∧
      (storeMultiple bus base list m).SameButCode n' := by
  refine ⟨_, storeMultiple_onArm base.wide listed m', ?_⟩
  have start : m'.reg base.wide = low m base := alike.low id
  have several := ofList_isEmpty listed
  have distinct := ofList_nodup list
  rw [start, storeMultiple]
  generalize LowRegister.ofList list = registers at several distinct ⊢
  cases registers with
  | nil => cases several
  | cons r rs =>
    have head := blind.write alike .word (low m base) (low m r) .nonsequential
    have stored := storeEach_alike blind (low m base + BitVec.ofNat 32 (4 * (r :: rs).length)) rs
      (storesFinal_rest bus.isV5 base r distinct) (head.mono fun _ => .inl) (low m base + 4)
    have late : Arm.storesFinal bus.isV5 true base.wide ((r :: rs).map LowRegister.wide) r.wide = false :=
      storesFinal_first ..
    have value : low m' r = low m r := alike.low id
    simp only [List.length_map, storeEach_first, storeEach_onArm_first late, value,
      bus.setReg_of_ne _ (wide_ne_pc base)]
    refine Machine.Alike.sameButCode ?_ rfl
    refine Machine.Alike.setFetchKind_right (Machine.Alike.setFetchKind_left ?_ .nonsequential) .nonsequential
    exact setBase_alike stored _

omit blind in
theorem onArm_instruction (op : TransferOp) (n d r : Register) :
    ∃ offset, (op.onArm n d r).instruction = .transfer op.kind n d offset Arm.upwards ∧
      ∀ m : Machine σ, offset.distance m = m.reg r := by
  cases op with
  | storeWord | storeByte | loadWord | loadByte => exact ⟨.shifted r .lsl 0, rfl, fun _ => rfl⟩
  | storeHalf | loadHalf | loadSignedByte | loadSignedHalf => exact ⟨.register r, rfl, fun _ => rfl⟩

/-- A halfword of a transfer does what its counterpart does. -/
theorem perform_alike (word : Word) {h : Halfword} (hf : IsTransfer h) (alike : m.Alike Part.IsCode m') :
    ∃ n n', perform bus h (decode bus.isV5 h) m = .ok () n ∧
      Arm.perform bus word (transferCounterpart h).instruction m' = .ok () n' ∧ n.SameButCode n' := by
  have base (r : LowRegister) : m'.reg r.wide = low m r := alike.low id
  have stack : m'.reg Register.sp = m.cpu.regs.sp := alike.sp id fun _ => id
  unfold decode transferCounterpart
  rcases transfer_formats hf with ⟨h₁, h₂⟩ | ⟨h₃ | h₃ | ⟨h₃, h₄⟩, listed⟩
  · generalize (h.extractLsb' 11 5).toNat = k at h₁ h₂
    interval_cases k
    -- The distance is held by a register, or written in units of what is transferred.
    case «10» | «11» =>
      obtain ⟨offset, arm, distance⟩ := onArm_instruction (σ := σ) (.ofBits (h.extractLsb' 9 3)) (register h 3).wide
        (register h 0).wide (register h 6).wide
      refine ⟨_, _, rfl, congrArg (Arm.perform bus word · m') arm, ?_⟩
      exact transfer_sameButCode blind alike _ _ (by rw [distance, base, base])
    case «12» | «13» | «16» | «17» =>
      refine ⟨_, _, rfl, rfl, transfer_sameButCode blind alike _ _ ?_⟩
      exact congrArg₂ (· + ·) (base _) (distance_fits _ _ (by decide))
    case «14» | «15» =>
      refine ⟨_, _, rfl, rfl, transfer_sameButCode blind alike _ _ ?_⟩
      exact congrArg₂ (· + ·) (base _) (BitVec.setWidth_setWidth (by decide))
    case «18» | «19» =>
      refine ⟨_, _, rfl, rfl, transfer_sameButCode blind alike _ _ ?_⟩
      exact congrArg₂ (· + ·) stack (distance_fits _ _ (by decide))
  · simp only [h₃]
    obtain ⟨n', arm, same⟩ := storeMultiple_sameButCode blind alike (register h 8) listed
    exact ⟨_, n', rfl, arm, same⟩
  · simp only [h₃]
    obtain ⟨n', arm, same⟩ := loadMultiple_sameButCode blind alike (register h 8) listed
    exact ⟨_, n', rfl, arm, same⟩
  · simp only [h₃, decodeStack, h₄]
    obtain ⟨n', arm, same⟩ := pop_sameButCode blind alike listed
    exact ⟨_, n', rfl, arm, same⟩

end

end Thumb

namespace Machine

/-- Two machines that begin to keep transcripts. -/
theorem SameButCode.recording (h : m.SameButCode m') : (m.recording []).SameButCode (m'.recording []) :=
  ⟨h.cells, h.saved, h.mode, h.cpsr, h.fetchKind, h.interrupts, h.halted, h.timestamp, h.exceptionBase,
    congrArg (·, []) h.system, h.journal⟩

/-- Two machines whose transcripts are left off. -/
theorem SameButCode.seen {m m' : Machine (σ × Transcript)} (h : m.SameButCode m') :
    (m.seen Prod.fst).SameButCode (m'.seen Prod.fst) :=
  ⟨h.cells, h.saved, h.mode, h.cpsr, h.fetchKind, h.interrupts, h.halted, h.timestamp, h.exceptionBase,
    congrArg Prod.fst h.system, h.journal⟩

end Machine

/-- For every halfword of a transfer there is an ARM word, always executed, that means the same transfer on both
architectures. On a system that does not look at the registers, from machines alike but for the program counter
and the instruction set, both end without a fault in machines that are again alike, and have asked the system for
the same on the way. -/
theorem Thumb.transfer_refines_arm {h : Halfword} (hf : IsTransfer h) (blind : bus.Blind)
    (alike : m.SameButCode m') :
    Arm.condition (transferCounterpart h).word = Condition.always ∧
    (∀ v5, Arm.decode v5 (transferCounterpart h).word = (transferCounterpart h).instruction) ∧
    ∃ n n' t, execute bus h m = .ok () n ∧ Arm.execute bus (transferCounterpart h).word m' = .ok () n' ∧
      execute bus.recorded h (m.recording []) = .ok () (n.recording t) ∧
      Arm.execute bus.recorded (transferCounterpart h).word (m'.recording []) = .ok () (n'.recording t) ∧
      n.SameButCode n' := by
  refine ⟨Arm.PlainTransfer.condition_word _, (Arm.PlainTransfer.decode_word · _), ?_⟩
  obtain ⟨n, n', thumb, arm, same⟩ :=
    perform_alike blind.recorded (transferCounterpart h).word hf alike.recording.alike
  have executed : Arm.execute bus.recorded (transferCounterpart h).word (m'.recording []) = .ok () n' := by
    rw [Arm.execute_eq, if_pos (Arm.executes_always _ _ (Arm.PlainTransfer.condition_word _)),
      Arm.PlainTransfer.decode_word]
    exact arm
  have transcript : n' = (n'.seen Prod.fst).recording n.system.2 := by
    rw [← same.system]
    rfl
  refine ⟨n.seen Prod.fst, n'.seen Prod.fst, n.system.2, ?_, ?_, thumb, transcript ▸ executed, same.seen⟩
  · exact (execute_seen bus.recorded_shows h).of_recording thumb
  · exact (Arm.execute_seen bus.recorded_shows _).of_recording executed

/-- A machine about to store its registers, with an address in r1. -/
def pouring : Machine FlatMemory where
  cpu := (Processor.powerOn .v4).mapRegs fun f =>
    let f := f.write (Thumb.register 0x4348 0).wide 3
    (f.write (Thumb.register 0x4348 3).wide 0x208).setFlag .thumb true
  system := { ram := ⟨#[]⟩ }
  journal := #[]

/-- `STMIA r1!, {r0, r1}` stores for its base what the base will be, in THUMB code by looking ahead and in ARM code by
writing the base early. -/
theorem Thumb.transfer_refines_arm_pouring :
    IsTransfer 0xC103 ∧ (transferCounterpart 0xC103).word = 0xE8A10003 ∧ (FlatMemory.evenBus .v4).Blind ∧
    pouring.SameButCode (pouring.recode false 0x8008) ∧
    ∃ n n', execute (FlatMemory.evenBus .v4) 0xC103 pouring = .ok () n ∧
      Arm.execute (FlatMemory.evenBus .v4) 0xE8A10003 (pouring.recode false 0x8008) = .ok () n' ∧
      n.SameButCode n' ∧
      Arm.execute (FlatMemory.evenBus .v4).recorded 0xE8A10003 ((pouring.recode false 0x8008).recording []) =
        .ok () (n'.recording [
          .wait .word 0x208 Access.nonsequential.asWrite 1, .set .word 0x208 3,
          .wait .word 0x20C Access.sequel.asWrite 1, .set .word 0x20C 0x210]) := by
  have hf : IsTransfer 0xC103 := by decide
  have word : (transferCounterpart 0xC103).word = 0xE8A10003 := by decide
  have blind := FlatMemory.bus_blind .v4 fun _ _ _ => 1
  have alike := pouring.recode_sameButCode false 0x8008
  obtain ⟨-, -, n, n', t, run, arm, thumbSeen, armSeen, same⟩ := Thumb.transfer_refines_arm hf blind alike
  rw [word] at arm armSeen
  refine ⟨hf, word, blind, alike, n, n', run, arm, same, armSeen.trans ?_⟩
  -- What is asked for is read off the THUMB side.
  have asked : t = [
      .wait .word 0x208 Access.nonsequential.asWrite 1, .set .word 0x208 3,
      .wait .word 0x20C Access.sequel.asWrite 1, .set .word 0x20C 0x210] := by
    have record := congrArg (fun r : EStateM.Result Fault (Machine (FlatMemory × Transcript)) Unit =>
      match r with
      | .ok _ n => n.system.2
      | .error _ _ => []) thumbSeen
    exact record.symm.trans (by decide +kernel)
  rw [asked]

/-- A flat memory that sets the kind of the next fetch with each read, and whose words take longer than its
halfwords. -/
def meddling : Bus FlatMemory :=
  let bus := FlatMemory.bus .v4 fun w _ _ => if w = .word then 2 else 1
  { bus with get := fun w a m => ((bus.get w a m).1, (bus.get w a m).2.setFetchKind .sequel) }

theorem meddling_unseeing : meddling.OnAccess Machine.Unseeing where
  get w a := by
    have blind := ((FlatMemory.bus_blind .v4 fun w _ _ => if w = .word then 2 else 1).get w a).toUnseeing
    refine ⟨blind.answer, fun b => ?_, blind.parts⟩
    have after := blind.beside b
    exact ⟨after.interrupts, after.halted, after.timestamp, after.exceptionBase, after.system, after.journal⟩
  set w a v := ((FlatMemory.bus_blind .v4 fun w _ _ => if w = .word then 2 else 1).set w a v).toUnseeing
  waitTime w a k := ((FlatMemory.bus_blind .v4 fun w _ _ => if w = .word then 2 else 1).waitTime w a k).toUnseeing

/-- A machine about to load a register, with the THUMB code of it at 0 and the ARM code at 8. -/
def drawing : Machine FlatMemory where
  cpu := (Processor.powerOn .v4).mapRegs fun f => { f.setFlag .thumb true with pc := 2 }
  system := { ram := ⟨#[0x08, 0x68, 0, 0, 0, 0, 0, 0, 0x00, 0x00, 0x91, 0xE5, 0, 0, 0, 0]⟩ }
  journal := #[]

/-- On a system that sets the kind of the next fetch, `LDR r0, [r1]` ends in different kinds in the two instruction
sets. Whole steps differ in time as well, since the instruction itself is fetched. -/
theorem Thumb.transfer_differs_drawing :
    IsTransfer 0x6808 ∧ (transferCounterpart 0x6808).word = 0xE5910000 ∧ meddling.OnAccess Machine.Unseeing ∧
    drawing.SameButCode (drawing.recode false 12) ∧
    (∃ n n', execute meddling 0x6808 drawing = .ok () n ∧
      Arm.execute meddling 0xE5910000 (drawing.recode false 12) = .ok () n' ∧
      n.cpu.fetchKind = .sequel ∧ n'.cpu.fetchKind = .nonsequential) ∧
    ∃ n n', Exec.step meddling drawing = .ok () n ∧ Exec.step meddling (drawing.recode false 12) = .ok () n' ∧
      n.cpu.timestamp = drawing.cpu.timestamp + 4 ∧ n'.cpu.timestamp = drawing.cpu.timestamp + 5 := by
  have thumb := Exec.eq_ok_of_succeeds (x := execute meddling 0x6808) (m := drawing) (by decide +kernel)
  have arm := Exec.eq_ok_of_succeeds (x := Arm.execute meddling 0xE5910000) (m := drawing.recode false 12)
    (by decide +kernel)
  have thumbStep := Exec.eq_ok_of_succeeds (x := Exec.step meddling) (m := drawing) (by decide +kernel)
  have armStep := Exec.eq_ok_of_succeeds (x := Exec.step meddling) (m := drawing.recode false 12) (by decide +kernel)
  exact ⟨by decide, by decide, meddling_unseeing, drawing.recode_sameButCode false 12,
    ⟨_, _, thumb, arm, by decide +kernel, by decide +kernel⟩, _, _, thumbStep, armStep, by decide +kernel,
    by decide +kernel⟩

end Lockstep
