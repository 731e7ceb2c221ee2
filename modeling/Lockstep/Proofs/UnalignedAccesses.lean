import Lockstep.Proofs.ByteMemory
import Lockstep.Proofs.SingleTransfers
import Lockstep.Proofs.ThumbTransfers

/-!
Accesses to a memory of bytes at any address. What a load gives is said byte by byte: a word comes rotated, so that the
addressed byte is its lowest, and on the older architecture halves at odd addresses come rotated or shrink to a byte.
Stores round their address down. The same holds for the transfers of both instruction sets and for exchanges.
-/

namespace Lockstep

variable {σ ι : Type} {bus : Bus σ}

theorem Word.extract_rotateRight (v : Word) {k i : Nat} (hk : k < 4) (hi : i < 4) :
    (v.rotateRight (8 * k)).extractLsb' (8 * i) 8 = v.extractLsb' (8 * ((k + i) % 4)) 8 := by
  refine BitVec.eq_of_getLsbD_eq fun j hj => ?_
  interval_cases k <;> interval_cases i <;> simp [BitVec.getLsbD_rotateRight, hj] <;> grind

theorem Width.extract_truncate (w : Width) (v : Word) {i : Nat} (hi : i < w.bytes) :
    (w.truncate v).extractLsb' (8 * i) 8 = v.extractLsb' (8 * i) 8 := by
  refine BitVec.eq_of_getLsbD_eq fun j hj => ?_
  have low : 8 * i + j < 8 * w.bytes := by omega
  cases w with
  | word => rfl
  | byte | half =>
    simp only [bytes] at low
    simp [truncate, low, show 8 * i + j < 32 by omega]

theorem Word.setWidth_half (v : Word) : v.setWidth 16 = v.extractLsb' 8 8 ++ v.extractLsb' 0 8 := by
  refine BitVec.eq_of_getLsbD_eq fun j hj => ?_
  rw [BitVec.getLsbD_append]
  split_ifs with low
  · simp [hj, low]
  · have high : j - 8 < 8 := by omega
    simp [hj, high, show 8 + (j - 8) = j by omega]

theorem Word.getLsbD_zero (a : Word) : a.getLsbD 0 = decide (a.toNat % 2 = 1) := by
  rw [← BitVec.testBit_toNat, Nat.testBit_zero]

namespace ByteMemory

variable (M : ByteMemory σ ι)

def byteAt (s : σ) (a : Address) : BitVec 8 := M.byte s (M.place a)

def half (s : σ) (a : Address) : BitVec 16 := M.byteAt s (Word.alignDown a 2 + 1) ++ M.byteAt s (Word.alignDown a 2)

/-- What a load of some kind gives at an address. The words of a pair do not come rotated. -/
def loaded (v5 : Bool) (s : σ) (kind : Arm.TransferKind) (a : Address) : Word :=
  match kind with
  | .loadWord => Word.ofBytes fun i => M.byteAt s (Word.alignDown a 4 + BitVec.ofNat 32 ((a.toNat + i) % 4))
  | .loadByte => (M.byteAt s a).setWidth 32
  | .loadSignedByte => (M.byteAt s a).signExtend 32
  | .loadHalf =>
    if v5 = false ∧ a.toNat % 2 = 1 then ((M.half s a).setWidth 32).rotateRight 8 else (M.half s a).setWidth 32
  | .loadSignedHalf =>
    if v5 = false ∧ a.toNat % 2 = 1 then (M.byteAt s a).signExtend 32 else (M.half s a).signExtend 32
  | _ => M.word s a

def number (s : σ) (w : Width) (a : Address) : Word :=
  match w with
  | .byte => (M.byteAt s a).setWidth 32
  | .half => (M.half s a).setWidth 32
  | .word => M.word s a

variable {M}

theorem unit_zero (w : Width) (a : Address) : M.unit w a 0 = M.place (w.align a) := by
  rw [unit, BitVec.add_zero]

theorem align_byte (a : Address) : Width.byte.align a = a := by
  have zero : ~~~(1#32 - 1#32) = BitVec.allOnes 32 := by decide
  exact (congrArg (a &&& ·) zero).trans BitVec.and_allOnes

/-- The words that contain an address and the address of its word are the same. -/
theorem word_alignDown (s : σ) (a : Address) : M.word s (Word.alignDown a 4) = M.word s a := by
  have same : Width.word.align (Word.alignDown a 4) = Width.word.align a :=
    Word.alignDown_eq_self (.inr rfl) (Word.dvd_alignDown a (.inr rfl))
  simp only [word, unit, same]

/-- A word that is loaded comes rotated. -/
theorem loaded_word (v5 : Bool) (s : σ) (a : Address) :
    M.loaded v5 s .loadWord a = (M.word s a).rotateRight (8 * (a.toNat % 4)) := by
  refine Word.eq_of_extract fun i hi => ?_
  rw [loaded, Word.extract_ofBytes _ hi, Word.extract_rotateRight _ (Nat.mod_lt _ (by decide)) hi,
    extract_word s a (Nat.mod_lt _ (by decide)), Nat.mod_add_mod]
  rfl

/-- An odd address is that of the upper byte of its half. -/
theorem half_odd {a : Address} (odd : a.toNat % 2 = 1) : Word.alignDown a 2 + 1 = a := by
  have whole := Width.half.align_add a
  rw [Width.bytes, odd] at whole
  exact whole

/-- What a load makes of the unit that it asks for. -/
theorem shown_number (v5 : Bool) (s : σ) {kind : Arm.TransferKind} (load : kind.isLoad = true)
    (single : kind.isDouble = false) (a : Address) :
    kind.shown v5 a (M.number s kind.width (kind.place a)) = M.loaded v5 s kind a := by
  have odd : (!v5 && a.getLsbD 0) = true ↔ v5 = false ∧ a.toNat % 2 = 1 := by
    rw [Word.getLsbD_zero, Bool.and_eq_true, Bool.not_eq_true', decide_eq_true_eq]
  have low (x : BitVec 8) : (x.setWidth 32).setWidth 8 = x := BitVec.setWidth_setWidth_of_le x (by decide)
  cases kind with
  | loadByte => rfl
  | loadSignedByte => exact congrArg (BitVec.signExtend 32) (low _)
  | loadWord =>
    refine Eq.trans ?_ (loaded_word v5 s a).symm
    exact congrArg (·.rotateRight (8 * (a.toNat % 4))) (word_alignDown s a)
  | loadHalf =>
    simp only [Arm.TransferKind.shown, odd]
    rfl
  | loadSignedHalf =>
    simp only [Arm.TransferKind.shown, odd, loaded]
    have half : M.number s .half a = (M.half s a).setWidth 32 := rfl
    simp only [Arm.TransferKind.width, Arm.TransferKind.place, reduceCtorEq, if_false, half]
    split_ifs with byte
    · have upper : ((M.half s a).setWidth 32).extractLsb' 8 8 = M.byteAt s a := by
        rw [ByteMemory.half, half_odd byte.2]
        refine BitVec.eq_of_getLsbD_eq fun j hj => ?_
        rw [BitVec.getLsbD_extractLsb', BitVec.getLsbD_setWidth, BitVec.getLsbD_append, if_neg (by omega),
          Nat.add_sub_cancel_left, decide_eq_true hj, decide_eq_true (by omega : 8 + j < 32), Bool.true_and,
          Bool.true_and]
      exact congrArg (BitVec.signExtend 32) upper
    · exact congrArg (BitVec.signExtend 32) (BitVec.setWidth_setWidth_of_le _ (by decide))
  | loadDouble => cases single
  | storeByte | storeHalf | storeWord | storeDouble => cases load

theorem Same.store {w : Width} {a : Address} {v : Word} {s s₁ s' : σ} (h : M.Same s s₁) (h' : M.Stored w a v s₁ s') :
    M.Stored w a v s s' :=
  ⟨h'.sound, h'.holds, fun p other => (h'.others p other).trans (congrFun h.byte p)⟩

theorem Stored.same {w : Width} {a : Address} {v : Word} {s s₁ s' : σ} (h : M.Stored w a v s s₁) (h' : M.Same s₁ s') :
    M.Stored w a v s s' :=
  ⟨h'.sound, fun i hi => (congrFun h'.byte _).trans (h.holds i hi), fun p other =>
    (congrFun h'.byte p).trans (h.others p other)⟩

namespace Behind

variable (h : M.Behind bus) {m : Machine σ} (sound : M.sound m.system)
include h sound

/-- An access gives the number that is in the unit. -/
theorem unit (w : Width) (a : Address) (k : Access) :
    (bus.unit w a k m).1 = M.number m.system w a ∧ M.Same m.system (bus.unit w a k m).2.system := by
  have waited : M.Same m.system (bus.wait w a k m).system := h.waitTime w a k m sound
  have value := h.value w a _ waited.sound
  have same (i : Nat) : M.byte (bus.wait w a k m).system (M.unit w a i) = M.byte m.system (M.unit w a i) :=
    congrFun waited.byte _
  refine ⟨?_, waited.trans (h.get w a _ waited.sound)⟩
  show w.truncate (bus.get w a (bus.wait w a k m)).1 = _
  revert value
  generalize (bus.get w a (bus.wait w a k m)).1 = v
  intro value
  cases w with
  | byte =>
    have only : v.setWidth 8 = M.byteAt m.system a := by
      rw [BitVec.setWidth_eq_extractLsb' (by decide), value 0 (by decide), same, unit_zero, align_byte]
      rfl
    exact congrArg (BitVec.setWidth 32) only
  | half =>
    have both : v.setWidth 16 = M.half m.system a := by
      rw [Word.setWidth_half, value 1 (by decide), value 0 (by decide), same, same, unit_zero]
      rfl
    exact congrArg (BitVec.setWidth 32) both
  | word =>
    refine Word.eq_of_extract fun i hi => ?_
    exact ((value i hi).trans (same i)).trans (extract_word m.system a hi).symm

/-- A load gives what is said. -/
theorem shown {kind : Arm.TransferKind} (load : kind.isLoad = true) (single : kind.isDouble = false) (a : Address)
    (k : Access) :
    kind.shown bus.isV5 a (bus.unit kind.width (kind.place a) k m).1 = M.loaded bus.isV5 m.system kind a := by
  rw [(h.unit sound _ _ k).1, shown_number _ _ load single]

/-- A write stores the number, whatever its width. -/
theorem store (w : Width) (a : Address) (v : Word) (k : Access) :
    M.Stored w a v m.system (bus.write w a v k m).system := by
  have waited : M.Same m.system (bus.wait w a k.asWrite m).system := h.waitTime w a k.asWrite m sound
  have stored := h.set w a (w.truncate v) _ waited.sound
  exact waited.store ⟨stored.sound, fun i hi => (stored.holds i hi).trans (w.extract_truncate v hi), stored.others⟩

theorem setReg (r : Register) (v : Word) : M.Same m.system (bus.setReg r v m).system := by
  unfold Bus.setReg
  split_ifs
  · exact h.jump sound v
  · exact ⟨sound, rfl⟩

theorem setRegLoaded (r : Register) (v : Word) : M.Same m.system (bus.setRegLoaded r v m).system := by
  unfold Bus.setRegLoaded
  split_ifs
  · exact h.jump (m := m.setFlag .thumb (v.getLsbD 0)) sound v
  · exact h.jump sound v
  · exact ⟨sound, rfl⟩

end Behind

end ByteMemory

/-- A register has a value. The program counter does if the program goes on there. -/
def Processor.Holds (p : Processor) (r : Register) (v : Word) : Prop :=
  if r = Register.pc then p.nextAddress = Word.alignDown v p.regs.instructionSize else p.regs.read r = v

theorem Processor.Holds.congr {p p' : Processor} {r : Register} {v : Word} (h : p.Holds r v) (same : p'.regs = p.regs) :
    p'.Holds r v := by
  unfold Holds nextAddress at *
  rwa [same]

namespace Bus.KeepsRegisters

variable (h : bus.KeepsRegisters)
include h

theorem jump_holds (a : Address) (m : Machine σ) : (bus.jump a m).cpu.Holds Register.pc a := by
  rw [Processor.Holds, if_pos rfl, Processor.nextAddress, h.jump]
  exact BitVec.add_sub_cancel _ _

theorem setReg_holds (r : Register) (v : Word) (m : Machine σ) : (bus.setReg r v m).cpu.Holds r v := by
  by_cases counter : r = Register.pc
  · rw [Bus.setReg, if_pos counter, counter]
    exact h.jump_holds v m
  · rw [Processor.Holds, if_neg counter, bus.setReg_regs counter, Registers.read, (m.cpu.regs.put_same _ _ _).2.2.2]
    exact Registers.readAs_put_self counter v

theorem setRegLoaded_holds (r : Register) (v : Word) (m : Machine σ) : (bus.setRegLoaded r v m).cpu.Holds r v := by
  by_cases counter : r = Register.pc
  · rw [Bus.setRegLoaded, if_pos counter, counter]
    split_ifs
    · exact h.jump_holds v (m.setFlag .thumb (v.getLsbD 0))
    · exact h.jump_holds v m
  · have plain : bus.setRegLoaded r v m = bus.setReg r v m := by
      rw [Bus.setRegLoaded, Bus.setReg, if_neg counter, if_neg counter]
    exact plain ▸ h.setReg_holds r v m

/-- A write to another register leaves it. -/
theorem holds_setReg {r r' : Register} (other : r' ≠ r) {v : Word} {m : Machine σ} (held : m.cpu.Holds r' v)
    (v' : Word) : (bus.setReg r v' m).cpu.Holds r' v := by
  by_cases counter : r = Register.pc
  · have own : r' ≠ Register.pc := counter ▸ other
    rw [Processor.Holds, if_neg own] at held ⊢
    obtain ⟨s, named⟩ := Option.ne_none_iff_exists'.mp (own ∘ (Mode.slot?_eq_none m.cpu.regs.mode r').mp)
    rw [Bus.setReg, if_pos counter, h.jump, ← held, Registers.read, Registers.read, Registers.readAs_eq named,
      Registers.readAs_eq named]
    rfl
  · obtain ⟨-, pc, cpsr, mode⟩ := m.cpu.regs.put_same m.cpu.regs.mode r v'
    have size : (m.cpu.regs.put m.cpu.regs.mode r v').instructionSize = m.cpu.regs.instructionSize := by
      rw [Registers.instructionSize, Registers.instructionSize, Registers.isThumb, Registers.isThumb, Registers.flag,
        Registers.flag, cpsr]
    unfold Processor.Holds Processor.nextAddress at *
    rw [bus.setReg_regs counter, pc, size, Registers.read, mode, Registers.readAs_put other]
    exact held

end Bus.KeepsRegisters

/-- What an instruction moves, with which register, and where. -/
structure UnitTransfer where
  kind : Arm.TransferKind
  register : Register
  address : Address
deriving DecidableEq

/-- The unit that a transfer moves, but for pairs. -/
def Arm.Instruction.unit? (m : Machine σ) : Arm.Instruction → Option UnitTransfer
  | .transfer kind n d offset i =>
    if kind.isDouble then none else some ⟨kind, d, (Arm.Single.mk kind n d offset i).address m⟩
  | _ => none

def Thumb.Instruction.unit? (m : Machine σ) : Thumb.Instruction → Option UnitTransfer
  | .loadRelative d offset => some ⟨.loadWord, d.wide, m.cpu.regs.alignedPc + offset⟩
  | .transferRegister op d base offset => some ⟨op.kind, d.wide, low m base + low m offset⟩
  | .transferImmediate op d base offset => some ⟨op.kind, d.wide, low m base + offset⟩
  | .transferStack load d offset => some ⟨if load then .loadWord else .storeWord, d.wide, m.cpu.regs.sp + offset⟩
  | _ => none

def Bus.unitIn (bus : Bus σ) (m : Machine σ) (thumb : Bool) (inst : Word) : Option UnitTransfer :=
  if thumb then (Thumb.decode bus.isV5 (inst.setWidth 16)).unit? m
  else if Arm.executes bus.isV5 m.cpu.regs inst then (Arm.decode bus.isV5 inst).unit? m
  else none

structure ByteMemory.Transferred (M : ByteMemory σ ι) (v5 : Bool) (t : UnitTransfer) (m m' : Machine σ) : Prop where
  load : t.kind.isLoad = true →
    M.Same m.system m'.system ∧ m'.cpu.Holds t.register (M.loaded v5 m.system t.kind t.address)
  store : t.kind.isLoad = false → M.Stored t.kind.width t.address (m.regLate t.register) m.system m'.system

namespace ByteMemory

variable {M : ByteMemory σ ι} {t : UnitTransfer}

/-- What happens afterwards does not matter, if it touches neither memory nor the register. -/
theorem Transferred.tail {v5 : Bool} {m m₁ m' : Machine σ} (h : M.Transferred v5 t m m₁)
    (same : M.sound m₁.system → M.Same m₁.system m'.system)
    (holds : t.kind.isLoad = true → ∀ v, m₁.cpu.Holds t.register v → m'.cpu.Holds t.register v) :
    M.Transferred v5 t m m' where
  load load := ⟨(h.load load).1.trans (same (h.load load).1.sound), holds load _ (h.load load).2⟩
  store store := (h.store store).same (same (h.store store).sound)

/-- Only the memory and the register that is stored matter before a transfer. -/
theorem Transferred.head {v5 : Bool} {m m₁ m' : Machine σ} (h : M.Transferred v5 t m₁ m')
    (system : m₁.system = m.system) (regs : m₁.cpu.regs = m.cpu.regs) : M.Transferred v5 t m m' where
  load := system ▸ h.load
  store store := by
    have stored := h.store store
    rwa [system, Machine.regLate, regs] at stored

/-- Nor do the others after it. -/
theorem Transferred.last {v5 : Bool} {m m₁ m' : Machine σ} (h : M.Transferred v5 t m m₁)
    (system : m'.system = m₁.system) (regs : m'.cpu.regs = m₁.cpu.regs) : M.Transferred v5 t m m' :=
  h.tail (fun sound => ⟨system ▸ sound, congrArg M.byte system⟩) fun _ _ held => held.congr regs

variable (h : M.Behind bus) {m : Machine σ} (sound : M.sound m.system)
include h sound

theorem loadInto_transferred (load : t.kind.isLoad = true) (single : t.kind.isDouble = false) :
    M.Transferred bus.isV5 t m (Arm.loadInto bus t.kind t.register t.address m) where
  load _ := by
    have value := h.shown sound load single t.address .nonsequential
    have same := (h.unit sound t.kind.width (t.kind.place t.address) .nonsequential).2
    rw [Arm.loadInto_eq load single]
    simp only [value]
    split_ifs
    · exact ⟨same.trans (h.setRegLoaded same.sound _ _), h.keepsRegisters.setRegLoaded_holds _ _ _⟩
    · exact ⟨same.trans (h.setReg same.sound _ _), h.keepsRegisters.setReg_holds _ _ _⟩
  store store := Bool.noConfusion (load.symm.trans store)

theorem storeFrom_transferred (store : t.kind.isLoad = false) (single : t.kind.isDouble = false) :
    M.Transferred bus.isV5 t m (Arm.storeFrom bus t.kind t.register t.address m) where
  load load := Bool.noConfusion (load.symm.trans store)
  store _ := by
    rw [Arm.storeFrom_eq store single]
    exact h.store sound _ _ _ _

omit sound in
/-- Writing the base back does not touch memory. -/
theorem finish_same {s : Arm.Single} {base : Address} {x : Machine σ} (sound : M.sound x.system) :
    M.Same x.system (s.finish bus base x).system := by
  have written := h.setReg sound s.n base
  unfold Arm.Single.finish
  split_ifs
  all_goals first | exact written | exact ⟨sound, rfl⟩

/-- A transfer of the long instruction set. The base is written back afterwards, unless it was loaded. -/
theorem transfer_transferred {s : Arm.Single} (single : s.kind.isDouble = false) :
    M.Transferred bus.isV5 ⟨s.kind, s.d, s.address m⟩ m (Arm.transfer bus s.kind s.n s.d s.offset s.i m) := by
  have moved : M.Transferred bus.isV5 ⟨s.kind, s.d, s.address m⟩ m (if s.kind.isLoad then
      Arm.loadInto bus s.kind s.d (s.address m) m else Arm.storeFrom bus s.kind s.d (s.address m) m) := by
    cases load : s.kind.isLoad with
    | true => exact loadInto_transferred h sound load single
    | false => exact storeFrom_transferred h sound load single
  rw [Arm.Single.transfer_eq]
  refine moved.tail (finish_same h) fun load v held => ?_
  unfold Arm.Single.finish
  rw [if_pos load]
  by_cases writes : s.Writes
  · rw [if_pos writes]
    exact h.keepsRegisters.holds_setReg (writes.2 load).symm held _
  · rw [if_neg writes]
    exact held

/-- A transfer of the short instruction set. -/
theorem short_transferred (op : Thumb.TransferOp) (d : LowRegister) (a : Address) :
    M.Transferred bus.isV5 ⟨op.kind, d.wide, a⟩ m (Thumb.transfer bus op d a m) := by
  have kind : op.kind.isLoad = op.isLoad ∧ op.kind.isDouble = false := by cases op <;> exact ⟨rfl, rfl⟩
  have started : M.sound (m.setFetchKind .nonsequential).system := sound
  unfold Thumb.transfer
  cases load : op.isLoad with
  | true =>
    have loaded := loadInto_transferred h (t := ⟨op.kind, d.wide, a⟩) started (kind.1.trans load) kind.2
    rw [Thumb.loadInto_onArm load] at loaded
    rw [if_pos rfl]
    have started := loaded.head (m := m) rfl rfl
    exact started.last rfl rfl
  | false =>
    have stored := storeFrom_transferred h (t := ⟨op.kind, d.wide, a⟩) started (kind.1.trans load) kind.2
    rw [Thumb.storeFrom_onArm load] at stored
    exact stored.head rfl rfl

theorem loadRelative_transferred (d : LowRegister) (offset : Word) :
    M.Transferred bus.isV5 ⟨.loadWord, d.wide, m.cpu.regs.alignedPc + offset⟩ m
      (Thumb.loadRelative bus d offset m) := by
  let t : UnitTransfer := ⟨.loadWord, d.wide, m.cpu.regs.alignedPc + offset⟩
  have word : Thumb.TransferOp.isLoad .loadWord = true := rfl
  have short : Arm.loadInto bus t.kind t.register t.address m = Thumb.loadInto bus .loadWord d t.address m :=
    Thumb.loadInto_onArm word d t.address m
  have loaded := loadInto_transferred h (t := t) sound rfl rfl
  rw [short] at loaded
  exact loaded.last rfl rfl

/-- A word that moves a unit in one of the instruction sets. -/
theorem execute_transferred {thumb : Bool} {inst : Word} (unit : bus.unitIn m thumb inst = some t) :
    ∃ m', Exec.execute bus thumb inst m = .ok () m' ∧ M.Transferred bus.isV5 t m m' := by
  cases thumb with
  | true =>
    change (Thumb.decode bus.isV5 (inst.setWidth 16)).unit? m = some t at unit
    unfold Exec.execute Thumb.execute
    revert unit
    cases Thumb.decode bus.isV5 (inst.setWidth 16) with
    | loadRelative d offset =>
      rintro ⟨⟩
      exact ⟨_, rfl, loadRelative_transferred h sound d offset⟩
    | transferRegister op d | transferImmediate op d =>
      rintro ⟨⟩
      exact ⟨_, rfl, short_transferred h sound op d _⟩
    | transferStack load d offset =>
      rintro ⟨⟩
      cases load with
      | true => exact ⟨_, rfl, short_transferred h sound .loadWord d _⟩
      | false => exact ⟨_, rfl, short_transferred h sound .storeWord d _⟩
    | _ =>
      intro none
      cases none
  | false =>
    change (if Arm.executes bus.isV5 m.cpu.regs inst then (Arm.decode bus.isV5 inst).unit? m else none) = some t at unit
    obtain ⟨passes, unit⟩ := Option.ite_none_right_eq_some.mp unit
    rw [Exec.execute, if_neg Bool.false_ne_true, Arm.execute_eq, if_pos passes]
    revert unit
    cases Arm.decode bus.isV5 inst with
    | transfer kind n d offset i =>
      intro unit
      obtain ⟨single, ⟨⟩⟩ := Option.ite_none_left_eq_some.mp unit
      exact ⟨_, rfl, transfer_transferred h sound (s := ⟨kind, n, d, offset, i⟩) (Bool.eq_false_iff.mpr single)⟩
    | _ =>
      intro none
      cases none

variable (M) in
structure Swapped (v5 byte : Bool) (n d r : Register) (m m' : Machine σ) : Prop where
  loaded : m'.cpu.Holds d (M.loaded v5 m.system (if byte then .loadByte else .loadWord) (m.reg n))
  stored : M.Stored (if byte then .byte else .word) (m.reg n) (m.reg r) m.system m'.system

/-- An exchange reads as loads of one register do. -/
theorem swap_reads (byte : Bool) (a : Address) (k : Access) :
    let x := if byte then bus.read .byte a k m else bus.readRotated a k m
    x.1 = M.loaded bus.isV5 m.system (if byte then .loadByte else .loadWord) a ∧ M.Same m.system x.2.system ∧
      x.2.cpu.regs = m.cpu.regs := by
  cases byte with
  | true =>
    have unit := bus.read_eq_unit (by decide : Width.byte ≠ .half) a k m
    simp only [if_true, unit]
    have load : Arm.TransferKind.isLoad .loadByte = true := rfl
    exact ⟨h.shown sound load rfl a k, (h.unit sound .byte a k).2, h.keepsRegisters.unit ..⟩
  | false =>
    have unit := bus.read_eq_unit (by decide : Width.word ≠ .half) (Word.alignDown a 4) k m
    simp only [Bool.false_eq_true, if_false, Bus.readRotated, unit]
    have load : Arm.TransferKind.isLoad .loadWord = true := rfl
    exact ⟨h.shown sound load rfl a k, (h.unit sound .word _ k).2, h.keepsRegisters.unit ..⟩

/-- What is stored is from before the exchange, so the registers may be the same. -/
theorem swap_swapped (byte : Bool) (n d r : Register) :
    M.Swapped bus.isV5 byte n d r m (Arm.swap bus byte n d r m) := by
  let x := if byte then bus.read .byte (m.reg n) .nonsequential m else bus.readRotated (m.reg n) .nonsequential m
  let w : Width := if byte then .byte else .word
  have parts : Arm.swap bus byte n d r m =
      (bus.setReg d x.1 (bus.write w (m.reg n) (x.2.reg r) .nonsequential x.2)).idleNonsequential := rfl
  obtain ⟨value, same, regs⟩ := swap_reads h sound byte (m.reg n) .nonsequential
  have late : x.2.reg r = m.reg r := congrArg (Registers.read · r) regs
  have stored := h.store same.sound w (m.reg n) (x.2.reg r) .nonsequential
  rw [parts]
  refine ⟨?_, ?_⟩
  · rw [← value]
    exact (h.keepsRegisters.setReg_holds d x.1 _).congr rfl
  · rw [← late]
    exact (same.store stored).same (h.setReg stored.sound d x.1)

/-- A pair is stored as two words. -/
theorem pair_stored {s : Arm.Single} (store : s.kind = .storeDouble) :
    ∃ s₁, M.Stored .word (s.address m) (m.regLate s.d) m.system s₁ ∧
      M.Stored .word (s.address m + 4) (m.regLate s.d.next) s₁
        (Arm.transfer bus s.kind s.n s.d s.offset s.i m).system := by
  have first := h.write sound (s.address m) (m.regLate s.d) .nonsequential
  have second := h.write first.sound (s.address m + 4) (m.regLate s.d.next) .sequel
  refine ⟨_, first, ?_⟩
  rw [Arm.Single.transfer_eq]
  refine second.same ?_
  have stored : (if s.kind.isLoad then Arm.loadInto bus s.kind s.d (s.address m) m
      else Arm.storeFrom bus s.kind s.d (s.address m) m) = Arm.storeFrom bus .storeDouble s.d (s.address m) m := by
    rw [store]
    rfl
  rw [stored]
  exact finish_same h second.sound

omit h sound in
/-- A load of a word, after a store to the same address. -/
theorem loaded_stored {m₁ m₂ m' : Machine σ} {t' : UnitTransfer} {v5 : Bool} (stored : M.Transferred v5 t m m₁)
    (word : t.kind = .storeWord) (same : M.Same m₁.system m₂.system) (loaded : M.Transferred v5 t' m₂ m')
    (word' : t'.kind = .loadWord) (place : t'.address = t.address) :
    m'.cpu.Holds t'.register ((m.regLate t.register).rotateRight (8 * (t.address.toNat % 4))) := by
  have store := stored.store (by rw [word]; rfl)
  have load := (loaded.load (by rw [word']; rfl)).2
  rw [word] at store
  rwa [word', place, loaded_word, same.word, store.word] at load

end ByteMemory

open ByteMemory in
/-- On a memory of bytes, loads of both instruction sets give what is said of their address, and stores go to the units
that contain theirs. An exchange does both, the store being of what the register held before. So a word that is stored
comes back rotated by the place of its address in the word, and an exchange of words gives the old word rotated so. -/
theorem unaligned_accesses {M : ByteMemory σ ι} {m : Machine σ} (h : M.Behind bus) (sound : M.sound m.system) :
    (∀ thumb inst t, bus.unitIn m thumb inst = some t →
      ∃ m', Exec.execute bus thumb inst m = .ok () m' ∧ M.Transferred bus.isV5 t m m') ∧
    (∀ inst byte n d r, Arm.executes bus.isV5 m.cpu.regs inst = true → Arm.decode bus.isV5 inst = .swap byte n d r →
      ∃ m', Exec.execute bus false inst m = .ok () m' ∧ M.Swapped bus.isV5 byte n d r m m' ∧
        (byte = false →
          m'.cpu.Holds d ((M.word m.system (m.reg n)).rotateRight (8 * ((m.reg n).toNat % 4))) ∧
          M.word m'.system (m.reg n) = m.reg r)) ∧
    (∀ inst n d offset i, Arm.executes bus.isV5 m.cpu.regs inst = true →
      Arm.decode bus.isV5 inst = .transfer .storeDouble n d offset i →
        let a := (Arm.Single.mk .storeDouble n d offset i).address m
        ∃ m' s, Exec.execute bus false inst m = .ok () m' ∧ M.Stored .word a (m.regLate d) m.system s ∧
          M.Stored .word (a + 4) (m.regLate d.next) s m'.system) ∧
    (∀ thumb inst t, bus.unitIn m thumb inst = some t → t.kind = .storeWord →
      ∃ m₁, Exec.execute bus thumb inst m = .ok () m₁ ∧
        ∀ m₂ thumb' inst' t', M.Same m₁.system m₂.system → bus.unitIn m₂ thumb' inst' = some t' →
          t'.kind = .loadWord → t'.address = t.address →
            ∃ m', Exec.execute bus thumb' inst' m₂ = .ok () m' ∧
              m'.cpu.Holds t'.register ((m.regLate t.register).rotateRight (8 * (t.address.toNat % 4)))) := by
  have arm {inst : Word} (passes : Arm.executes bus.isV5 m.cpu.regs inst = true) :
      Exec.execute bus false inst m = Arm.perform bus inst (Arm.decode bus.isV5 inst) m := by
    rw [Exec.execute, if_neg Bool.false_ne_true, Arm.execute_eq, if_pos passes]
  refine ⟨fun thumb inst t unit => execute_transferred h sound unit, ?_, ?_, ?_⟩
  · intro inst byte n d r passes decoded
    have swapped := swap_swapped h sound byte n d r
    refine ⟨Arm.swap bus byte n d r m, by rw [arm passes, decoded]; rfl, swapped, ?_⟩
    rintro rfl
    exact ⟨loaded_word bus.isV5 m.system (m.reg n) ▸ swapped.loaded, swapped.stored.word⟩
  · intro inst n d offset i passes decoded
    obtain ⟨s, first, second⟩ := pair_stored h sound (s := ⟨.storeDouble, n, d, offset, i⟩) rfl
    exact ⟨_, s, by rw [arm passes, decoded]; rfl, first, second⟩
  · intro thumb inst t unit word
    obtain ⟨m₁, run, stored⟩ := execute_transferred h sound unit
    refine ⟨m₁, run, fun m₂ thumb' inst' t' same unit' word' place => ?_⟩
    obtain ⟨m', run', loaded⟩ := execute_transferred h same.sound unit'
    exact ⟨m', run', loaded_stored stored word same loaded word' place⟩

/-- A machine with the bytes 1 to 8 and an odd address in r1. -/
def counting : Machine FlatMemory where
  cpu := (Processor.powerOn .v4).mapRegs (·.write ⟨1, by decide⟩ 5)
  system := { ram := ⟨#[1, 2, 3, 4, 5, 6, 7, 8]⟩ }
  journal := #[]

/-- `LDR r0, [r1]` loads the upper four bytes, the sixth of them lowest. -/
theorem counting_rotates :
    let M := FlatMemory.bytes (2 ^ 3)
    let bus := FlatMemory.evenBus .v4
    M.Behind bus ∧ M.sound counting.system ∧
      ∃ m', Exec.execute bus false 0xE5910000 counting = .ok () m' ∧ m'.reg 0 = 0x05080706 := by
  intro M bus
  have behind : M.Behind bus := FlatMemory.bytes_behind (by decide) _ _
  have sound : M.sound counting.system := rfl
  have unit : bus.unitIn counting false 0xE5910000 = some ⟨.loadWord, 0, 5⟩ := by decide +kernel
  obtain ⟨m', run, transferred⟩ := (unaligned_accesses behind sound).1 _ _ _ unit
  have value : M.loaded bus.isV5 counting.system .loadWord 5 = 0x05080706 := by decide +kernel
  exact ⟨behind, sound, m', run, value ▸ (transferred.load rfl).2⟩

end Lockstep
