import Lockstep.Arm.Execution
import Lockstep.Proofs.Move
import Mathlib.Tactic.SplitIfs

/-!
Every ARM instruction but the software interrupt is a run of moves, and those that return from an exception or
write a status register change one once. This holds whether the instruction fails or not.
-/

namespace Lockstep.Arm

variable {σ : Type} (bus : Bus σ) (m : Machine σ)

theorem executes_always (v5 : Bool) (f : Registers) {w : Word} (h : condition w = .always) :
    executes v5 f w = true := by
  rw [executes, h, f.satisfies_always]
  rfl

theorem apply_moves (op : AluOp) (set : Bool) (a b : Word) (c s : Bool) :
    Moves bus m (m.mapRegs fun f => (op.apply f set a b c s).2) := by
  cases op
  case sub | cmp | rsb | add | cmn | adc | sbc | rsc => exact setNZCV_moves bus m set _
  all_goals exact setNZC_moves bus m set _ _

theorem fetchOperands_moves (n : Register) (operand : Operand) :
    Moves bus m (fetchOperands n operand m).2 := by
  cases operand with
  | immediate v c => exact .refl
  | shifted r kind amount =>
    cases amount with
    | immediate k => exact .refl
    | register s => exact idleNonsequential_moves bus m

/-- The end of an operation: the return from an exception, if it is one, and the write of the result. -/
def finish (restores writes : Bool) (d : Register) (value : Word) : Exec σ Unit := do
  let f := (← get).cpu.regs
  if restores && f.mode.hasSaved then Exec.setCpsr f.spsr
  if writes then modify (bus.setReg d value)

theorem finish_acting {restores writes : Bool} {d : Register} (value : Word)
    (h : restores = true → d = Register.pc ∧ writes = true) :
    Exec.Acting bus (finish bus restores writes d value) := by
  intro m
  simp only [finish, Exec.final_bind, Exec.get_eq]
  split_ifs with hr hw hw
  · obtain ⟨hr, hs⟩ := (Bool.and_eq_true ..).mp hr
    obtain ⟨rfl, -⟩ := h hr
    rw [Exec.final_bind, Exec.setCpsr_eq]
    -- the restored status and the refill are one change, since the status may change the instruction set
    cases hf : m.cpu.regs.setCpsr m.cpu.regs.spsr with
    | ok f => exact (StatusChange.resume value hs hf).acts
    | error e => exact (Moves.acts .refl)
  · obtain ⟨hr, -⟩ := (Bool.and_eq_true ..).mp hr
    exact absurd (h hr).2 hw
  · exact (setReg_moves bus m d value).acts
  · exact Moves.acts .refl

theorem processData_eq (op : AluOp) (setFlags : Bool) (n d : Register) (operand : Operand) :
    processData bus op setFlags n d operand = (do
      let carry := (← get).flag .carry
      let (a, b) ← modifyGet (fetchOperands n operand)
      let restores := setFlags && d == Register.pc && op.writes
      let value ← modifyGet fun m =>
        let (v, regs) := op.apply m.cpu.regs (setFlags && !restores) a b.value carry b.carry
        (v, m.mapRegs fun _ => regs)
      finish bus restores op.writes d value) := rfl

theorem processData_acting (op : AluOp) (setFlags : Bool) (n d : Register) (operand : Operand) :
    Exec.Acting bus (processData bus op setFlags n d operand) := by
  rw [processData_eq]
  refine Exec.moving_bind_acting Exec.moving_get fun m => ?_
  refine Exec.moving_bind_acting (Exec.moving_modifyGet fun m => fetchOperands_moves bus m n operand) ?_
  rintro ⟨a, b⟩
  refine Exec.moving_bind_acting (Exec.moving_modifyGet fun m => apply_moves bus m op _ a _ _ _) fun v => ?_
  refine finish_acting bus v fun h => ?_
  simp only [Bool.and_eq_true, beq_iff_eq] at h
  exact ⟨h.1.2, h.2⟩

def replaced (f : Registers) (flags control : Bool) (src psr : Word) : Word :=
  let psr := if flags then (psr &&& 0x00FFFFFF) ||| (src &&& 0xFF000000) else psr
  if control && f.mode.isPrivileged then (psr &&& 0xFFFFFF00) ||| (src &&& 0xFF) else psr

theorem writeStatus_eq (saved flags control : Bool) (source : StatusSource) :
    (writeStatus saved flags control source : Exec σ Unit) = (do
      let m ← get
      let f := m.cpu.regs
      let src :=
        match source with
        | .immediate v => v
        | .register r => m.reg r
      if saved then modify (·.mapRegs (·.setSpsr (replaced f flags control src f.spsr)))
      else Exec.setCpsr (Bits.put (replaced f flags control src f.cpsr) 5 f.isThumb)) := by
  cases saved <;> rfl

/-- User mode reaches the flags byte alone. -/
theorem getLsbD_replaced {f : Registers} (h : f.mode = .user) (flags control : Bool) (src psr : Word)
    {i : Nat} (hi : i < 24) : (replaced f flags control src psr).getLsbD i = psr.getLsbD i := by
  have kept : (0x00FFFFFF#32).getLsbD i = true := by revert i; decide
  have lost : (0xFF000000#32).getLsbD i = false := by revert i; decide
  cases flags <;> simp [replaced, h, Mode.isPrivileged, kept, lost]

theorem writeStatus_acting (saved flags control : Bool) (source : StatusSource) :
    Exec.Acting bus (writeStatus saved flags control source) := by
  intro m
  simp only [writeStatus_eq, Exec.final_bind, Exec.get_eq]
  generalize (match source with | .immediate v => v | .register r => m.reg r : Word) = src
  cases saved with
  | true => exact (StatusChange.saved m _).acts
  | false =>
    simp only [Bool.false_eq_true, if_false, Exec.final_setCpsr]
    cases hf : m.cpu.regs.setCpsr (Bits.put (replaced m.cpu.regs flags control src m.cpu.regs.cpsr) 5
        m.cpu.regs.isThumb) with
    | error e => exact Moves.acts .refl
    | ok f =>
      refine (StatusChange.status ?_ (fun hu i hi => ?_) hf).acts
      · rw [Bits.getLsbD_put _ _ _ _ (by decide), if_pos rfl]
      · rw [Bits.getLsbD_put _ _ _ _ (by decide)]
        split_ifs with h5
        · rw [h5]; rfl
        · exact getLsbD_replaced hu flags control src _ (by omega)

theorem readStatus_moves (d : Register) (saved : Bool) : Moves bus m (readStatus bus d saved m) :=
  setReg_moves bus m d _

theorem clearCarryOnV4_moves : Moves bus m (clearCarryOnV4 bus m) := by
  unfold clearCarryOnV4
  split_ifs
  · exact .refl
  · exact (Move.flag m false (x := .carry) rfl).moves

theorem multiply_moves (accumulate setFlags : Bool) (d n s r : Register) :
    Moves bus m (multiply bus accumulate setFlags d n s r m) := by
  have written : ∀ m v, Moves bus m
      (if setFlags then clearCarryOnV4 bus ((bus.setReg d v m).mapRegs (·.setNZ true v))
        else bus.setReg d v m) := by
    intro m v
    split_ifs
    · exact ((setReg_moves bus m d v).trans (setNZ_moves bus _ true v)).trans (clearCarryOnV4_moves bus _)
    · exact setReg_moves bus m d v
  cases accumulate
  · exact (written m _).trans (idleMultiplier_moves bus _ _ _)
  · exact ((Move.idle m 1).moves.trans (written _ _)).trans (idleMultiplier_moves bus _ _ _)

theorem multiplyLong_moves (signed accumulate setFlags : Bool) (hi lo s r : Register) :
    Moves bus m (multiplyLong bus signed accumulate setFlags hi lo s r m) := by
  have flagged : ∀ m (out : BitVec 64), Moves bus m
      (if setFlags then clearCarryOnV4 bus ((m.setFlag .zero (out == 0)).setFlag .negative out.msb)
        else m) := by
    intro m out
    split_ifs
    · refine .trans ?_ (clearCarryOnV4_moves bus _)
      exact (Move.flag m _ (x := .zero) rfl).moves.tail (.flag _ _ (x := .negative) rfl)
    · exact .refl
  have written : ∀ m (out : BitVec 64), Moves bus m
      (bus.setReg hi (out.extractLsb' 32 32) (bus.setReg lo (out.setWidth 32) m)) :=
    fun m out => (setReg_moves bus m lo _).trans (setReg_moves bus _ hi _)
  have first : Moves bus m (m.idle 1) := (Move.idle m 1).moves
  cases accumulate
  · exact ((first.trans (written _ _)).trans (flagged _ _)).trans (idleMultiplier_moves bus _ _ _)
  · exact (((first.tail (.idle _ 1)).trans (written _ _)).trans (flagged _ _)).trans
      (idleMultiplier_moves bus _ _ _)

theorem accumulateHalf_moves (product acc : Word) : Moves bus m (accumulateHalf product acc m).2 := by
  unfold accumulateHalf
  simp only
  split_ifs
  · exact (Move.flag m true (x := .saturation) rfl).moves
  · exact .refl

theorem halfMultiply_moves (op : HalfMulOp) (d n s r : Register) (top₁ top₂ : Bool) :
    Moves bus m (halfMultiply bus op d n s r top₁ top₂ m) := by
  cases op with
  | smla => exact (accumulateHalf_moves bus m _ _).trans (setReg_moves bus _ d _)
  | smlawOrSmulw =>
    cases top₁
    · exact (accumulateHalf_moves bus m _ _).trans (setReg_moves bus _ d _)
    · exact setReg_moves bus m d _
  | smlal => exact ((setReg_moves bus m n _).trans (setReg_moves bus _ d _)).tail (.idle _ 1)
  | smul => exact setReg_moves bus m d _

theorem saturating_moves (op : SaturatingOp) (d n r : Register) :
    Moves bus m (saturating bus op d n r m) := by
  refine .trans ?_ (setReg_moves bus _ d _)
  split_ifs
  · exact (Move.flag m true (x := .saturation) rfl).moves
  · exact .refl

theorem loadInto_moves (kind : TransferKind) (d : Register) (a : Address) :
    Moves bus m (loadInto bus kind d a m) := by
  cases kind with
  | loadWord => exact (readRotated_moves bus m a _).trans (setRegLoaded_moves bus _ d _)
  | loadHalf => exact (read_moves bus m .half a _).trans (setReg_moves bus _ d _)
  | loadSignedHalf => exact (readSignedHalf_moves bus m a _).trans (setReg_moves bus _ d _)
  | loadByte => exact (read_moves bus m .byte a _).trans (setReg_moves bus _ d _)
  | loadSignedByte => exact (read_moves bus m .byte a _).trans (setReg_moves bus _ d _)
  | loadDouble =>
    have loaded := (read_moves bus m .word a .nonsequential).trans (read_moves bus _ .word (a + 4) .sequel)
    exact (loaded.trans (setReg_moves bus _ d _)).trans (setReg_moves bus _ d.next _)
  | storeWord | storeHalf | storeByte | storeDouble => exact .refl

theorem storeFrom_moves (kind : TransferKind) (d : Register) (a : Address) :
    Moves bus m (storeFrom bus kind d a m) := by
  cases kind with
  | storeWord | storeHalf | storeByte => exact write_memory_moves bus m _ a _ _
  | storeDouble => exact (write_memory_moves bus m _ a _ _).trans (write_memory_moves bus _ _ _ _ _)
  | loadWord | loadHalf | loadSignedHalf | loadByte | loadSignedByte | loadDouble => exact .refl

theorem transfer_moves (kind : TransferKind) (n d : Register) (offset : Offset) (i : Indexing) :
    Moves bus m (transfer bus kind n d offset i m) := by
  have transferred : ∀ a, Moves bus m
      (if kind.isLoad then loadInto bus kind d a m else storeFrom bus kind d a m) := by
    intro a
    split_ifs
    · exact loadInto_moves bus m kind d a
    · exact storeFrom_moves bus m kind d a
  have based : ∀ (c : Bool) m v, Moves bus m (if c then bus.setReg n v m else m) := by
    intro c m v
    split_ifs
    · exact setReg_moves bus m n v
    · exact .refl
  have spent : ∀ m, Moves bus m (if kind.isLoad then m.idle 1 else m) := by
    intro m
    split_ifs
    · exact (Move.idle m 1).moves
    · exact .refl
  exact (((transferred _).trans (based _ _ _)).tail (.nonsequential _)).trans (spent _)

theorem swap_moves (byte : Bool) (n d r : Register) : Moves bus m (swap bus byte n d r m) := by
  cases byte
  all_goals
    refine .trans (.trans (.trans ?_ (write_memory_moves bus _ _ (m.reg n) _ _)) (setReg_moves bus _ d _))
      (idleNonsequential_moves bus _)
  · exact readRotated_moves bus m _ _
  · exact read_moves bus m .byte _ _

theorem storeEach_moves (user : Bool) (early : Register → Bool) (final : Word) (rs : List Register) :
    ∀ (a : Address) (k : Access) (m : Machine σ),
      Moves bus m (storeEach bus user early final rs a k m) := by
  induction rs with
  | nil => exact fun _ _ _ => .refl
  | cons r rs ih =>
    intro a k m
    refine .trans (.trans ?_ (write_memory_moves bus _ .word a _ k)) (ih _ _ _)
    split_ifs
    · exact setReg_moves bus m r final
    · exact .refl

theorem loadEach_moves (user : Bool) (rs : List Register) :
    ∀ (pc : Option Word) (a : Address) (k : Access) (m : Machine σ),
      Moves bus m (loadEach bus user pc rs a k m).2 := by
  induction rs with
  | nil => exact fun _ _ _ _ => .refl
  | cons r rs ih =>
    intro pc a k m
    have loaded := read_moves bus m .word a k
    unfold loadEach
    simp only
    split_ifs with hu hr
    · exact (loaded.trans (writeUser_moves bus _ r _)).trans (ih _ _ _ _)
    · exact loaded.trans (ih _ _ _ _)
    · exact (loaded.trans (write_moves bus _ _ hr)).trans (ih _ _ _ _)

def blockAddress (start : Word) (count : Nat) (i : Indexing) : Address :=
  match i.up, i.before with
  | true, true => start + 4
  | true, false => start
  | false, true => start - BitVec.ofNat 32 (4 * count)
  | false, false => start - BitVec.ofNat 32 (4 * count) + 4

theorem blockAddress_eq (start : Word) (count : Nat) (i : Indexing) :
    blockAddress start count i =
      let lowest := if i.up then start else start - BitVec.ofNat 32 (4 * count)
      if i.before == i.up then lowest + 4 else lowest := by
  obtain ⟨before, up, writeback⟩ := i
  cases before <;> cases up <;> rfl

/-- Whether a base stays as it was loaded from memory: on the older architecture if it is among the registers, and on
the newer one only as the last of several. -/
def keepsBase {α : Type} [BEq α] (v5 : Bool) (registers : List α) (base : α) : Bool :=
  registers.contains base && !(v5 && (registers.length == 1 || registers.getLast? != some base))

/-- Whether the base is written back before a register is stored: on the older architecture it is before it is stored
itself, unless it comes first. -/
def storesFinal (v5 writeback : Bool) (base : Register) (registers : List Register) (r : Register) : Bool :=
  writeback && r == base && some r != registers.head? && !v5

/-- Move the registers to memory or from there; gives a value that was loaded for the program counter. -/
def moveBlock (load : Bool) (n : Register) (list : BitVec 16) (user : Bool) (i : Indexing) (m : Machine σ) :
    Option Word × Machine σ :=
  let registers := Register.ofList list
  let final := Word.offset (m.reg n) (BitVec.ofNat 32 (4 * registers.length)) i.up
  let addr := blockAddress (m.reg n) registers.length i
  let userBank := user && !(user && load && list.getLsbD 15)
  if load then loadEach bus userBank none registers addr .nonsequential m
  else
    (none, storeEach bus userBank (storesFinal bus.isV5 i.writeback n registers) final registers addr .nonsequential m)

def continueAt (returns : Bool) : Option Word → Exec σ Unit
  | none => pure ()
  | some target => do
    let f := (← get).cpu.regs
    if returns && f.mode.hasSaved then do
      Exec.setCpsr f.spsr
      modify (bus.jump target)
    else modify (bus.setRegLoaded Register.pc target)

/-- The end of a transfer, and what one of no registers does. -/
def finishBlock (load : Bool) (n : Register) (list : BitVec 16) (i : Indexing) (m : Machine σ) : Machine σ :=
  let m := if (Register.ofList list).isEmpty then bus.transferNone n (!load) i.up i.before m else m
  let m := m.setFetchKind .nonsequential
  if load then m.idle 1 else m

theorem finishBlock_eq (load : Bool) (n : Register) (list : BitVec 16) (i : Indexing) :
    (modify (finishBlock bus load n list i) : Exec σ Unit) = (do
      if (Register.ofList list).isEmpty then modify (bus.transferNone n (!load) i.up i.before)
      modify (·.setFetchKind .nonsequential)
      if load then modify (·.idle 1)) := by
  unfold finishBlock
  cases (Register.ofList list).isEmpty <;> cases load <;> rfl

/-- The registers move first, then the base, and then a loaded program counter says where to continue. -/
theorem blockTransfer_eq (load : Bool) (n : Register) (list : BitVec 16) (user : Bool) (i : Indexing) :
    blockTransfer bus load n list user i = (do
      let registers := Register.ofList list
      let final := Word.offset ((← get).reg n) (BitVec.ofNat 32 (4 * registers.length)) i.up
      let pc ← modifyGet (moveBlock bus load n list user i)
      let moves := i.writeback && !(load && keepsBase bus.isV5 registers n)
      modify fun m => if moves then bus.setReg n final m else m
      continueAt bus (user && load && list.getLsbD 15) pc
      modify (finishBlock bus load n list i)) := by
  -- Each part that a condition can skip becomes one change of the machine.
  have when : ∀ (c : Prop) [Decidable c] (f : Machine σ → Machine σ) (rest : Unit → Exec σ Unit),
      (if c then modify f >>= rest else rest ()) = (modify fun m => if c then f m else m) >>= rest := by
    intro c _ f rest
    split_ifs <;> rfl
  have kept : (load && (Register.ofList list).contains n && !(bus.isV5 &&
      ((Register.ofList list).length == 1 || (Register.ofList list).getLast? != some n))) =
        (load && keepsBase bus.isV5 (Register.ofList list) n) := Bool.and_assoc ..
  funext m
  unfold blockTransfer
  rw [Exec.get_bind, Exec.get_bind]
  simp only [← blockAddress_eq, kept]
  rw [Exec.modifyGet_bind, Exec.modifyGet_bind]
  generalize hm : (if load = true then loadEach bus _ none _ _ _ m else _) = moved
  have moved_eq : moveBlock bus load n list user i m = moved := hm
  rw [moved_eq]
  obtain ⟨pc, m₁⟩ := moved
  simp only [← finishBlock_eq]
  rw [when]
  refine congrFun (congrArg (modify _ >>= ·) (funext fun _ => ?_)) m₁
  cases pc with
  | none => rfl
  | some target =>
    show _ = continueAt bus _ (some target) >>= _
    unfold continueAt
    rw [bind_assoc]
    refine congrArg (get >>= ·) (funext fun m => ?_)
    simp only
    split_ifs
    · rw [bind_assoc]
    · rfl

theorem moveBlock_moves (load : Bool) (n : Register) (list : BitVec 16) (user : Bool) (i : Indexing) :
    Moves bus m (moveBlock bus load n list user i m).2 := by
  cases load
  · exact storeEach_moves bus _ _ _ _ _ _ m
  · exact loadEach_moves bus _ _ _ _ _ m

theorem continueAt_acting (returns : Bool) (pc : Option Word) : Exec.Acting bus (continueAt bus returns pc) := by
  intro m
  cases pc with
  | none => exact Moves.acts .refl
  | some target =>
    simp only [continueAt, Exec.final_bind, Exec.get_eq]
    split_ifs with h
    · rw [Exec.final_bind, Exec.setCpsr_eq]
      cases hf : m.cpu.regs.setCpsr m.cpu.regs.spsr with
      | ok f => exact (StatusChange.resume target ((Bool.and_eq_true ..).mp h).2 hf).acts
      | error e => exact Moves.acts .refl
    · exact (setRegLoaded_moves bus m Register.pc target).acts

theorem finishBlock_moves (load : Bool) (n : Register) (list : BitVec 16) (i : Indexing) :
    Moves bus m (finishBlock bus load n list i m) := by
  have none : Moves bus m
      (if (Register.ofList list).isEmpty then bus.transferNone n (!load) i.up i.before m else m) := by
    split_ifs
    · exact transferNone_moves bus m n _ _ _
    · exact .refl
  have spent : ∀ m, Moves bus m (if load then m.idle 1 else m) := by
    intro m
    split_ifs
    · exact (Move.idle m 1).moves
    · exact .refl
  exact (none.tail (.nonsequential _)).trans (spent _)

theorem blockTransfer_acting (load : Bool) (n : Register) (list : BitVec 16) (user : Bool) (i : Indexing) :
    Exec.Acting bus (blockTransfer bus load n list user i) := by
  rw [blockTransfer_eq]
  refine Exec.moving_bind_acting Exec.moving_get fun m => ?_
  refine Exec.moving_bind_acting (Exec.moving_modifyGet fun m => moveBlock_moves bus m load n list user i)
    fun pc => ?_
  refine Exec.moving_bind_acting (Exec.moving_modify fun m => ?_) fun _ => ?_
  · split_ifs
    · exact setReg_moves bus m n _
    · exact .refl
  refine Exec.acting_bind_moving (continueAt_acting bus _ pc) fun _ => ?_
  exact Exec.moving_modify fun m => finishBlock_moves bus m load n list i

theorem linkNext_moves : Moves bus m (linkNext m) := setLr_moves bus m _

theorem branchThumb_moves (distance : Int) : Moves bus m (branchThumb bus distance m) :=
  (linkNext_moves bus m).tail (.exchange _ true _)

theorem branchExchange_moves (link : Bool) (r : Register) : Moves bus m (branchExchange bus link r m) := by
  refine .tail ?_ (.exchange _ _ _)
  split_ifs
  · exact linkNext_moves bus m
  · exact .refl

theorem transferControl_moving (inst : Word) (load : Bool) (number : Nat) (reg : ControlRegister)
    (d : Register) : Exec.Moving bus (transferControl bus inst load number reg d) := by
  unfold transferControl
  by_cases hn : number ≠ 15
  · rw [if_pos hn]
    exact Exec.moving_unsupported inst
  rw [if_neg hn]
  cases load with
  | true =>
    refine Exec.moving_bind (Exec.moving_modifyGet fun m => (Move.controlRead m reg).moves) fun v => ?_
    cases v with
    | none => exact Exec.moving_unsupported inst
    | some v =>
      by_cases hd : d = Register.pc
      · simp only [hd, if_true]
        exact Exec.moving_modify fun m => (Move.conditions m v).moves
      · simp only [hd, if_false]
        exact Exec.moving_modify fun m => setReg_moves bus m d v
  | false =>
    refine Exec.moving_bind Exec.moving_get fun m => ?_
    refine Exec.moving_bind (Exec.moving_modifyGet fun m => (Move.controlWrite m reg _).moves) fun b => ?_
    cases b
    · exact Exec.moving_unsupported inst
    · exact Exec.moving_pure ()

theorem perform_acting (word : Word) {i : Instruction} (h : ∀ c, i ≠ .softwareInterrupt c) :
    Exec.Acting bus (perform bus word i) := by
  cases i with
  | branch link distance =>
    refine fun m => Moves.acts (.tail ?_ (.jump _ _))
    split_ifs
    · exact linkNext_moves bus m
    · exact .refl
  | branchThumb distance => exact fun m => (branchThumb_moves bus m distance).acts
  | branchExchange link r => exact fun m => (branchExchange_moves bus m link r).acts
  | dataProcessing op s n d operand => exact processData_acting bus op s n d operand
  | multiply a s d n rs r => exact fun m => (multiply_moves bus m a s d n rs r).acts
  | multiplyLong g a s hi lo rs r => exact fun m => (multiplyLong_moves bus m g a s hi lo rs r).acts
  | halfMultiply op d n s r x y => exact fun m => (halfMultiply_moves bus m op d n s r x y).acts
  | countLeadingZeros d r => exact fun m => (setReg_moves bus m d _).acts
  | saturating op d n r => exact fun m => (saturating_moves bus m op d n r).acts
  | statusRead d saved => exact fun m => (readStatus_moves bus m d saved).acts
  | statusWrite saved flags control source => exact writeStatus_acting bus saved flags control source
  | transfer kind n d offset i => exact fun m => (transfer_moves bus m kind n d offset i).acts
  | blockTransfer load n list user i => exact blockTransfer_acting bus load n list user i
  | swap byte n d r => exact fun m => (swap_moves bus m byte n d r).acts
  | coprocessor load number o1 c1 c2 o2 d => exact (transferControl_moving bus word load number _ d).acting
  | softwareInterrupt c => exact absurd rfl (h c)
  | undefined => exact (Exec.moving_unsupported word).acting

end Lockstep.Arm
