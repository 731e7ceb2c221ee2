import Lockstep.Proofs.Seen
import Lockstep.Proofs.StepMoves

/-!
Every instruction looks the same through a view that the bus looks the same through.
-/

namespace Lockstep

variable {σ τ : Type} {φ : View σ τ} {bus : Bus σ} {bus' : Bus τ}

namespace Thumb

section
variable (φ) (m : Machine σ)

theorem low_seen (r : LowRegister) : low (m.viewed φ) r = low m r := rfl
theorem setLow_seen (r : LowRegister) (v : Word) : setLow r v (m.viewed φ) = (setLow r v m).viewed φ := rfl

theorem immediate_seen (op : ImmediateOp) (d : LowRegister) (v : Word) :
    immediate op d v (m.viewed φ) = (immediate op d v m).viewed φ := by
  cases op <;> rfl

end

variable (h : bus.Shows φ bus') (m : Machine σ)
include h

theorem alu_seen (op : AluOp) (d s : LowRegister) :
    alu bus' op d s (m.viewed φ) = (alu bus op d s m).viewed φ := by
  cases op
  case mul =>
    simp only [alu, aluResult, h.isV5]
    split_ifs <;> rfl
  all_goals rfl

theorem high_seen (op : HighOp) (d s : Register) :
    high bus' op d s (m.viewed φ) = (high bus op d s m).viewed φ := by
  cases op with
  | add | mov => exact h.setReg d _ m
  | cmp => rfl

theorem loadRelative_seen (d : LowRegister) (offset : Word) :
    loadRelative bus' d offset (m.viewed φ) = (loadRelative bus d offset m).viewed φ := by
  simp only [loadRelative, Machine.viewed_cpu, h.readRotated, seenWith, setLow_seen, Machine.viewed_mapCpu]

theorem loadInto_seen (op : TransferOp) (d : LowRegister) (a : Address) :
    loadInto bus' op d a (m.viewed φ) = (loadInto bus op d a m).viewed φ := by
  cases op <;> simp only [loadInto, h.read, h.readRotated, h.readSignedHalf, seenWith, setLow_seen]

theorem storeFrom_seen (op : TransferOp) (d : LowRegister) (a : Address) :
    storeFrom bus' op d a (m.viewed φ) = (storeFrom bus op d a m).viewed φ := by
  cases op <;> simp only [storeFrom, low_seen, h.write]

theorem transfer_seen (op : TransferOp) (d : LowRegister) (a : Address) :
    transfer bus' op d a (m.viewed φ) = (transfer bus op d a m).viewed φ := by
  simp only [transfer, Machine.viewed_setFetchKind, loadInto_seen h, storeFrom_seen h, Machine.viewed_idle,
    Machine.viewed_ite]

theorem pushEach_seen (rs : List Register) (a : Address) (k : Access) :
    pushEach bus' rs a k (m.viewed φ) = seenWith φ (pushEach bus rs a k m) := by
  induction rs generalizing a k m with
  | nil => rfl
  | cons r rs ih => simp only [pushEach, Machine.viewed_reg, h.write, ih]

theorem push_seen (list : BitVec 8) (link : Bool) :
    push bus' list link (m.viewed φ) = (push bus list link m).viewed φ := by
  simp only [push, Machine.viewed_cpu, pushEach_seen h, seenWith, Machine.viewed_mapRegs, Machine.viewed_setFetchKind]

theorem loadEach_seen (rs : List LowRegister) (a : Address) (k : Access) :
    loadEach bus' rs a k (m.viewed φ) = seenWith φ (loadEach bus rs a k m) := by
  induction rs generalizing a k m with
  | nil => rfl
  | cons r rs ih => simp only [loadEach, h.read, seenWith, setLow_seen, ih]

theorem pop_seen (list : BitVec 8) (counter : Bool) :
    pop bus' list counter (m.viewed φ) = (pop bus list counter m).viewed φ := by
  simp only [pop, Machine.viewed_cpu, loadEach_seen h, seenWith, h.read, h.isV5, Machine.viewed_mapRegs,
    Machine.viewed_setFlag, Machine.viewed_ite, h.jump, Machine.viewed_mapCpu]

theorem storeEach_seen (base : LowRegister) (final : Address) (rs : List LowRegister) (a : Address)
    (k : Access) :
    storeEach bus' base final rs a k (m.viewed φ) = (storeEach bus base final rs a k m).viewed φ := by
  induction rs generalizing a k m with
  | nil => rfl
  | cons r rs ih => simp only [storeEach, h.isV5, low_seen, h.write, ih]

theorem storeMultiple_seen (base : LowRegister) (list : BitVec 8) :
    storeMultiple bus' base list (m.viewed φ) = (storeMultiple bus base list m).viewed φ := by
  simp only [storeMultiple, low_seen, storeEach_seen h, h.transferNone, setLow_seen, Machine.viewed_ite,
    Machine.viewed_setFetchKind]

theorem loadMultiple_seen (base : LowRegister) (list : BitVec 8) :
    loadMultiple bus' base list (m.viewed φ) = (loadMultiple bus base list m).viewed φ := by
  simp only [loadMultiple, low_seen, loadEach_seen h, seenWith, h.transferNone, h.isV5, setLow_seen,
    Machine.viewed_ite, Machine.viewed_mapCpu]

theorem branchExchange_seen (link : Bool) (s : Register) :
    branchExchange bus' link s (m.viewed φ) = (branchExchange bus link s m).viewed φ := by
  simp only [branchExchange, linkNext, Machine.viewed_reg, Machine.viewed_mapRegs, Machine.viewed_ite, h.jumpExchange]

theorem branchIf_seen (c : Condition) (distance : Int) :
    branchIf bus' c distance (m.viewed φ) = (branchIf bus c distance m).viewed φ := by
  simp only [branchIf, Machine.viewed_cpu, h.jumpRelative, Machine.viewed_ite]

theorem longBranchSuffix_seen (offset : Word) (exchange : Bool) :
    longBranchSuffix bus' offset exchange (m.viewed φ) = (longBranchSuffix bus offset exchange m).viewed φ := by
  simp only [longBranchSuffix, linkNext, Machine.viewed_cpu, Machine.viewed_mapRegs, Machine.viewed_setFlag,
    Machine.viewed_ite, h.jump]

omit m in
theorem perform_seen (word : Halfword) (i : Instruction) :
    Exec.Shows φ (perform bus word i) (perform bus' word i) := by
  cases i with
  | shift | addSub => exact Exec.shows_modify fun _ => rfl
  | immediate op d v => exact Exec.shows_modify fun m => immediate_seen φ m op d v
  | alu op d s => exact Exec.shows_modify fun m => alu_seen h m op d s
  | high op d s => exact Exec.shows_modify fun m => high_seen h m op d s
  | branchExchange link s => exact Exec.shows_modify fun m => branchExchange_seen h m link s
  | loadRelative d offset => exact Exec.shows_modify fun m => loadRelative_seen h m d offset
  | transferRegister op d base offset => exact Exec.shows_modify fun m => transfer_seen h m op d _
  | transferImmediate op d base offset => exact Exec.shows_modify fun m => transfer_seen h m op d _
  | transferStack load d offset => exact Exec.shows_modify fun m => transfer_seen h m _ d _
  | loadAddress | adjustStack | longBranchPrefix => exact Exec.shows_modify fun _ => rfl
  | push list link => exact Exec.shows_modify fun m => push_seen h m list link
  | pop list counter => exact Exec.shows_modify fun m => pop_seen h m list counter
  | transferMultiple load base list =>
    cases load
    · exact Exec.shows_modify fun m => storeMultiple_seen h m base list
    · exact Exec.shows_modify fun m => loadMultiple_seen h m base list
  | branchIf c distance => exact Exec.shows_modify fun m => branchIf_seen h m c distance
  | softwareInterrupt n => exact h.softwareInterrupt n
  | branch distance => exact Exec.shows_modify fun m => h.jumpRelative distance m
  | longBranchSuffix offset exchange =>
    exact Exec.shows_modify fun m => longBranchSuffix_seen h m offset exchange
  | undefined => exact Exec.shows_unsupported _

omit m in
theorem execute_seen (x : Halfword) : Exec.Shows φ (execute bus x) (execute bus' x) := by
  unfold execute
  rw [h.isV5]
  exact perform_seen h x _

end Thumb

namespace Arm

section
variable (φ) (m : Machine σ)

theorem fetchOperands_seen (n : Register) (operand : Operand) :
    fetchOperands n operand (m.viewed φ) = seenWith φ (fetchOperands n operand m) := by
  cases operand with
  | immediate v c => rfl
  | shifted r kind amount => cases amount <;> rfl

theorem accumulateHalf_seen (product acc : Word) :
    accumulateHalf product acc (m.viewed φ) = seenWith φ (accumulateHalf product acc m) := by
  simp only [accumulateHalf, Machine.viewed_setFlag, Machine.viewed_ite, seenWith]

theorem distance_seen (o : Offset) : o.distance (m.viewed φ) = o.distance m := by
  cases o <;> rfl

end

variable (h : bus.Shows φ bus') (m : Machine σ)
include h

omit m in
theorem finish_seen (restores writes : Bool) (d : Register) (v : Word) :
    Exec.Shows φ (finish bus restores writes d v) (finish bus' restores writes d v) := by
  refine Exec.shows_get fun m => ?_
  simp only [Machine.viewed_cpu]
  refine Exec.shows_when (Exec.shows_setCpsr _) (fun _ => Exec.shows_unless ?_ (Exec.shows_pure ())) m
  exact Exec.shows_modify fun m => h.setReg d v m

omit m in
theorem processData_seen (op : AluOp) (set : Bool) (n d : Register) (operand : Operand) :
    Exec.Shows φ (processData bus op set n d operand) (processData bus' op set n d operand) := by
  rw [processData_eq, processData_eq]
  refine Exec.shows_get fun m => ?_
  refine Exec.shows_bind (Exec.shows_modifyGet fun m => fetchOperands_seen φ m n operand) ?_ m
  rintro ⟨a, b⟩
  exact Exec.shows_bind (Exec.shows_modifyGet fun m => rfl) fun v => finish_seen h _ _ d v

theorem readStatus_seen (d : Register) (saved : Bool) :
    readStatus bus' d saved (m.viewed φ) = (readStatus bus d saved m).viewed φ := h.setReg d _ m

omit h m in
theorem writeStatus_seen (saved flags control : Bool) (source : StatusSource) :
    Exec.Shows φ (writeStatus saved flags control source : Exec σ Unit)
      (writeStatus saved flags control source) := by
  rw [writeStatus_eq, writeStatus_eq]
  refine Exec.shows_get fun m => ?_
  cases saved
  · exact Exec.shows_setCpsr _ m
  · rfl

theorem clearCarryOnV4_seen : clearCarryOnV4 bus' (m.viewed φ) = (clearCarryOnV4 bus m).viewed φ := by
  simp only [clearCarryOnV4, h.isV5, Machine.viewed_setFlag, Machine.viewed_ite]

theorem multiply_seen (accumulate set : Bool) (d n s r : Register) :
    multiply bus' accumulate set d n s r (m.viewed φ) = (multiply bus accumulate set d n s r m).viewed φ := by
  cases accumulate <;> cases set <;>
    simp only [multiply, Machine.viewed_reg, Machine.viewed_idle, h.setReg, Machine.viewed_mapRegs,
      clearCarryOnV4_seen h, if_true, Bool.false_eq_true, if_false, Machine.viewed_idleMultiplier]

theorem multiplyLong_seen (signed accumulate set : Bool) (hi lo s r : Register) :
    multiplyLong bus' signed accumulate set hi lo s r (m.viewed φ) =
      (multiplyLong bus signed accumulate set hi lo s r m).viewed φ := by
  cases accumulate <;> cases set <;>
    simp only [multiplyLong, Machine.viewed_reg, Machine.viewed_idle, h.setReg, Machine.viewed_setFlag,
      clearCarryOnV4_seen h, if_true, Bool.false_eq_true, if_false, Machine.viewed_idleMultiplier]

theorem halfMultiply_seen (op : HalfMulOp) (d n s r : Register) (top₁ top₂ : Bool) :
    halfMultiply bus' op d n s r top₁ top₂ (m.viewed φ) =
      (halfMultiply bus op d n s r top₁ top₂ m).viewed φ := by
  cases op <;>
    simp only [halfMultiply, Machine.viewed_reg, accumulateHalf_seen, seenWith, h.setReg, Machine.viewed_idle,
      Machine.viewed_ite]

theorem saturating_seen (op : SaturatingOp) (d n r : Register) :
    saturating bus' op d n r (m.viewed φ) = (saturating bus op d n r m).viewed φ := by
  have marked : ∀ saturated : Bool,
      (if saturated then (m.viewed φ).setFlag .saturation true else m.viewed φ) =
        (if saturated then m.setFlag .saturation true else m).viewed φ := by
    intro saturated
    cases saturated <;> rfl
  refine Eq.trans ?_ (h.setReg d _ _)
  exact congrArg (bus'.setReg d _) (marked _)

theorem loadInto_seen (kind : TransferKind) (d : Register) (a : Address) :
    loadInto bus' kind d a (m.viewed φ) = (loadInto bus kind d a m).viewed φ := by
  cases kind <;>
    simp only [loadInto, h.read, h.readRotated, h.readSignedHalf, seenWith, h.setReg, h.setRegLoaded]

theorem storeFrom_seen (kind : TransferKind) (d : Register) (a : Address) :
    storeFrom bus' kind d a (m.viewed φ) = (storeFrom bus kind d a m).viewed φ := by
  cases kind <;> simp only [storeFrom, Machine.viewed_regLate, h.write]

theorem transfer_seen (kind : TransferKind) (n d : Register) (offset : Offset) (i : Indexing) :
    transfer bus' kind n d offset i (m.viewed φ) = (transfer bus kind n d offset i m).viewed φ := by
  simp only [transfer, Machine.viewed_reg, distance_seen, loadInto_seen h, storeFrom_seen h, h.setReg,
    Machine.viewed_ite, Machine.viewed_setFetchKind, Machine.viewed_idle]

theorem swap_seen (byte : Bool) (n d r : Register) :
    swap bus' byte n d r (m.viewed φ) = (swap bus byte n d r m).viewed φ := by
  cases byte <;>
    simp only [swap, Machine.viewed_reg, h.read, h.readRotated, seenWith, if_true, Bool.false_eq_true, if_false,
      h.write, h.setReg, Machine.viewed_mapCpu]

theorem storeEach_seen (user : Bool) (early : Register → Bool) (final : Word) (rs : List Register)
    (a : Address) (k : Access) :
    storeEach bus' user early final rs a k (m.viewed φ) = (storeEach bus user early final rs a k m).viewed φ := by
  induction rs generalizing a k m with
  | nil => rfl
  | cons r rs ih =>
    simp only [storeEach, h.setReg, Machine.viewed_ite, Machine.viewed_regLate, Machine.viewed_cpu,
      Machine.viewed_reg, h.write, ih]

theorem loadEach_seen (user : Bool) (pc : Option Word) (rs : List Register) (a : Address) (k : Access) :
    loadEach bus' user pc rs a k (m.viewed φ) = seenWith φ (loadEach bus user pc rs a k m) := by
  induction rs generalizing pc a k m with
  | nil => rfl
  | cons r rs ih =>
    simp only [loadEach, h.read, seenWith, Machine.viewed_mapRegs]
    split_ifs <;> exact ih _ _ _ _

theorem moveBlock_seen (load : Bool) (n : Register) (list : BitVec 16) (user : Bool) (i : Indexing) :
    moveBlock bus' load n list user i (m.viewed φ) = seenWith φ (moveBlock bus load n list user i m) := by
  simp only [moveBlock, Machine.viewed_reg, h.isV5]
  cases load
  · exact congrArg (Prod.mk none) (storeEach_seen h m _ _ _ _ _ _)
  · exact loadEach_seen h m _ _ _ _ _

theorem continueAt_seen (returns : Bool) (pc : Option Word) :
    Exec.Shows φ (continueAt bus returns pc) (continueAt bus' returns pc) := by
  cases pc with
  | none => exact Exec.shows_pure ()
  | some target =>
    refine Exec.shows_get fun m => Exec.shows_unless ?_ ?_ m
    · exact Exec.shows_bind (Exec.shows_setCpsr _) fun _ => Exec.shows_modify fun m => h.jump target m
    · exact Exec.shows_modify fun m => h.setRegLoaded _ target m

theorem finishBlock_seen (load : Bool) (n : Register) (list : BitVec 16) (i : Indexing) :
    finishBlock bus' load n list i (m.viewed φ) = (finishBlock bus load n list i m).viewed φ := by
  simp only [finishBlock, h.transferNone, Machine.viewed_ite, Machine.viewed_setFetchKind, Machine.viewed_idle]

theorem blockTransfer_seen (load : Bool) (n : Register) (list : BitVec 16) (user : Bool) (i : Indexing) :
    Exec.Shows φ (blockTransfer bus load n list user i) (blockTransfer bus' load n list user i) := by
  rw [blockTransfer_eq, blockTransfer_eq]
  refine Exec.shows_get fun m => ?_
  simp only [Machine.viewed_reg, h.isV5]
  refine Exec.shows_bind (Exec.shows_modifyGet fun m => moveBlock_seen h m load n list user i) (fun pc => ?_) m
  refine Exec.shows_bind (Exec.shows_modify fun m => ?_) fun _ => ?_
  · simp only [h.setReg, Machine.viewed_ite]
  refine Exec.shows_bind (continueAt_seen h _ pc) fun _ => ?_
  exact Exec.shows_modify fun m => finishBlock_seen h m load n list i

theorem transferControl_seen (inst : Word) (load : Bool) (number : Nat) (reg : ControlRegister)
    (d : Register) :
    Exec.Shows φ (transferControl bus inst load number reg d)
      (transferControl bus' inst load number reg d) := by
  unfold transferControl
  refine Exec.shows_unless (Exec.shows_unsupported inst) (Exec.shows_unless ?_ ?_)
  · refine Exec.shows_bind (Exec.shows_modifyGet fun m => h.controlRead reg m) fun v => ?_
    cases v with
    | none => exact Exec.shows_unsupported inst
    | some v =>
      refine Exec.shows_unless (Exec.shows_modify fun _ => rfl) ?_
      exact Exec.shows_modify fun m => h.setReg d v m
  · refine Exec.shows_get fun m => ?_
    refine Exec.shows_bind (Exec.shows_modifyGet fun m => h.controlWrite reg _ m) (fun b => ?_) m
    exact Exec.shows_unless (Exec.shows_pure ()) (Exec.shows_unsupported inst)

theorem branchThumb_seen (distance : Int) (m : Machine σ) :
    branchThumb bus' distance (m.viewed φ) = (branchThumb bus distance m).viewed φ :=
  h.jumpRelative distance ((linkNext m).setFlag .thumb true)

theorem branchExchange_seen (link : Bool) (r : Register) (m : Machine σ) :
    branchExchange bus' link r (m.viewed φ) = (branchExchange bus link r m).viewed φ := by
  simp only [branchExchange, linkNext, Machine.viewed_reg, Machine.viewed_mapRegs,
    Machine.viewed_ite, h.jumpExchange]

theorem branch_seen (link : Bool) (distance : Int) (m : Machine σ) :
    bus'.jumpRelative distance (if link then linkNext (m.viewed φ) else m.viewed φ) =
      (bus.jumpRelative distance (if link then linkNext m else m)).viewed φ := by
  simp only [linkNext, Machine.viewed_mapRegs, Machine.viewed_ite, h.jumpRelative]

theorem perform_seen (word : Word) (i : Instruction) :
    Exec.Shows φ (perform bus word i) (perform bus' word i) := by
  cases i with
  | branch link distance => exact Exec.shows_modify fun m => branch_seen h link distance m
  | branchThumb distance => exact Exec.shows_modify fun m => branchThumb_seen h distance m
  | branchExchange link r => exact Exec.shows_modify fun m => branchExchange_seen h link r m
  | dataProcessing op set n d operand => exact processData_seen h op set n d operand
  | multiply accumulate set d n s r =>
    exact Exec.shows_modify fun m => multiply_seen h m accumulate set d n s r
  | multiplyLong signed accumulate set hi lo s r =>
    exact Exec.shows_modify fun m => multiplyLong_seen h m signed accumulate set hi lo s r
  | halfMultiply op d n s r top₁ top₂ =>
    exact Exec.shows_modify fun m => halfMultiply_seen h m op d n s r top₁ top₂
  | countLeadingZeros d r => exact Exec.shows_modify fun m => h.setReg d _ m
  | saturating op d n r => exact Exec.shows_modify fun m => saturating_seen h m op d n r
  | statusRead d saved => exact Exec.shows_modify fun m => readStatus_seen h m d saved
  | statusWrite saved flags control source => exact writeStatus_seen saved flags control source
  | transfer kind n d offset i => exact Exec.shows_modify fun m => transfer_seen h m kind n d offset i
  | blockTransfer load n list user i => exact blockTransfer_seen h load n list user i
  | swap byte n d r => exact Exec.shows_modify fun m => swap_seen h m byte n d r
  | coprocessor load number _ _ _ _ d => exact transferControl_seen h word load number _ d
  | softwareInterrupt comment => exact h.softwareInterrupt _
  | undefined => exact Exec.shows_unsupported word

theorem execute_seen (w : Word) : Exec.Shows φ (execute bus w) (execute bus' w) := by
  intro m
  rw [execute_eq, execute_eq, h.isV5, Machine.viewed_cpu]
  split_ifs
  · exact perform_seen h w _ m
  · rfl

end Arm

end Lockstep
