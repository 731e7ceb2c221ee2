import Lockstep.Proofs.Move
import Lockstep.Thumb.Execution
import Mathlib.Tactic.SplitIfs

/-!
Every THUMB instruction but the software interrupt is a run of moves, whether it fails or not.
-/

namespace Lockstep.Thumb

variable {σ : Type} (bus : Bus σ) (m : Machine σ)

theorem wide_ne_pc (r : LowRegister) : r.wide ≠ Register.pc := by
  revert r
  decide

theorem setLow_moves (r : LowRegister) (v : Word) : Moves bus m (setLow r v m) :=
  write_moves bus m v (wide_ne_pc r)

theorem setFlags_moves (s : Sum) : Moves bus m (setFlags s m) := setNZCV_moves bus m true s

theorem keepSum_moves (d : LowRegister) (s : Sum) : Moves bus m (keepSum d s m) :=
  (setFlags_moves bus m s).trans (setLow_moves bus _ d _)

theorem shift_moves (kind : Shift) (d s : LowRegister) (amount : Nat) :
    Moves bus m (shift kind d s amount m) :=
  (setNZC_moves bus m true _ _).trans (setLow_moves bus _ d _)

theorem immediate_moves (op : ImmediateOp) (d : LowRegister) (v : Word) :
    Moves bus m (immediate op d v m) := by
  cases op with
  | mov => exact (setNZ_moves bus m true v).trans (setLow_moves bus _ d v)
  | cmp => exact setFlags_moves bus m _
  | add | sub => exact keepSum_moves bus m d _

theorem aluResult_moves (op : AluOp) (a b : Word) : Moves bus m (aluResult bus op a b m).2 := by
  cases op
  case and | eor | tst | orr | bic | mvn => exact setNZ_moves bus m true _
  case lsl | lsr | asr | ror => exact (idleNonsequential_moves bus m).trans (setNZC_moves bus _ true _ _)
  case adc | sbc | neg | cmp | cmn => exact setFlags_moves bus m _
  case mul =>
    have multiplied := (idleMultiplier_moves bus m a true).trans (setNZ_moves bus _ true (a * b))
    unfold aluResult
    simp only
    split_ifs
    · exact multiplied
    · exact multiplied.tail (.flag _ false (x := .carry) rfl)

theorem alu_moves (op : AluOp) (d s : LowRegister) : Moves bus m (alu bus op d s m) := by
  have computed := aluResult_moves bus m op (low m d) (low m s)
  unfold alu
  simp only
  split_ifs
  · exact computed.trans (setLow_moves bus _ d _)
  · exact computed

theorem high_moves (op : HighOp) (d s : Register) : Moves bus m (high bus op d s m) := by
  cases op with
  | add | mov => exact setReg_moves bus m d _
  | cmp => exact setFlags_moves bus m _

theorem loadRelative_moves (d : LowRegister) (offset : Word) : Moves bus m (loadRelative bus d offset m) :=
  ((readRotated_moves bus m _ _).trans (setLow_moves bus _ d _)).trans (idleNonsequential_moves bus _)

theorem loadInto_moves (op : TransferOp) (d : LowRegister) (a : Address) :
    Moves bus m (loadInto bus op d a m) := by
  cases op with
  | loadWord => exact (readRotated_moves bus m a _).trans (setLow_moves bus _ d _)
  | loadHalf | loadByte | loadSignedByte => exact (read_moves bus m _ a _).trans (setLow_moves bus _ d _)
  | loadSignedHalf => exact (readSignedHalf_moves bus m a _).trans (setLow_moves bus _ d _)
  | storeWord | storeHalf | storeByte => exact .refl

theorem storeFrom_moves (op : TransferOp) (d : LowRegister) (a : Address) :
    Moves bus m (storeFrom bus op d a m) := by
  cases op with
  | storeWord | storeHalf | storeByte => exact write_memory_moves bus m _ a _ _
  | loadWord | loadHalf | loadByte | loadSignedByte | loadSignedHalf => exact .refl

theorem transfer_moves (op : TransferOp) (d : LowRegister) (a : Address) :
    Moves bus m (transfer bus op d a m) := by
  have first : Moves bus m (m.setFetchKind .nonsequential) := (Move.nonsequential m).moves
  unfold transfer
  simp only
  split_ifs
  · exact (first.trans (loadInto_moves bus _ op d a)).tail (.idle _ 1)
  · exact first.trans (storeFrom_moves bus _ op d a)

theorem pushEach_moves (rs : List Register) :
    ∀ (a : Address) (k : Access) (m : Machine σ), Moves bus m (pushEach bus rs a k m).2 := by
  induction rs with
  | nil => exact fun _ _ _ => .refl
  | cons r rs ih => exact fun a k m => (write_memory_moves bus m .word _ _ k).trans (ih _ _ _)

theorem push_moves (list : BitVec 8) (link : Bool) : Moves bus m (push bus list link m) :=
  ((pushEach_moves bus _ _ _ m).trans (setSp_moves bus _ _)).tail (.nonsequential _)

theorem loadEach_moves (rs : List LowRegister) :
    ∀ (a : Address) (k : Access) (m : Machine σ), Moves bus m (loadEach bus rs a k m).2 := by
  induction rs with
  | nil => exact fun _ _ _ => .refl
  | cons r rs ih =>
    exact fun a k m => ((read_moves bus m .word a k).trans (setLow_moves bus _ r _)).trans (ih _ _ _)

theorem pop_moves (list : BitVec 8) (counter : Bool) : Moves bus m (pop bus list counter m) := by
  have loaded := loadEach_moves bus (LowRegister.ofList list) m.cpu.regs.sp .nonsequential m
  unfold pop
  generalize loadEach bus (LowRegister.ofList list) m.cpu.regs.sp .nonsequential m = r at loaded ⊢
  obtain ⟨⟨sp, kind⟩, m₁⟩ := r
  refine .trans (.trans loaded ?_) (idleNonsequential_moves bus _)
  cases counter with
  | false => exact setSp_moves bus m₁ sp
  | true =>
    have popped := (read_moves bus m₁ .word sp kind).trans (setSp_moves bus _ (sp + 4))
    simp only [if_true]
    split_ifs
    · exact popped.tail (.exchange _ false _)
    · exact popped.tail (.jump _ _)

theorem storeEach_moves (base : LowRegister) (final : Address) (rs : List LowRegister) :
    ∀ (a : Address) (k : Access) (m : Machine σ), Moves bus m (storeEach bus base final rs a k m) := by
  induction rs with
  | nil => exact fun _ _ _ => .refl
  | cons r rs ih => exact fun a k m => (write_memory_moves bus m .word a _ k).trans (ih _ _ _)

theorem storeMultiple_moves (base : LowRegister) (list : BitVec 8) :
    Moves bus m (storeMultiple bus base list m) := by
  have stored := storeEach_moves bus base (low m base + BitVec.ofNat 32 (4 * (LowRegister.ofList list).length))
    (LowRegister.ofList list) (low m base) .nonsequential m
  refine .tail (.trans stored ?_) (.nonsequential _)
  split_ifs
  · exact transferNone_moves bus _ _ _ _ _
  · exact setLow_moves bus _ base _

theorem loadMultiple_moves (base : LowRegister) (list : BitVec 8) :
    Moves bus m (loadMultiple bus base list m) := by
  have loaded := loadEach_moves bus (LowRegister.ofList list) (low m base) .nonsequential m
  refine .trans (.trans loaded ?_) (idleNonsequential_moves bus _)
  simp only
  split_ifs
  · exact transferNone_moves bus _ _ _ _ _
  · exact .refl
  · exact setLow_moves bus _ base _

theorem branchExchange_moves (link : Bool) (s : Register) : Moves bus m (branchExchange bus link s m) := by
  refine .tail ?_ (.exchange _ _ _)
  split_ifs
  · exact setLr_moves bus m _
  · exact .refl

theorem branchIf_moves (c : Condition) (distance : Int) : Moves bus m (branchIf bus c distance m) := by
  unfold branchIf
  split_ifs
  · exact (Move.jump m _).moves
  · exact .refl

theorem longBranchSuffix_moves (offset : Word) (exchange : Bool) :
    Moves bus m (longBranchSuffix bus offset exchange m) := by
  have linked : Moves bus m (linkNext m) := setLr_moves bus m _
  cases exchange
  · exact linked.tail (.jump _ _)
  · exact linked.tail (.exchange _ false _)

theorem perform_moving (word : Halfword) {i : Instruction} (h : ∀ n, i ≠ .softwareInterrupt n) :
    Exec.Moving bus (perform bus word i) := by
  cases i with
  | shift kind d s amount => exact fun m => shift_moves bus m kind d s amount
  | addSub sub d s operand => exact fun m => keepSum_moves bus m d _
  | immediate op d v => exact fun m => immediate_moves bus m op d v
  | alu op d s => exact fun m => alu_moves bus m op d s
  | high op d s => exact fun m => high_moves bus m op d s
  | branchExchange link s => exact fun m => branchExchange_moves bus m link s
  | loadRelative d offset => exact fun m => loadRelative_moves bus m d offset
  | transferRegister op d base offset => exact fun m => transfer_moves bus m op d _
  | transferImmediate op d base offset => exact fun m => transfer_moves bus m op d _
  | transferStack load d offset => exact fun m => transfer_moves bus m _ d _
  | loadAddress stack d offset => exact fun m => setLow_moves bus m d _
  | adjustStack distance => exact fun m => setSp_moves bus m _
  | push list link => exact fun m => push_moves bus m list link
  | pop list counter => exact fun m => pop_moves bus m list counter
  | transferMultiple load base list =>
    cases load
    · exact fun m => storeMultiple_moves bus m base list
    · exact fun m => loadMultiple_moves bus m base list
  | branchIf c distance => exact fun m => branchIf_moves bus m c distance
  | softwareInterrupt n => exact absurd rfl (h n)
  | branch distance => exact fun m => (Move.jump m _).moves
  | longBranchPrefix distance => exact fun m => setLr_moves bus m _
  | longBranchSuffix offset exchange => exact fun m => longBranchSuffix_moves bus m offset exchange
  | undefined => exact Exec.moving_unsupported _

end Lockstep.Thumb
