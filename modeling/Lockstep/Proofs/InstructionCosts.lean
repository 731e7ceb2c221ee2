import Lockstep.Proofs.Spending
import Mathlib.Tactic.IntervalCases

/-!
What each instruction costs. Beside its waits an instruction takes internal cycles: one for a load, an exchange
or a shift amount out of a register, and as many as the multiplier needs for a multiplication.
-/

namespace Lockstep

variable {σ : Type}

/-- Whether a number is determined by its lowest bytes. -/
def Word.Fits (v : Word) (signed : Bool) (bytes : Nat) : Prop :=
  if signed then -2 ^ (8 * bytes) ≤ v.toInt ∧ v.toInt < 2 ^ (8 * bytes) else v.toNat < 2 ^ (8 * bytes)

/-- The bits from `n` upwards. -/
theorem getLsbD_above (n i : Nat) :
    (BitVec.allOnes 32 <<< n).getLsbD i = (decide (n ≤ i) && decide (i < 32)) := by
  rw [BitVec.getLsbD_shiftLeft, BitVec.getLsbD_allOnes, Bool.eq_iff_iff]
  simp only [Bool.and_eq_true, Bool.not_eq_true', decide_eq_true_eq, decide_eq_false_iff_not]
  omega

theorem clear_above (v : Word) (n : Nat) : v &&& BitVec.allOnes 32 <<< n = 0 ↔ v.toNat < 2 ^ n := by
  constructor
  · intro h
    refine Nat.lt_pow_two_of_testBit v.toNat fun i hi => ?_
    have bit := congrArg (·.getLsbD i) h
    simp only [BitVec.getLsbD_and, getLsbD_above] at bit
    grind [BitVec.testBit_toNat]
  · intro h
    refine BitVec.eq_of_getLsbD_eq fun i hi => ?_
    rw [BitVec.getLsbD_and, getLsbD_above]
    by_cases above : n ≤ i
    · have clear : v.getLsbD i = false :=
        Nat.testBit_lt_two_pow (h.trans_le (Nat.pow_le_pow_right (by decide) above))
      simp [clear]
    · simp [above]

theorem set_above (v : Word) (n : Nat) :
    v &&& BitVec.allOnes 32 <<< n = BitVec.allOnes 32 <<< n ↔ 2 ^ 32 ≤ v.toNat + 2 ^ n := by
  have complement : v &&& BitVec.allOnes 32 <<< n = BitVec.allOnes 32 <<< n ↔
      ~~~v &&& BitVec.allOnes 32 <<< n = 0 := by
    simp only [BitVec.eq_of_getLsbD_eq_iff, BitVec.getLsbD_and, BitVec.getLsbD_not]
    grind
  have bound := v.isLt
  rw [complement, clear_above, BitVec.toNat_not]
  omega

theorem Word.Fits.mono {v : Word} {signed : Bool} {i j : Nat} (h : v.Fits signed i) (le : i ≤ j) :
    v.Fits signed j := by
  have grows : 2 ^ (8 * i) ≤ 2 ^ (8 * j) := Nat.pow_le_pow_right (by decide) (by omega)
  cases signed with
  | false => exact Nat.lt_of_lt_of_le h grows
  | true =>
    have grows : (2 : Int) ^ (8 * i) ≤ 2 ^ (8 * j) := by exact_mod_cast grows
    exact ⟨(Int.neg_le_neg grows).trans h.1, h.2.trans_le grows⟩

instance (v : Word) (signed : Bool) (bytes : Nat) : Decidable (v.Fits signed bytes) :=
  inferInstanceAs (Decidable (if signed then _ ∧ _ else _ < _))

/-- What the multiplier tests before it goes on to the next byte. -/
theorem settled_eq (v : Word) (signed : Bool) {bytes : Nat} (positive : 0 < bytes) (small : bytes < 4) :
    (v &&& BitVec.allOnes 32 <<< (8 * bytes) == 0 ||
      signed && v &&& BitVec.allOnes 32 <<< (8 * bytes) == BitVec.allOnes 32 <<< (8 * bytes)) =
        decide (v.Fits signed bytes) := by
  have bound := v.isLt
  rw [Bool.eq_iff_iff, Bool.or_eq_true, Bool.and_eq_true, beq_iff_eq, beq_iff_eq, clear_above, set_above,
    decide_eq_true_eq, Word.Fits, BitVec.toInt_eq_toNat_cond]
  interval_cases bytes <;> cases signed <;> simp <;> split_ifs <;> omega

theorem multiplierCycles_eq (v : Word) (signed : Bool) :
    multiplierCycles v signed = (([1, 2, 3].find? fun n => v.Fits signed n).getD 4) := by
  unfold multiplierCycles
  simp only [List.find?_cons, List.find?_nil]
  rw [settled_eq v signed (by decide) (by decide), settled_eq v signed (by decide) (by decide),
    settled_eq v signed (by decide) (by decide)]

/-- The multiplier stops after the bytes that determine its operand, and takes four cycles at most. -/
theorem multiplierCycles_le_iff (v : Word) (signed : Bool) {n : Nat} (positive : 0 < n) :
    multiplierCycles v signed ≤ n ↔ 4 ≤ n ∨ v.Fits signed n := by
  have later : v.Fits signed 1 → v.Fits signed 2 := fun fits => fits.mono (by decide)
  have last : v.Fits signed 2 → v.Fits signed 3 := fun fits => fits.mono (by decide)
  rw [multiplierCycles_eq]
  simp only [List.find?_cons, List.find?_nil]
  obtain rfl | rfl | rfl | large : n = 1 ∨ n = 2 ∨ n = 3 ∨ 4 ≤ n := by omega
  all_goals grind

namespace Thumb

/-- The internal cycles of an instruction that executes with the registers `f`. -/
def Instruction.internalCycles (f : Registers) : Instruction → Nat
  | .alu op d _ =>
    match op with
    | .lsl | .lsr | .asr | .ror => 1
    | .mul => multiplierCycles (f.read d.wide) true
    | _ => 0
  | .transferRegister op _ _ _ | .transferImmediate op _ _ _ => if op.isLoad then 1 else 0
  | .transferStack load _ _ | .transferMultiple load _ _ => if load then 1 else 0
  | .loadRelative .. | .pop .. => 1
  | _ => 0

end Thumb

namespace Arm

def Instruction.internalCycles (f : Registers) : Instruction → Nat
  | .dataProcessing _ _ _ _ (.shifted _ _ (.register _)) => 1
  | .multiply accumulate _ _ _ s _ => (if accumulate then 1 else 0) + multiplierCycles (f.read s) true
  | .multiplyLong signed accumulate _ _ _ s _ =>
    (if accumulate then 2 else 1) + multiplierCycles (f.read s) signed
  | .halfMultiply .smlal .. => 1
  | .transfer kind .. => if kind.isLoad then 1 else 0
  | .blockTransfer load .. => if load then 1 else 0
  | .swap .. => 1
  | _ => 0

end Arm

variable {bus : Bus σ} (h : bus.SparesClock) (m : Machine (σ × Transcript))
include h

namespace Thumb

omit h in
theorem alu_spends (op : AluOp) (d s : LowRegister) :
    m.Spends ((Instruction.alu op d s).internalCycles m.cpu.regs) (alu bus.recorded op d s m) := by
  cases op
  case mul =>
    unfold alu aluResult
    simp only
    split_ifs <;> exact .own rfl rfl
  all_goals exact .own rfl rfl

theorem high_spends (op : HighOp) (d s : Register) : m.Spends 0 (high bus.recorded op d s m) := by
  cases op with
  | add | mov => exact h.setReg m d _
  | cmp => exact .own rfl rfl

theorem loadRelative_spends (d : LowRegister) (offset : Word) :
    m.Spends 1 (loadRelative bus.recorded d offset m) :=
  ((h.readRotated m rfl rfl _).after rfl rfl).idleNonsequential

theorem loadInto_spends (op : TransferOp) (d : LowRegister) (a : Address) :
    m.Spends 0 (loadInto bus.recorded op d a m) := by
  cases op with
  | loadWord => exact (h.readRotated m rfl rfl a).after rfl rfl
  | loadHalf | loadByte | loadSignedByte => exact (h.read m rfl rfl _ a).after rfl rfl
  | loadSignedHalf => exact (h.readSignedHalf m rfl rfl a).after rfl rfl
  | storeWord | storeHalf | storeByte => exact .refl m

theorem storeFrom_spends (op : TransferOp) (d : LowRegister) (a : Address) :
    m.Spends 0 (storeFrom bus.recorded op d a m) := by
  cases op with
  | storeWord | storeHalf | storeByte => exact h.write m rfl _ a _
  | loadWord | loadHalf | loadByte | loadSignedByte | loadSignedHalf => exact .refl m

theorem transfer_spends (op : TransferOp) (d : LowRegister) (a : Address) :
    m.Spends (if op.isLoad then 1 else 0) (transfer bus.recorded op d a m) := by
  unfold transfer
  simp only
  split_ifs
  · exact ((loadInto_spends h (m.setFetchKind .nonsequential) op d a).before rfl rfl).idle 1
  · exact (storeFrom_spends h (m.setFetchKind .nonsequential) op d a).before rfl rfl

theorem pushEach_spends (rs : List Register) (a : Address) {k : Access} (code : k.code = false) :
    m.Spends 0 (pushEach bus.recorded rs a k m).2 := by
  induction rs generalizing a k m with
  | nil => exact .refl m
  | cons r rs ih => exact (h.write m code .word _ _).next (ih _ _ (k := .sequel) rfl)

theorem push_spends (list : BitVec 8) (link : Bool) : m.Spends 0 (push bus.recorded list link m) :=
  (pushEach_spends h m _ _ (k := .nonsequential) rfl).after rfl rfl

theorem loadEach_spends (rs : List LowRegister) (a : Address) {k : Access} (code : k.code = false)
    (write : k.write = false) : m.Spends 0 (loadEach bus.recorded rs a k m).2 := by
  induction rs generalizing a k m with
  | nil => exact .refl m
  | cons r rs ih => exact ((h.read m code write .word a).after rfl rfl).next (ih _ _ (k := .sequel) rfl rfl)

omit h in
variable (bus) in
/-- Each of several loads is of the kind that it was asked for or a sequel to another. -/
theorem loadEach_kind (rs : List LowRegister) (a : Address) (k : Access) :
    (loadEach bus.recorded rs a k m).1.2 = if rs.isEmpty then k else .sequel := by
  induction rs generalizing a k m with
  | nil => rfl
  | cons r rs ih =>
    refine (ih _ _ _).trans ?_
    exact ite_self _

theorem pop_spends (list : BitVec 8) (counter : Bool) : m.Spends 1 (pop bus.recorded list counter m) := by
  have loaded := loadEach_spends h m (LowRegister.ofList list) m.cpu.regs.sp (k := .nonsequential) rfl rfl
  have kind := loadEach_kind bus m (LowRegister.ofList list) m.cpu.regs.sp .nonsequential
  unfold pop
  generalize loadEach bus.recorded (LowRegister.ofList list) m.cpu.regs.sp .nonsequential m = r at loaded kind ⊢
  obtain ⟨⟨sp, k⟩, m₁⟩ := r
  refine (loaded.next ?_).idleNonsequential
  cases counter with
  | false => exact .own rfl rfl
  | true =>
    have data : k.code = false ∧ k.write = false := by
      rw [show k = _ from kind]
      split_ifs <;> exact ⟨rfl, rfl⟩
    have popped := h.read m₁ data.1 data.2 .word sp
    simp only [if_true]
    split_ifs
    · exact popped.next ((h.jump _ _).before rfl rfl)
    · exact popped.next ((h.jump _ _).before rfl rfl)

theorem storeEach_spends (base : LowRegister) (final : Address) (rs : List LowRegister) (a : Address)
    {k : Access} (code : k.code = false) : m.Spends 0 (storeEach bus.recorded base final rs a k m) := by
  induction rs generalizing a k m with
  | nil => exact .refl m
  | cons r rs ih => exact (h.write m code .word a _).next (ih _ _ (k := .sequel) rfl)

theorem storeMultiple_spends (base : LowRegister) (list : BitVec 8) :
    m.Spends 0 (storeMultiple bus.recorded base list m) := by
  have stored := storeEach_spends h m base (low m base + BitVec.ofNat 32 (4 * (LowRegister.ofList list).length))
    (LowRegister.ofList list) (low m base) (k := .nonsequential) rfl
  refine (stored.next ?_).setFetchKind _
  split_ifs
  · exact h.transferNone _ _ _ _ _
  · exact .own rfl rfl

theorem loadMultiple_spends (base : LowRegister) (list : BitVec 8) :
    m.Spends 1 (loadMultiple bus.recorded base list m) := by
  have loaded := loadEach_spends h m (LowRegister.ofList list) (low m base) (k := .nonsequential) rfl rfl
  refine (loaded.next ?_).idleNonsequential
  simp only
  split_ifs
  · exact h.transferNone _ _ _ _ _
  · exact .refl _
  · exact .own rfl rfl

theorem branchExchange_spends (link : Bool) (s : Register) :
    m.Spends 0 (branchExchange bus.recorded link s m) := by
  cases link
  · exact h.jumpExchange m _
  · exact (h.jumpExchange (linkNext m) _).before rfl rfl

theorem branchIf_spends (c : Condition) (distance : Int) :
    m.Spends 0 (branchIf bus.recorded c distance m) := by
  unfold branchIf
  split_ifs
  · exact h.jump m _
  · exact .refl m

theorem longBranchSuffix_spends (offset : Word) (exchange : Bool) :
    m.Spends 0 (longBranchSuffix bus.recorded offset exchange m) := by
  cases exchange
  · exact h.jumpWith m _ _
  · exact (h.jumpWith (linkNext m) _ _).before rfl rfl

/-- A THUMB instruction takes its waits and its internal cycles, unless the system carries it out itself. -/
theorem perform_spends (word : Halfword) {i : Instruction}
    (unhandled : ∀ n m₁, i = .softwareInterrupt n → bus.softwareCall n (m.seen Prod.fst) ≠ .ok true m₁) :
    Exec.Spends (perform bus.recorded word i) m (i.internalCycles m.cpu.regs) := by
  cases i with
  | shift | addSub | loadAddress | adjustStack | longBranchPrefix => exact Exec.spends_modify (.own rfl rfl)
  | immediate op d v => cases op <;> exact Exec.spends_modify (.own rfl rfl)
  | alu op d s => exact Exec.spends_modify (alu_spends m op d s)
  | high op d s => exact Exec.spends_modify (high_spends h m op d s)
  | branchExchange link s => exact Exec.spends_modify (branchExchange_spends h m link s)
  | loadRelative d offset => exact Exec.spends_modify (loadRelative_spends h m d offset)
  | transferRegister op d base offset => exact Exec.spends_modify (transfer_spends h m op d _)
  | transferImmediate op d base offset => exact Exec.spends_modify (transfer_spends h m op d _)
  | transferStack load d offset => cases load <;> exact Exec.spends_modify (transfer_spends h m _ d _)
  | push list link => exact Exec.spends_modify (push_spends h m list link)
  | pop list counter => exact Exec.spends_modify (pop_spends h m list counter)
  | transferMultiple load base list =>
    cases load
    · exact Exec.spends_modify (storeMultiple_spends h m base list)
    · exact Exec.spends_modify (loadMultiple_spends h m base list)
  | branchIf c distance => exact Exec.spends_modify (branchIf_spends h m c distance)
  | softwareInterrupt n => exact h.softwareInterrupt_spends m n fun m₁ => unhandled n m₁ rfl
  | branch distance => exact Exec.spends_modify (h.jump m _)
  | longBranchSuffix offset exchange => exact Exec.spends_modify (longBranchSuffix_spends h m offset exchange)
  | undefined => exact Exec.spends_error rfl

end Thumb

namespace Arm

omit h in
theorem fetchOperands_spends (op : AluOp) (set : Bool) (n d : Register) (operand : Operand) :
    m.Spends ((Instruction.dataProcessing op set n d operand).internalCycles m.cpu.regs)
      (fetchOperands n operand m).2 := by
  cases operand with
  | immediate v c => exact .refl m
  | shifted r kind amount =>
    cases amount with
    | immediate k => exact .refl m
    | register s => exact .own rfl rfl

theorem finish_spends (restores writes : Bool) (d : Register) (value : Word) :
    Exec.Spends (finish bus.recorded restores writes d value) m 0 := by
  refine Exec.spends_get (Exec.spends_when (Exec.spends_setCpsr _) fun _ m' => ?_)
  split_ifs
  · exact Exec.spends_modify (h.setReg m' d value)
  · exact Exec.spends_pure ()

theorem processData_spends (op : AluOp) (set : Bool) (n d : Register) (operand : Operand) :
    Exec.Spends (processData bus.recorded op set n d operand) m
      ((Instruction.dataProcessing op set n d operand).internalCycles m.cpu.regs) := by
  rw [processData_eq]
  refine Exec.spends_get (Exec.spends_bind (j := 0)
    (Exec.spends_modifyGet (fetchOperands_spends m op set n d operand)) ?_)
  rintro ⟨a, b⟩ m' -
  refine Exec.spends_next (Exec.spends_modifyGet (.own rfl rfl)) fun v m'' _ => ?_
  exact finish_spends h m'' _ _ d v

omit h in
theorem writeStatus_spends (saved flags control : Bool) (source : StatusSource) :
    Exec.Spends (writeStatus saved flags control source) m 0 := by
  rw [writeStatus_eq]
  refine Exec.spends_get ?_
  cases saved
  · exact Exec.spends_setCpsr _
  · exact Exec.spends_modify (.own rfl rfl)

omit h in
theorem clearCarryOnV4_spends : m.Spends 0 (clearCarryOnV4 bus.recorded m) := by
  unfold clearCarryOnV4
  split_ifs
  · exact .refl m
  · exact .own rfl rfl

theorem multiply_spends (accumulate set : Bool) (d n s r : Register) :
    m.Spends ((Instruction.multiply accumulate set d n s r).internalCycles m.cpu.regs)
      (multiply bus.recorded accumulate set d n s r m) := by
  have written : ∀ (m : Machine (σ × Transcript)) v, m.Spends 0
      (if set then clearCarryOnV4 bus.recorded ((bus.recorded.setReg d v m).mapRegs (·.setNZ true v))
        else bus.recorded.setReg d v m) := by
    intro m v
    split_ifs
    · exact ((h.setReg m d v).after rfl rfl).next (clearCarryOnV4_spends _)
    · exact h.setReg m d v
  cases accumulate
  · exact (written m _).idleMultiplier _ _
  · exact (((Machine.Spends.refl m).idle 1).trans (written _ _)).idleMultiplier _ _

theorem multiplyLong_spends (signed accumulate set : Bool) (hi lo s r : Register) :
    m.Spends ((Instruction.multiplyLong signed accumulate set hi lo s r).internalCycles m.cpu.regs)
      (multiplyLong bus.recorded signed accumulate set hi lo s r m) := by
  have written : ∀ (m : Machine (σ × Transcript)) (out : BitVec 64), m.Spends 0
      (bus.recorded.setReg hi (out.extractLsb' 32 32) (bus.recorded.setReg lo (out.setWidth 32) m)) :=
    fun m out => (h.setReg m lo _).next (h.setReg _ hi _)
  have flagged : ∀ (m : Machine (σ × Transcript)) (out : BitVec 64), m.Spends 0
      (if set then clearCarryOnV4 bus.recorded ((m.setFlag .zero (out == 0)).setFlag .negative out.msb)
        else m) := by
    intro m out
    split_ifs
    · exact (clearCarryOnV4_spends _).before rfl rfl
    · exact .refl m
  have first : m.Spends 1 (m.idle 1) := (Machine.Spends.refl m).idle 1
  cases accumulate
  · exact ((first.trans (written _ _)).trans (flagged _ _)).idleMultiplier _ _
  · exact (((first.idle 1).trans (written _ _)).trans (flagged _ _)).idleMultiplier _ _

theorem halfMultiply_spends (op : HalfMulOp) (d n s r : Register) (top₁ top₂ : Bool) :
    m.Spends ((Instruction.halfMultiply op d n s r top₁ top₂).internalCycles m.cpu.regs)
      (halfMultiply bus.recorded op d n s r top₁ top₂ m) := by
  have accumulated : ∀ product acc, m.Spends 0 (accumulateHalf product acc m).2 := by
    intro product acc
    unfold accumulateHalf
    simp only
    split_ifs
    · exact .own rfl rfl
    · exact .refl m
  cases op with
  | smla => exact (accumulated _ _).next (h.setReg _ d _)
  | smlawOrSmulw =>
    cases top₁
    · exact (accumulated _ _).next (h.setReg _ d _)
    · exact h.setReg m d _
  | smlal => exact ((h.setReg m n _).next (h.setReg _ d _)).idle 1
  | smul => exact h.setReg m d _

theorem saturating_spends (op : SaturatingOp) (d n r : Register) :
    m.Spends 0 (saturating bus.recorded op d n r m) := by
  refine Machine.Spends.next ?_ (h.setReg _ d _)
  split_ifs
  · exact .own rfl rfl
  · exact .refl m

theorem loadInto_spends (kind : TransferKind) (d : Register) (a : Address) :
    m.Spends 0 (loadInto bus.recorded kind d a m) := by
  cases kind with
  | loadWord => exact (h.readRotated m rfl rfl a).next (h.setRegLoaded _ d _)
  | loadHalf | loadByte | loadSignedByte => exact (h.read m rfl rfl _ a).next (h.setReg _ d _)
  | loadSignedHalf => exact (h.readSignedHalf m rfl rfl a).next (h.setReg _ d _)
  | loadDouble =>
    have lower := h.read m (k := .nonsequential) rfl rfl .word a
    have upper := h.read (bus.recorded.read .word a .nonsequential m).2 (k := .sequel) rfl rfl .word (a + 4)
    exact ((lower.next upper).next (h.setReg _ d _)).next (h.setReg _ d.next _)
  | storeWord | storeHalf | storeByte | storeDouble => exact .refl m

theorem storeFrom_spends (kind : TransferKind) (d : Register) (a : Address) :
    m.Spends 0 (storeFrom bus.recorded kind d a m) := by
  cases kind with
  | storeWord | storeHalf | storeByte => exact h.write m rfl _ a _
  | storeDouble => exact (h.write m rfl .word a _).next (h.write _ rfl .word _ _)
  | loadWord | loadHalf | loadSignedHalf | loadByte | loadSignedByte | loadDouble => exact .refl m

theorem transfer_spends (kind : TransferKind) (n d : Register) (offset : Offset) (i : Indexing) :
    m.Spends (if kind.isLoad then 1 else 0) (transfer bus.recorded kind n d offset i m) := by
  have transferred : ∀ a, m.Spends 0
      (if kind.isLoad then loadInto bus.recorded kind d a m else storeFrom bus.recorded kind d a m) := by
    intro a
    split_ifs
    · exact loadInto_spends h m kind d a
    · exact storeFrom_spends h m kind d a
  have based : ∀ (c : Bool) (m : Machine (σ × Transcript)) v,
      m.Spends 0 (if c then bus.recorded.setReg n v m else m) := by
    intro c m v
    split_ifs
    · exact h.setReg m n v
    · exact .refl m
  have spent : ∀ m : Machine (σ × Transcript),
      m.Spends (if kind.isLoad then 1 else 0) (if kind.isLoad then m.idle 1 else m) := by
    intro m
    split_ifs
    · exact .own rfl rfl
    · exact .refl m
  exact (((transferred _).next (based _ _ _)).setFetchKind _).next (spent _)

theorem swap_spends (byte : Bool) (n d r : Register) : m.Spends 1 (swap bus.recorded byte n d r m) := by
  cases byte
  all_goals
    refine ((Machine.Spends.next ?_ (h.write _ rfl _ (m.reg n) _)).next
      (h.setReg _ d _)).idleNonsequential
  · exact h.readRotated m rfl rfl _
  · exact h.read m rfl rfl .byte _

theorem storeEach_spends (user : Bool) (early : Register → Bool) (final : Word) (rs : List Register)
    (a : Address) {k : Access} (code : k.code = false) :
    m.Spends 0 (storeEach bus.recorded user early final rs a k m) := by
  induction rs generalizing a k m with
  | nil => exact .refl m
  | cons r rs ih =>
    refine Machine.Spends.next (.next ?_ (h.write _ code .word a _)) (ih _ _ (k := .sequel) rfl)
    split_ifs
    · exact h.setReg m r final
    · exact .refl m

theorem loadEach_spends (user : Bool) (rs : List Register) (pc : Option Word) (a : Address) {k : Access}
    (code : k.code = false) (write : k.write = false) :
    m.Spends 0 (loadEach bus.recorded user pc rs a k m).2 := by
  induction rs generalizing pc a k m with
  | nil => exact .refl m
  | cons r rs ih =>
    have loaded := h.read m code write .word a
    unfold loadEach
    simp only
    split_ifs
    · exact (loaded.after rfl rfl).next (ih _ _ _ (k := .sequel) rfl rfl)
    · exact loaded.next (ih _ _ _ (k := .sequel) rfl rfl)
    · exact (loaded.after rfl rfl).next (ih _ _ _ (k := .sequel) rfl rfl)

theorem moveBlock_spends (load : Bool) (n : Register) (list : BitVec 16) (user : Bool) (i : Indexing) :
    m.Spends 0 (moveBlock bus.recorded load n list user i m).2 := by
  cases load
  · exact storeEach_spends h m _ _ _ _ _ (k := .nonsequential) rfl
  · exact loadEach_spends h m _ _ _ _ (k := .nonsequential) rfl rfl

theorem continueAt_spends (returns : Bool) (pc : Option Word) :
    Exec.Spends (continueAt bus.recorded returns pc) m 0 := by
  cases pc with
  | none => exact Exec.spends_pure ()
  | some target =>
    refine Exec.spends_get ?_
    simp only
    split_ifs
    · exact Exec.spends_next (Exec.spends_setCpsr _) fun _ m₁ _ => Exec.spends_modify (h.jump m₁ target)
    · exact Exec.spends_modify (h.setRegLoaded m _ target)

theorem finishBlock_spends (load : Bool) (n : Register) (list : BitVec 16) (i : Indexing) :
    m.Spends (if load then 1 else 0) (finishBlock bus.recorded load n list i m) := by
  have none : m.Spends 0
      (if (Register.ofList list).isEmpty then bus.recorded.transferNone n (!load) i.up i.before m else m) := by
    split_ifs
    · exact h.transferNone m n _ _ _
    · exact .refl m
  cases load
  · exact none.next (.own rfl rfl)
  · exact none.next (.own rfl rfl)

theorem blockTransfer_spends (load : Bool) (n : Register) (list : BitVec 16) (user : Bool) (i : Indexing) :
    Exec.Spends (blockTransfer bus.recorded load n list user i) m (if load then 1 else 0) := by
  rw [blockTransfer_eq]
  refine Exec.spends_get (Exec.spends_next (Exec.spends_modifyGet (moveBlock_spends h m load n list user i)) ?_)
  intro pc m₁ _
  refine Exec.spends_next (Exec.spends_modify ?_) fun _ m₂ _ => ?_
  · split_ifs
    · exact h.setReg m₁ n _
    · exact .refl m₁
  refine Exec.spends_next (continueAt_spends h m₂ _ pc) fun _ m₃ _ => ?_
  exact Exec.spends_modify (finishBlock_spends h m₃ load n list i)

theorem branchExchange_spends (link : Bool) (r : Register) :
    m.Spends 0 (branchExchange bus.recorded link r m) := by
  cases link
  · exact h.jumpExchange m _
  · exact (h.jumpExchange (linkNext m) _).before rfl rfl

theorem branch_spends (link : Bool) (distance : Int) :
    m.Spends 0 (bus.recorded.jumpRelative distance (if link then linkNext m else m)) := by
  cases link
  · exact h.jump m _
  · exact (h.jump (linkNext m) _).before rfl rfl

theorem transferControl_spends (inst : Word) (load : Bool) (number : Nat) (reg : ControlRegister)
    (d : Register) : Exec.Spends (transferControl bus.recorded inst load number reg d) m 0 := by
  unfold transferControl
  by_cases hn : number ≠ 15
  · rw [if_pos hn]
    exact Exec.spends_error rfl
  rw [if_neg hn]
  cases load with
  | true =>
    refine Exec.spends_next (Exec.spends_modifyGet (h.controlRead_spends m reg)) fun v m₁ _ => ?_
    cases v with
    | none => exact Exec.spends_error rfl
    | some v =>
      by_cases hd : d = Register.pc
      · simp only [hd, if_true]
        exact Exec.spends_modify (.own rfl rfl)
      · simp only [hd, if_false]
        exact Exec.spends_modify (h.setReg m₁ d v)
  | false =>
    refine Exec.spends_get (Exec.spends_next (Exec.spends_modifyGet (h.controlWrite_spends m reg _)) ?_)
    intro taken m₁ _
    cases taken
    · exact Exec.spends_error rfl
    · exact Exec.spends_pure ()

/-- An ARM instruction takes its waits and its internal cycles, unless the system carries it out itself. -/
theorem perform_spends (word : Word) {i : Instruction}
    (unhandled : ∀ c m₁, i = .softwareInterrupt c →
      bus.softwareCall (c.extractLsb' 16 8) (m.seen Prod.fst) ≠ .ok true m₁) :
    Exec.Spends (perform bus.recorded word i) m (i.internalCycles m.cpu.regs) := by
  cases i with
  | branch link distance => exact Exec.spends_modify (branch_spends h m link distance)
  | branchThumb distance => exact Exec.spends_modify ((h.jumpWith (linkNext m) _ _).before rfl rfl)
  | branchExchange link r => exact Exec.spends_modify (branchExchange_spends h m link r)
  | dataProcessing op set n d operand => exact processData_spends h m op set n d operand
  | multiply accumulate set d n s r => exact Exec.spends_modify (multiply_spends h m accumulate set d n s r)
  | multiplyLong signed accumulate set hi lo s r =>
    exact Exec.spends_modify (multiplyLong_spends h m signed accumulate set hi lo s r)
  | halfMultiply op d n s r top₁ top₂ =>
    exact Exec.spends_modify (halfMultiply_spends h m op d n s r top₁ top₂)
  | countLeadingZeros d r => exact Exec.spends_modify (h.setReg m d _)
  | saturating op d n r => exact Exec.spends_modify (saturating_spends h m op d n r)
  | statusRead d saved => exact Exec.spends_modify (h.setReg m d _)
  | statusWrite saved flags control source => exact writeStatus_spends m saved flags control source
  | transfer kind n d offset i => exact Exec.spends_modify (transfer_spends h m kind n d offset i)
  | blockTransfer load n list user i => exact blockTransfer_spends h m load n list user i
  | swap byte n d r => exact Exec.spends_modify (swap_spends h m byte n d r)
  | coprocessor load number _ _ _ _ d => exact transferControl_spends h m word load number _ d
  | softwareInterrupt c => exact h.softwareInterrupt_spends m _ fun m₁ => unhandled c m₁ rfl
  | undefined => exact Exec.spends_error rfl

end Arm

end Lockstep
