import Lockstep.Proofs.BlockTransfers
import Lockstep.Proofs.Extension
import Lockstep.Proofs.ThumbAsArm

/-!
Branches of both instruction sets: where they go on, in which of the sets, and what they leave in the link register.
A branch is read off the bits of its word and its address; the program counter and its lead on the instruction do not
occur. The two halves of a long branch pass the upper part of the distance through the link register, and together they
reach as far as one distance of twenty-three bits.
-/

namespace Lockstep

variable {σ : Type} {bus : Bus σ}

theorem Word.shiftBy_mul {n : Nat} (a : Word) (x : BitVec n) (k : Int) :
    shiftBy a (k * x.toInt) = a + BitVec.ofInt 32 k * x.signExtend 32 := by
  rw [shiftBy, BitVec.ofInt_mul]
  rfl

/-- The two parts of a distance in halfwords. -/
theorem Word.extend_append (hi lo : BitVec 11) :
    (hi ++ lo ++ 0#1).signExtend 32 = 4096 * hi.signExtend 32 + 2 * lo.setWidth 32 := by
  have parts : (hi ++ lo ++ 0#1).toInt = 4096 * hi.toInt + 2 * lo.toNat := by
    simp only [BitVec.toInt_append]
    simp
    omega
  rw [BitVec.signExtend, parts, BitVec.ofInt_add, BitVec.ofInt_mul, BitVec.ofInt_mul, BitVec.ofInt_natCast,
    BitVec.ofNat_toNat]
  rfl

theorem Word.dvd_add_mul {a size : Word} (h : size = 2 ∨ size = 4) (ha : size.toNat ∣ a.toNat) (x : Word) :
    size.toNat ∣ (a + size * x).toNat := by
  rcases h with rfl | rfl <;> simp [BitVec.toNat_add, BitVec.toNat_mul] at ha ⊢ <;> omega

/-- Marking an address that is not marked. -/
theorem Word.or_one {a : Word} (even : 2 ∣ a.toNat) : a ||| 1 = a + 1 := by
  refine (BitVec.add_eq_or_of_and_eq_zero a 1 (BitVec.eq_of_toNat_eq ?_)).symm
  rw [BitVec.toNat_and]
  exact (Nat.and_one_is_mod _).trans (Nat.mod_eq_zero_of_dvd even)

namespace Registers

theorem satisfies_never (f : Registers) : f.satisfies .never = false := BitVec.getLsbD_zero

def linked (f : Registers) : Option Word → Registers
  | some v => f.setLr v
  | none => f

theorem linked_isThumb (f : Registers) (link : Option Word) : (f.linked link).isThumb = f.isThumb := by
  cases link <;> rfl

end Registers

/-- Where a branch goes on, in which instruction set, and what it leaves in the link register, if anything. -/
structure Branch where
  target : Address
  thumb : Bool
  link : Option Word
deriving DecidableEq

namespace Branch

/-- A branch to a value whose lowest bit chooses the instruction set. -/
def exchange (v : Word) (link : Option Word) : Branch where
  target := Word.alignDown v (if v.getLsbD 0 then 2 else 4)
  thumb := v.getLsbD 0
  link := link

def prepared (b : Branch) (f : Registers) : Registers := (f.linked b.link).setFlag .thumb b.thumb

def size (b : Branch) : Word := if b.thumb then 2 else 4

def applied (b : Branch) (f : Registers) : Registers := { b.prepared f with pc := b.target + b.size }

/-- A processor has branched: the program goes on at the target, and of the registers only the link has changed. -/
structure Taken (b : Branch) (p p' : Processor) : Prop where
  next : p'.nextAddress = b.target
  thumb : p'.isThumb = b.thumb
  lr : p'.regs.lr = b.link.getD p.regs.lr
  cells : ∀ s, s ≠ .link p.regs.bank → p'.regs.cell s = p.regs.cell s
  saved : p'.regs.saved = p.regs.saved
  mode : p'.regs.mode = p.regs.mode
  cpsr : ∀ i, i ≠ Flag.thumb.position → p'.regs.cpsr.getLsbD i = p.regs.cpsr.getLsbD i

/-- A step takes a branch, if no interrupt is taken after it. -/
structure Done (bus : Bus σ) (b : Branch) (m m' : Machine σ) : Prop where
  step : Exec.step bus m = .ok () (Exec.settle bus m')
  calm : m'.cpu.serviceable = false → Exec.step bus m = .ok () m'
  taken : b.Taken m.cpu m'.cpu

variable {b : Branch} {f : Registers}

/-- Where the program was does not matter. -/
theorem applied_pc (b : Branch) (f : Registers) (v : Word) : b.applied { f with pc := v } = b.applied f := by
  obtain ⟨target, thumb, link⟩ := b
  cases link <;> rfl

theorem instructionSize_prepared (b : Branch) (f : Registers) : (b.prepared f).instructionSize = b.size := by
  have thumb : (b.prepared f).isThumb = b.thumb := (Registers.flag_setFlag _ _ _ _).trans (if_pos rfl)
  rw [Registers.instructionSize, thumb, size]

theorem Taken.of_applied {p p' : Processor} (regs : p'.regs = b.applied p.regs) : b.Taken p p' := by
  obtain ⟨target, thumb, link⟩ := b
  have flag : p'.regs.isThumb = thumb := by
    rw [regs]
    exact (Registers.flag_setFlag _ _ _ _).trans (if_pos rfl)
  refine ⟨?_, flag, ?_, fun s other => ?_, ?_, ?_, fun i other => ?_⟩
  · rw [Processor.nextAddress, Registers.instructionSize, flag, regs]
    exact BitVec.add_sub_cancel _ _
  · rw [regs]
    cases link with
    | none => rfl
    | some v => exact (Registers.cell_setCell ..).trans (if_pos rfl)
  · rw [regs]
    cases link with
    | none => rfl
    | some v => exact (Registers.cell_setCell ..).trans (if_neg other)
  · rw [regs]
    cases link <;> rfl
  · rw [regs]
    cases link <;> rfl
  · rw [regs]
    refine (Registers.getLsbD_setFlag _ _ _ _).trans ((if_neg other).trans ?_)
    cases link <;> rfl

/-- Two branches in a row of which the second links. -/
theorem Taken.trans {b' : Branch} {p p₁ p' : Processor} (h : b.Taken p p₁) (h' : b'.Taken p₁ p')
    (links : b'.link.isSome = true) : b'.Taken p p' := by
  have bank : p₁.regs.bank = p.regs.bank := congrArg Mode.bank h.mode
  obtain ⟨v, link⟩ := Option.isSome_iff_exists.mp links
  refine ⟨h'.next, h'.thumb, ?_, fun s other => ?_, h'.saved.trans h.saved, h'.mode.trans h.mode,
    fun i other => (h'.cpsr i other).trans (h.cpsr i other)⟩
  · rw [h'.lr, link]
    rfl
  · exact (h'.cells s (bank ▸ other)).trans (h.cells s other)

/-- A jump of a machine that is prepared for it. -/
theorem jump_applied (h : bus.KeepsRegisters) {a : Address} {m : Machine σ} (prepared : m.cpu.regs = b.prepared f)
    (lands : Word.alignDown a b.size = b.target) : (bus.jump a m).cpu.regs = b.applied f := by
  have size := b.instructionSize_prepared f
  rw [h.jump, prepared, Bus.landing, size, lands]
  rfl

/-- A branch that stays in its instruction set only links. -/
theorem prepared_same (same : b.thumb = f.isThumb) : b.prepared f = f.linked b.link := by
  rw [prepared, same, ← f.linked_isThumb b.link]
  exact Registers.setFlag_self _ .thumb

section
variable (h : bus.KeepsRegisters) {m : Machine σ} {link : Option Word} (linked : m.cpu.regs = f.linked link)
include h linked

/-- A jump within an instruction set to an address that is aligned. -/
theorem jump_linked {a : Address} {thumb : Bool} (same : f.isThumb = thumb)
    (aligned : f.instructionSize.toNat ∣ a.toNat) : (bus.jump a m).cpu.regs = (Branch.mk a thumb link).applied f := by
  subst same
  have prepared : (Branch.mk a f.isThumb link).prepared f = f.linked link := prepared_same rfl
  exact jump_applied h (linked.trans prepared.symm) (Word.alignDown_eq_self f.instructionSize_cases aligned)

theorem jumpExchange_linked (v : Word) : (bus.jumpExchange v m).cpu.regs = (exchange v link).applied f :=
  jump_applied h (congrArg (·.setFlag .thumb (v.getLsbD 0)) linked) rfl

end

/-- To go on where the program is anyway changes nothing. -/
theorem applied_near {a : Address} {thumb : Bool} (same : f.isThumb = thumb) (pc : f.pc = a + f.instructionSize) :
    (Branch.mk a thumb none).applied f = f := by
  have near : (Branch.mk a thumb none).prepared f = f := prepared_same same.symm
  have size := (Branch.mk a thumb none).instructionSize_prepared f
  rw [near] at size
  rw [applied, near, ← size, ← pc]

end Branch

namespace Arm

/-- The branch that a word is at an address. One under a condition that does not hold goes on after itself. -/
def branch? (v5 : Bool) (a : Address) (f : Registers) (w : Word) : Option Branch :=
  let near := a + 8 + 4 * (w.extractLsb' 0 24).signExtend 32
  let half : Word := if w.getLsbD 24 then 2 else 0
  if w.extractLsb' 25 3 = 0b101 then
    if condition w = Condition.never ∧ v5 = true then some ⟨near + half, true, some (a + 4)⟩
    else if f.satisfies (condition w) then some ⟨near, false, if w.getLsbD 24 then some (a + 4) else none⟩
    else some ⟨a + 4, false, none⟩
  else if w.extractLsb' 4 24 = 0x12FFF1 ∨ v5 = true ∧ w.extractLsb' 4 24 = 0x12FFF3 then
    if f.satisfies (condition w) then
      some (.exchange ({ f with pc := a + 8 }.read (register w 0)) (if w.getLsbD 5 then some (a + 4) else none))
    else some ⟨a + 4, false, none⟩
  else none

theorem branchDistance_eq (w : Word) : branchDistance w = 4 * (w.extractLsb' 0 24).toInt := by
  rw [branchDistance, Word.signed, BitVec.setWidth_eq_extractLsb' (by decide), Int.mul_comm]

/-- The bits of a branch to a register. -/
theorem fits_branchExchange {w : Word} :
    Kind.branchExchange.Fits w ↔
      w.extractLsb' 4 24 = 0x12FFF1 ∧ w.getLsbD 5 = false ∨ w.extractLsb' 4 24 = 0x12FFF3 ∧ w.getLsbD 5 = true := by
  simp only [Kind.Fits, Miscellaneous, extract_eq_iff, Nat.forall_lt_succ_right, Nat.not_lt_zero, false_implies,
    implies_true, true_and, Nat.reduceAdd, BitVec.reduceGetLsb]
  -- both sides fix the same bits, in another order
  grind

theorem classOf_branchExchange {w : Word} (fits : Kind.branchExchange.Fits w) : classOf w = .branchExchange := by
  have kind := Kind.kind?_of_fits fits
  revert kind
  cases classOf w <;> unfold Class.kind? <;> (try split_ifs) <;> simp

theorem decode_branchExchange {v5 : Bool} {w : Word}
    (bits : w.extractLsb' 4 24 = 0x12FFF1 ∨ v5 = true ∧ w.extractLsb' 4 24 = 0x12FFF3) :
    decode v5 w = .branchExchange (w.getLsbD 5) (register w 0) := by
  obtain ⟨fits, known⟩ : Kind.branchExchange.Fits w ∧ (w.getLsbD 5 = true → v5 = true) := by
    rcases bits with plain | ⟨rfl, links⟩
    · have bit : w.getLsbD 5 = false := (extract_eq_iff w 4 _).mp plain 1 (by decide)
      exact ⟨fits_branchExchange.mpr (.inl ⟨plain, bit⟩), fun link => Bool.noConfusion (bit.symm.trans link)⟩
    · have bit : w.getLsbD 5 = true := (extract_eq_iff w 4 _).mp links 1 (by decide)
      exact ⟨fits_branchExchange.mpr (.inr ⟨links, bit⟩), fun _ => rfl⟩
  simp only [decode, classOf_branchExchange fits, fits.2.2.2]
  revert known
  cases w.getLsbD 5 <;> cases v5 <;> simp

def Instruction.isBranch : Instruction → Bool
  | .branch .. | .branchThumb .. | .branchExchange .. => true
  | _ => false

/-- The words that are read as branches are those that mean branches. -/
theorem branch?_isSome (v5 : Bool) (a : Address) (f : Registers) (w : Word) :
    (branch? v5 a f w).isSome = (decode v5 w).isBranch := by
  by_cases near : w.extractLsb' 25 3 = 0b101
  · obtain ⟨older, newer⟩ := decode_branch w near
    have branch : (decode v5 w).isBranch = true := by
      cases v5 with
      | false => rw [older]; rfl
      | true => rw [newer]; split_ifs <;> rfl
    rw [branch, branch?, if_pos near]
    split_ifs <;> rfl
  rw [branch?, if_neg near]
  by_cases exchange : w.extractLsb' 4 24 = 0x12FFF1 ∨ v5 = true ∧ w.extractLsb' 4 24 = 0x12FFF3
  · have branch : (decode v5 w).isBranch = true := by rw [decode_branchExchange exchange]; rfl
    rw [branch, if_pos exchange]
    split_ifs <;> rfl
  · rw [if_neg exchange]
    unfold decode
    cases cls : classOf w with
    | branch => exact absurd ((classOf_branch w).mp cls) near
    | branchExchange =>
      dsimp only
      split_ifs with undefined
      · rfl
      · rw [Bool.or_eq_true, bne_iff_ne, not_or, not_not, Bool.and_eq_true, Bool.not_eq_true', not_and,
          Bool.not_eq_false] at undefined
        have fits : Kind.branchExchange.Fits w := Kind.fits_of_kind? (by rw [cls, Class.kind?, if_pos undefined.1])
        have bits := fits_branchExchange.mp fits
        exact absurd (bits.imp And.left fun links => ⟨undefined.2 links.2, links.1⟩) exchange
    | halfTransfer => cases halfTransferKind? v5 w <;> rfl
    | halfMultiply | countLeadingZeros | saturating | coprocessor => cases v5 <;> rfl
    | _ => rfl

/-- Where a branch goes is a whole word away. -/
theorem near_aligned {a : Address} (aligned : 4 ∣ a.toNat) (x : Word) : 4 ∣ (a + 8 + 4 * x).toNat := by
  have ahead : 4 ∣ (a + 4 * 2).toNat := Word.dvd_add_mul (.inr rfl) aligned 2
  exact Word.dvd_add_mul (.inr rfl) ahead x

section
variable {v5 : Bool} {f : Registers} {w : Word}

theorem executes_of_satisfies (holds : f.satisfies (condition w) = true) : executes v5 f w = true := by
  have other : condition w ≠ Condition.never := by
    intro never
    rw [never, f.satisfies_never] at holds
    cases holds
  rw [executes, if_neg other, holds]

theorem executes_of_fails (fails : f.satisfies (condition w) = false)
    (other : condition w = Condition.never → v5 = true → classOf w ≠ .branch) : executes v5 f w = false := by
  rw [executes]
  split_ifs with never
  · rw [Bool.and_eq_false_iff, beq_eq_false_iff_ne]
    exact (Bool.eq_false_or_eq_true v5).symm.imp_right (other never)
  · exact fails

end

section
variable {w : Word} {m : Machine σ} {a : Address}

theorem linkNext_regs (ahead : m.cpu.regs.pc = a + 8) (link : Bool) :
    (if link then linkNext m else m).cpu.regs = m.cpu.regs.linked (if link then some (a + 4) else none) := by
  cases link with
  | true =>
    have behind : m.cpu.regs.pc - 4 = a + 4 := by
      rw [ahead]
      bv_omega
    exact congrArg m.cpu.regs.setLr behind
  | false => rfl

variable (h : bus.KeepsRegisters) (arm : m.cpu.isThumb = false) (ahead : m.cpu.regs.pc = a + 8)
  (aligned : 4 ∣ a.toNat)
include h arm ahead aligned

theorem jump_near (link : Bool) (x : BitVec 24) :
    (bus.jumpRelative (4 * x.toInt) (if link then linkNext m else m)).cpu.regs =
      Branch.applied ⟨a + 8 + 4 * x.signExtend 32, false, if link then some (a + 4) else none⟩ m.cpu.regs := by
  have size : m.cpu.regs.instructionSize = 4 := Registers.instructionSize_of_clear arm
  have pc : (if link then linkNext m else m).cpu.regs.pc = a + 8 := by cases link <;> exact ahead
  rw [Bus.jumpRelative, Word.shiftBy_mul, pc]
  exact Branch.jump_linked h (linkNext_regs ahead link) arm (size ▸ near_aligned aligned _)

omit arm in
theorem jump_thumb (x : BitVec 24) (half : Bool) :
    (branchThumb bus (4 * x.toInt + if half then 2 else 0) m).cpu.regs =
      Branch.applied ⟨a + 8 + 4 * x.signExtend 32 + if half then 2 else 0, true, some (a + 4)⟩ m.cpu.regs := by
  have linked := linkNext_regs ahead true
  have target : Word.shiftBy m.cpu.regs.pc (4 * x.toInt + if half then 2 else 0) =
      a + 8 + 4 * x.signExtend 32 + if half then 2 else 0 := by
    rw [ahead, BitVec.add_assoc (a + 8), Word.shiftBy, BitVec.ofInt_add, BitVec.ofInt_mul]
    cases half <;> rfl
  have even := near_aligned aligned (x.signExtend 32)
  refine Branch.jump_applied h (congrArg (·.setFlag .thumb true) linked) ?_
  have lands : Word.alignDown (Word.shiftBy m.cpu.regs.pc (4 * x.toInt + if half then 2 else 0)) 2 = _ :=
    Word.alignDown_eq_self (.inl rfl) ?_
  · exact lands.trans target
  · rw [target]
    cases half with
    | true => exact Word.dvd_add (.inl rfl) (Dvd.dvd.trans (by decide) even)
    | false => exact (BitVec.add_zero (a + 8 + 4 * x.signExtend 32)).symm ▸ Dvd.dvd.trans (by decide) even

omit arm aligned in
theorem jump_exchange (link : Bool) (r : Register) :
    (branchExchange bus link r m).cpu.regs =
      Branch.applied (.exchange ({ m.cpu.regs with pc := a + 8 }.read r) (if link then some (a + 4) else none))
        m.cpu.regs := by
  have seen : { m.cpu.regs with pc := a + 8 } = m.cpu.regs := by rw [← ahead]
  rw [seen]
  exact Branch.jumpExchange_linked h (linkNext_regs ahead link) (m.reg r)

/-- A word that is a branch, on a machine that has fetched it. -/
theorem execute_branch {b : Branch} (branch : branch? bus.isV5 a m.cpu.regs w = some b) :
    ∃ m', execute bus w m = .ok () m' ∧ m'.cpu.regs = b.applied m.cpu.regs := by
  have size : m.cpu.regs.instructionSize = 4 := Registers.instructionSize_of_clear arm
  have next : m.cpu.regs = Branch.applied ⟨a + 4, false, none⟩ m.cpu.regs := by
    refine (Branch.applied_near arm ?_).symm
    rw [ahead, size, BitVec.add_assoc]
    rfl
  unfold branch? at branch
  rw [execute_eq]
  by_cases near : w.extractLsb' 25 3 = 0b101
  · obtain ⟨older, newer⟩ := decode_branch w near
    rw [branchDistance_eq] at older newer
    rw [if_pos near] at branch
    by_cases never : condition w = Condition.never ∧ bus.isV5 = true
    · rw [if_pos never] at branch
      obtain rfl := Option.some.inj branch
      have passes : executes bus.isV5 m.cpu.regs w = true := by
        rw [executes, if_pos never.1, never.2, (classOf_branch w).mpr near]
        rfl
      rw [if_pos passes, never.2, newer, if_pos never.1]
      exact ⟨_, rfl, jump_thumb h ahead aligned _ _⟩
    rw [if_neg never] at branch
    by_cases holds : m.cpu.regs.satisfies (condition w) = true
    · rw [if_pos holds] at branch
      obtain rfl := Option.some.inj branch
      have decoded : decode bus.isV5 w = .branch (w.getLsbD 24) (4 * (w.extractLsb' 0 24).toInt) := by
        cases v5 : bus.isV5 with
        | true => rw [newer, if_neg fun held => never ⟨held, v5⟩]
        | false => exact older
      rw [if_pos (executes_of_satisfies holds), decoded]
      exact ⟨_, rfl, jump_near h arm ahead aligned _ _⟩
    · rw [if_neg holds] at branch
      obtain rfl := Option.some.inj branch
      rw [executes_of_fails (Bool.eq_false_iff.mpr holds) fun held v5 => absurd ⟨held, v5⟩ never]
      exact ⟨m, rfl, next⟩
  · rw [if_neg near] at branch
    obtain ⟨exchange, branch⟩ := Option.ite_none_right_eq_some.mp branch
    by_cases holds : m.cpu.regs.satisfies (condition w) = true
    · rw [if_pos holds] at branch
      obtain rfl := Option.some.inj branch
      rw [if_pos (executes_of_satisfies holds), decode_branchExchange exchange]
      exact ⟨_, rfl, jump_exchange h ahead _ _⟩
    · rw [if_neg holds] at branch
      obtain rfl := Option.some.inj branch
      rw [executes_of_fails (Bool.eq_false_iff.mpr holds) fun _ _ cls => absurd ((classOf_branch w).mp cls) near]
      exact ⟨m, rfl, next⟩

end

end Arm

namespace Thumb

/-- The branch that a halfword is at an address. The first half of a long branch goes on after itself and leaves the
upper part of the target, which the second half completes. -/
def branch? (v5 : Bool) (a : Address) (f : Registers) (h : Halfword) : Option Branch :=
  let condition := h.extractLsb' 8 4
  let far := f.lr + 2 * (h.extractLsb' 0 11).setWidth 32
  let back : Word := (a + 2) ||| 1
  match (h.extractLsb' 11 5).toNat with
  | 0b01000 =>
    if h.extractLsb' 8 3 = 0b111 ∧ (h.getLsbD 7 = true → v5 = true) then
      some (.exchange ({ f with pc := a + 4 }.read (highSource h)) (if h.getLsbD 7 then some back else none))
    else none
  | 0b11010 | 0b11011 =>
    if condition = Condition.always ∨ condition = Condition.never then none
    else some ⟨if f.satisfies condition then a + 4 + 2 * (h.extractLsb' 0 8).signExtend 32 else a + 2, true, none⟩
  | 0b11100 => some ⟨a + 4 + 2 * (h.extractLsb' 0 11).signExtend 32, true, none⟩
  | 0b11101 =>
    if v5 = true ∧ h.getLsbD 0 = false then some ⟨Word.alignDown far 4, false, some back⟩ else none
  | 0b11110 => some ⟨a + 2, true, some (a + 4 + 4096 * (h.extractLsb' 0 11).signExtend 32)⟩
  | 0b11111 => some ⟨Word.alignDown far 2, true, some back⟩
  | _ => none

def Instruction.isBranch : Instruction → Bool
  | .branchExchange .. | .branchIf .. | .branch .. | .longBranchPrefix .. | .longBranchSuffix .. => true
  | _ => false

theorem isBranch_decodeHigh (v5 : Bool) (h : Halfword) :
    (decodeHigh v5 h).isBranch = true ↔ h.extractLsb' 8 2 = 0b11 ∧ (h.getLsbD 7 = true → v5 = true) := by
  have two : ∀ b : BitVec 2, b = 0 ∨ b = 1 ∨ b = 2 ∨ b = 3 := by decide
  unfold decodeHigh
  rcases two (h.extractLsb' 8 2) with op | op | op | op <;> cases h.getLsbD 7 <;> cases v5 <;>
    simp [op, Instruction.isBranch]

theorem isBranch_decodeBranchIf (h : Halfword) :
    (decodeBranchIf h).isBranch = true ↔
      ¬ (h.extractLsb' 8 4 = Condition.always ∨ h.extractLsb' 8 4 = Condition.never) := by
  simp only [decodeBranchIf, beq_iff_eq]
  split_ifs with never always
  · simp [never, Instruction.isBranch]
  · simp [always, Instruction.isBranch]
  · simp [never, always, Instruction.isBranch]

theorem isBranch_decodeStack (h : Halfword) : (decodeStack h).isBranch = false := by
  unfold decodeStack
  split <;> rfl

/-- The halfwords that are read as branches are those that mean branches. -/
theorem branch?_isSome (v5 : Bool) (a : Address) (f : Registers) (h : Halfword) :
    (branch? v5 a f h).isSome = (decode v5 h).isBranch := by
  have high : h.extractLsb' 8 3 = 0b111 ↔ h.getLsbD 10 = true ∧ h.extractLsb' 8 2 = 0b11 := by
    simp only [Arm.extract_eq_iff, Nat.forall_lt_succ_right, Nat.not_lt_zero, false_implies, implies_true, true_and,
      Nat.reduceAdd, BitVec.reduceGetLsb]
    exact and_comm
  have top : (h.extractLsb' 11 5).toNat < 32 := BitVec.isLt _
  unfold branch? decode
  simp only
  generalize (h.extractLsb' 11 5).toNat = t at top
  interval_cases t
  case «8» =>
    show (if _ then some _ else none).isSome = (if _ then decodeHigh v5 h else .alu ..).isBranch
    rw [Bool.eq_iff_iff, Option.isSome_ite, high, and_assoc, ← isBranch_decodeHigh]
    split_ifs with bit
    · exact and_iff_right bit
    · exact iff_of_false (bit ·.1) nofun
  case «26» | «27» =>
    show (if _ then none else some _).isSome = (decodeBranchIf h).isBranch
    rw [Bool.eq_iff_iff, isBranch_decodeBranchIf]
    by_cases other : h.extractLsb' 8 4 = Condition.always ∨ h.extractLsb' 8 4 = Condition.never
    · rw [if_pos other]
      exact iff_of_false nofun (· other)
    · rw [if_neg other]
      exact iff_of_true rfl other
  case «29» => cases v5 <;> cases h.getLsbD 0 <;> rfl
  case «22» | «23» => exact (isBranch_decodeStack h).symm
  all_goals rfl

theorem near_aligned {a : Address} (aligned : 2 ∣ a.toNat) (x : Word) : 2 ∣ (a + 4 + 2 * x).toNat := by
  have ahead : 2 ∣ (a + 2 * 2).toNat := Word.dvd_add_mul (.inl rfl) aligned 2
  exact Word.dvd_add_mul (.inl rfl) ahead x

theorem back_eq {a : Address} (aligned : 2 ∣ a.toNat) : (a + 2) ||| 1 = a + 4 - 1 := by
  rw [Word.or_one (Word.dvd_add (.inl rfl) aligned)]
  bv_omega

section
variable {m : Machine σ} {a : Address} (h : bus.KeepsRegisters) (thumb : m.cpu.isThumb = true)
  (ahead : m.cpu.regs.pc = a + 4) (aligned : 2 ∣ a.toNat)

include ahead aligned in
theorem linkNext_regs (link : Bool) :
    (if link then linkNext m else m).cpu.regs =
      m.cpu.regs.linked (if link then some ((a + 2) ||| 1) else none) := by
  cases link with
  | true =>
    have behind : m.cpu.regs.pc - 1 = (a + 2) ||| 1 := by rw [ahead, back_eq aligned]
    exact congrArg m.cpu.regs.setLr behind
  | false => rfl

include thumb ahead in
theorem next_applied : m.cpu.regs = Branch.applied ⟨a + 2, true, none⟩ m.cpu.regs := by
  have size : m.cpu.regs.instructionSize = 2 := if_pos thumb
  refine (Branch.applied_near thumb ?_).symm
  rw [ahead, size, BitVec.add_assoc]
  rfl

include h thumb ahead aligned in
theorem jump_near {n : Nat} (x : BitVec n) :
    (bus.jumpRelative (2 * x.toInt) m).cpu.regs =
      Branch.applied ⟨a + 4 + 2 * x.signExtend 32, true, none⟩ m.cpu.regs := by
  have size : m.cpu.regs.instructionSize = 2 := if_pos thumb
  have unlinked : m.cpu.regs = m.cpu.regs.linked none := rfl
  rw [Bus.jumpRelative, Word.shiftBy_mul, ahead]
  exact Branch.jump_linked h unlinked thumb (size ▸ near_aligned aligned _)

include h ahead aligned in
theorem jump_exchange (link : Bool) (r : Register) :
    (branchExchange bus link r m).cpu.regs =
      Branch.applied (.exchange ({ m.cpu.regs with pc := a + 4 }.read r) (if link then some ((a + 2) ||| 1) else none))
        m.cpu.regs := by
  have seen : { m.cpu.regs with pc := a + 4 } = m.cpu.regs := by rw [← ahead]
  rw [seen]
  exact Branch.jumpExchange_linked h (linkNext_regs ahead aligned link) (m.reg r)

include thumb ahead in
theorem prefix_applied {n : Nat} (x : BitVec n) :
    m.cpu.regs.setLr (Word.shiftBy m.cpu.regs.pc (4096 * x.toInt)) =
      Branch.applied ⟨a + 2, true, some (a + 4 + 4096 * x.signExtend 32)⟩ m.cpu.regs := by
  let b : Branch := ⟨a + 2, true, some (a + 4 + 4096 * x.signExtend 32)⟩
  have same : b.prepared m.cpu.regs = m.cpu.regs.linked b.link := Branch.prepared_same thumb.symm
  have pc : b.target + b.size = m.cpu.regs.pc := by
    rw [ahead]
    exact BitVec.add_assoc a 2 2
  have left : Word.shiftBy m.cpu.regs.pc (4096 * x.toInt) = a + 4 + 4096 * x.signExtend 32 := by
    rw [Word.shiftBy_mul, ahead]
    rfl
  rw [Branch.applied, same, pc, left]
  rfl

include h thumb ahead aligned in
theorem suffix_applied (x : BitVec 11) (exchange : Bool) :
    (longBranchSuffix bus (x.setWidth 32 <<< 1) exchange m).cpu.regs =
      Branch.applied ⟨Word.alignDown (m.cpu.regs.lr + 2 * x.setWidth 32) (if exchange then 4 else 2), !exchange,
        some ((a + 2) ||| 1)⟩ m.cpu.regs := by
  let b : Branch := ⟨Word.alignDown (m.cpu.regs.lr + 2 * x.setWidth 32) (if exchange then 4 else 2), !exchange,
    some ((a + 2) ||| 1)⟩
  have twice : (x.setWidth 32 : Word) <<< 1 = 2 * x.setWidth 32 := by
    rw [BitVec.shiftLeft_eq_mul_twoPow, BitVec.mul_comm]
    rfl
  have linked : (linkNext m).cpu.regs = m.cpu.regs.linked b.link := linkNext_regs ahead aligned true
  have prepared : (if exchange then (linkNext m).setFlag .thumb false else linkNext m).cpu.regs =
      b.prepared m.cpu.regs := by
    cases exchange with
    | true => exact congrArg (·.setFlag .thumb false) linked
    | false =>
      have same : b.prepared m.cpu.regs = m.cpu.regs.linked b.link := Branch.prepared_same thumb.symm
      exact linked.trans same.symm
  rw [twice]
  refine Branch.jump_applied h prepared ?_
  cases exchange <;> rfl

end

/-- A halfword that is a branch, on a machine that has fetched it. -/
theorem execute_branch {m : Machine σ} {a : Address} (keeps : bus.KeepsRegisters) (thumb : m.cpu.isThumb = true)
    (ahead : m.cpu.regs.pc = a + 4) (aligned : 2 ∣ a.toNat) {h : Halfword} {b : Branch}
    (branch : branch? bus.isV5 a m.cpu.regs h = some b) :
    ∃ m', execute bus h m = .ok () m' ∧ m'.cpu.regs = b.applied m.cpu.regs := by
  unfold branch? at branch
  unfold execute
  simp only at branch
  split at branch
  case h_1 top =>
    obtain ⟨⟨bits, known⟩, branch⟩ := Option.ite_none_right_eq_some.mp branch
    obtain rfl := Option.some.inj branch
    have bit := (Arm.extract_eq_iff h 8 0b111#3).mp bits
    have high : h.getLsbD 10 = true := bit 2 (by decide)
    have op : h.extractLsb' 8 2 = 0b11 := (Arm.extract_eq_iff h 8 _).mpr fun i hi => by
      rw [bit i (by omega)]
      interval_cases i <;> rfl
    have decoded : decode bus.isV5 h = .branchExchange (h.getLsbD 7) (highSource h) := by
      simp only [decode, top, high, decodeHigh, op]
      revert known
      cases h.getLsbD 7 <;> cases bus.isV5 <;> simp
    rw [decoded]
    exact ⟨_, rfl, jump_exchange keeps ahead aligned _ _⟩
  case h_2 top | h_3 top =>
    obtain ⟨other, branch⟩ := Option.ite_none_left_eq_some.mp branch
    obtain rfl := Option.some.inj branch
    obtain ⟨always, never⟩ := not_or.mp other
    have decoded : decode bus.isV5 h = .branchIf (h.extractLsb' 8 4) (2 * (h.extractLsb' 0 8).toInt) := by
      simp only [decode, top, decodeBranchIf, beq_iff_eq, if_neg always, if_neg never]
    rw [decoded]
    refine ⟨_, rfl, ?_⟩
    unfold branchIf
    split_ifs
    · exact jump_near keeps thumb ahead aligned _
    · exact next_applied thumb ahead
  case h_4 top =>
    obtain rfl := Option.some.inj branch
    have decoded : decode bus.isV5 h = .branch (2 * (h.extractLsb' 0 11).toInt) := by simp only [decode, top]
    rw [decoded]
    exact ⟨_, rfl, jump_near keeps thumb ahead aligned _⟩
  case h_5 top =>
    obtain ⟨⟨v5, even⟩, branch⟩ := Option.ite_none_right_eq_some.mp branch
    obtain rfl := Option.some.inj branch
    have decoded : decode bus.isV5 h = .longBranchSuffix ((h.extractLsb' 0 11).setWidth 32 <<< 1) true := by
      simp only [decode, top, v5, even, field]
      rfl
    rw [decoded]
    exact ⟨_, rfl, suffix_applied keeps thumb ahead aligned _ true⟩
  case h_6 top =>
    obtain rfl := Option.some.inj branch
    have decoded : decode bus.isV5 h = .longBranchPrefix (4096 * (h.extractLsb' 0 11).toInt) := by
      simp only [decode, top]
    rw [decoded]
    exact ⟨_, rfl, prefix_applied thumb ahead _⟩
  case h_7 top =>
    obtain rfl := Option.some.inj branch
    have decoded : decode bus.isV5 h = .longBranchSuffix ((h.extractLsb' 0 11).setWidth 32 <<< 1) false := by
      simp only [decode, top, field]
    rw [decoded]
    exact ⟨_, rfl, suffix_applied keeps thumb ahead aligned _ false⟩
  case h_8 => cases branch

end Thumb

def Bus.nextBranch (bus : Bus σ) (m : Machine σ) : Option Branch :=
  let inst := (Exec.fetched bus m).1
  if m.cpu.isThumb then Thumb.branch? bus.isV5 m.cpu.nextAddress m.cpu.regs (inst.setWidth 16)
  else Arm.branch? bus.isV5 m.cpu.nextAddress m.cpu.regs inst

namespace Bus.KeepsRegisters

variable (h : bus.KeepsRegisters) {m : Machine σ}
include h

theorem fetched (m : Machine σ) :
    (Exec.fetched bus m).2.cpu.regs = { m.cpu.regs with pc := m.cpu.regs.pc + m.cpu.regs.instructionSize } := by
  have reads : bus.KeepsReading fun m m' => m'.cpu.regs = m.cpu.regs := ⟨h.get, h.waitTime⟩
  exact Exec.fetched_keeps reads (fun same same' => same'.trans same) (fun same regs _ _ _ => regs.trans same) m

/-- An instruction that branches makes its step do so. -/
theorem done {b : Branch} {m' : Machine σ} (awake : m.cpu.halted = false)
    (run : Exec.execute bus m.cpu.isThumb (Exec.fetched bus m).1 (Exec.fetched bus m).2 = .ok () m')
    (regs : m'.cpu.regs = b.applied (Exec.fetched bus m).2.cpu.regs) : b.Done bus m m' := by
  have step : Exec.step bus m = .ok () (Exec.settle bus m') := by
    rw [Exec.step_eq, Exec.work_eq, awake, if_neg Bool.false_ne_true, Exec.instruction_eq, run]
  refine ⟨step, fun calm => ?_, .of_applied ?_⟩
  · rw [step, Exec.settle_of_unserviceable bus m' calm]
  · rw [regs, h.fetched, Branch.applied_pc]

theorem step_branch (awake : m.cpu.halted = false)
    (aligned : m.cpu.regs.instructionSize.toNat ∣ m.cpu.nextAddress.toNat) {b : Branch}
    (next : bus.nextBranch m = some b) : ∃ m', b.Done bus m m' := by
  have fetched := h.fetched m
  have ahead : (Exec.fetched bus m).2.cpu.regs.pc = m.cpu.nextAddress + m.cpu.regs.instructionSize * 2 := by
    rw [fetched, ← m.cpu.fetch_address]
    exact (BitVec.sub_add_cancel _ _).symm
  have same : (Exec.fetched bus m).2.cpu.isThumb = m.cpu.isThumb := by
    rw [Processor.isThumb, fetched]
    rfl
  cases set : m.cpu.isThumb with
  | true =>
    have size : m.cpu.regs.instructionSize = 2 := if_pos set
    rw [size] at ahead aligned
    have branch : Thumb.branch? bus.isV5 m.cpu.nextAddress (Exec.fetched bus m).2.cpu.regs
        ((Exec.fetched bus m).1.setWidth 16) = some b := by
      rw [fetched]
      exact (if_pos set).symm.trans next
    obtain ⟨m', run, regs⟩ := Thumb.execute_branch h (same.trans set) ahead aligned branch
    exact ⟨m', h.done awake (by rw [set]; exact run) regs⟩
  | false =>
    have size : m.cpu.regs.instructionSize = 4 := Registers.instructionSize_of_clear set
    rw [size] at ahead aligned
    have branch : Arm.branch? bus.isV5 m.cpu.nextAddress (Exec.fetched bus m).2.cpu.regs (Exec.fetched bus m).1 =
        some b := by
      rw [fetched]
      exact (if_neg (by rw [set]; exact Bool.false_ne_true)).symm.trans next
    obtain ⟨m', run, regs⟩ := Arm.execute_branch h (same.trans set) ahead aligned branch
    exact ⟨m', h.done awake (by rw [set]; exact run) regs⟩

end Bus.KeepsRegisters

/-- The two halves of a long branch, the second of which may leave the instruction set. -/
def Thumb.prefixWord (hi : BitVec 11) : Halfword := 0b11110#5 ++ hi

def Thumb.suffixWord (exchange : Bool) (lo : BitVec 11) : Halfword :=
  (if exchange then 0b11101#5 else 0b11111#5) ++ lo

def Branch.long (a : Address) (hi lo : BitVec 11) (exchange : Bool) : Branch where
  target :=
    let target := a + 4 + (hi ++ lo ++ 0#1).signExtend 32
    if exchange then Word.alignDown target 4 else target
  thumb := !exchange
  link := some ((a + 4) ||| 1)

theorem Thumb.branch?_prefix (v5 : Bool) (a : Address) (f : Registers) (hi : BitVec 11) :
    branch? v5 a f (prefixWord hi) = some ⟨a + 2, true, some (a + 4 + 4096 * hi.signExtend 32)⟩ := by
  have top : (prefixWord hi).extractLsb' 11 5 = 0b11110#5 := BitVec.extractLsb'_append_eq_left
  have low : (prefixWord hi).extractLsb' 0 11 = hi := BitVec.extractLsb'_append_eq_right
  simp only [branch?, top, low]
  rfl

/-- The second half completes what the first has left. -/
theorem Thumb.branch?_suffix {v5 : Bool} {a : Address} {f : Registers} {hi lo : BitVec 11} {exchange : Bool}
    (aligned : 2 ∣ a.toNat) (left : f.lr = a + 4 + 4096 * hi.signExtend 32)
    (known : exchange = true → v5 = true ∧ lo.getLsbD 0 = false) :
    branch? v5 (a + 2) f (suffixWord exchange lo) = some (.long a hi lo exchange) := by
  have low : (suffixWord exchange lo).extractLsb' 0 11 = lo := BitVec.extractLsb'_append_eq_right
  have top : (suffixWord exchange lo).extractLsb' 11 5 = if exchange then 0b11101#5 else 0b11111#5 :=
    BitVec.extractLsb'_append_eq_left
  have target : f.lr + 2 * lo.setWidth 32 = a + 4 + (hi ++ lo ++ 0#1).signExtend 32 := by
    rw [left, Word.extend_append, BitVec.add_assoc (a + 4)]
  have back : a + 2 + 2 = a + 4 := BitVec.add_assoc a 2 2
  cases exchange with
  | true =>
    have even : (suffixWord true lo).getLsbD 0 = false := (BitVec.getLsbD_append ..).trans (known rfl).2
    simp only [branch?, top, low, target, back, even, (known rfl).1]
    rfl
  | false =>
    have whole : Word.alignDown (a + 4 + (hi ++ lo ++ 0#1).signExtend 32) 2 =
        a + 4 + (hi ++ lo ++ 0#1).signExtend 32 := by
      have halves : (hi ++ lo ++ 0#1).signExtend 32 = 2 * (2048 * hi.signExtend 32 + lo.setWidth 32) := by
        rw [Word.extend_append, BitVec.mul_add, ← BitVec.mul_assoc]
        rfl
      exact Word.alignDown_eq_self (.inl rfl) (halves ▸ near_aligned aligned _)
    simp only [branch?, top, low, target, back, Bool.false_eq_true, if_false]
    exact congrArg (fun t => some (Branch.mk t true (some ((a + 4) ||| 1)))) whole

/-- After the first half of a long branch comes the second. -/
theorem Bus.KeepsRegisters.step_suffix (h : bus.KeepsRegisters) {m m₁ : Machine σ} {hi lo : BitVec 11} {exchange : Bool}
    (aligned : 2 ∣ m.cpu.nextAddress.toNat)
    (first : (Branch.mk (m.cpu.nextAddress + 2) true (some (m.cpu.nextAddress + 4 + 4096 * hi.signExtend 32))).Taken
      m.cpu m₁.cpu)
    (awake : m₁.cpu.halted = false) (second : (Exec.fetched bus m₁).1.setWidth 16 = Thumb.suffixWord exchange lo)
    (known : exchange = true → bus.isV5 = true ∧ lo.getLsbD 0 = false) :
    ∃ m₂, (Branch.long m.cpu.nextAddress hi lo exchange).Done bus m₁ m₂ ∧
      (Branch.long m.cpu.nextAddress hi lo exchange).Taken m.cpu m₂.cpu := by
  have size : m₁.cpu.regs.instructionSize = 2 := if_pos first.thumb
  have aligned₁ : m₁.cpu.regs.instructionSize.toNat ∣ m₁.cpu.nextAddress.toNat := by
    rw [size, first.next]
    exact Word.dvd_add (.inl rfl) aligned
  have next : bus.nextBranch m₁ = some (.long m.cpu.nextAddress hi lo exchange) := by
    rw [Bus.nextBranch, if_pos first.thumb, second, first.next]
    exact Thumb.branch?_suffix aligned first.lr known
  obtain ⟨m₂, done⟩ := h.step_branch awake aligned₁ next
  exact ⟨m₂, done, first.trans done.taken rfl⟩

/-- A step at an aligned address takes the branch that is read off its word: it comes to the target in its instruction
set, and if it links, to a link register with the address after it, which is marked if it is one of THUMB code; nothing
else changes. After the first half of a long branch the second comes to the target of both. No word that means a branch
is left out. -/
theorem branches (h : bus.KeepsRegisters) {m : Machine σ} (awake : m.cpu.halted = false)
    (aligned : m.cpu.regs.instructionSize.toNat ∣ m.cpu.nextAddress.toNat) :
    (∀ b, bus.nextBranch m = some b → ∃ m', b.Done bus m m') ∧
    (∀ hi, m.cpu.isThumb = true → (Exec.fetched bus m).1.setWidth 16 = Thumb.prefixWord hi →
      ∃ m₁, Branch.Done bus
          ⟨m.cpu.nextAddress + 2, true, some (m.cpu.nextAddress + 4 + 4096 * hi.signExtend 32)⟩ m m₁ ∧
        ∀ lo exchange, m₁.cpu.halted = false →
          (Exec.fetched bus m₁).1.setWidth 16 = Thumb.suffixWord exchange lo →
          (exchange = true → bus.isV5 = true ∧ lo.getLsbD 0 = false) →
            ∃ m₂, (Branch.long m.cpu.nextAddress hi lo exchange).Done bus m₁ m₂ ∧
              (Branch.long m.cpu.nextAddress hi lo exchange).Taken m.cpu m₂.cpu) ∧
    ∀ a f,
      (∀ w, (Arm.branch? bus.isV5 a f w).isSome = (Arm.decode bus.isV5 w).isBranch) ∧
      ∀ h, (Thumb.branch? bus.isV5 a f h).isSome = (Thumb.decode bus.isV5 h).isBranch := by
  refine ⟨fun b next => h.step_branch awake aligned next, fun hi thumb first => ?_, fun a f =>
    ⟨Arm.branch?_isSome _ a f, Thumb.branch?_isSome _ a f⟩⟩
  have size : m.cpu.regs.instructionSize = 2 := if_pos thumb
  have next : bus.nextBranch m = some
      ⟨m.cpu.nextAddress + 2, true, some (m.cpu.nextAddress + 4 + 4096 * hi.signExtend 32)⟩ := by
    rw [Bus.nextBranch, if_pos thumb, first]
    exact Thumb.branch?_prefix ..
  obtain ⟨m₁, done⟩ := h.step_branch awake aligned next
  rw [size] at aligned
  exact ⟨m₁, done, fun lo exchange awake₁ second known => h.step_suffix aligned done.taken awake₁ second known⟩

/-- A machine about to call THUMB code at the address in its link register. -/
def linking : Machine FlatMemory where
  cpu := (Processor.powerOn .v5).mapRegs fun f => { f.setLr 0x101 with pc := 4 }
  system := { ram := ⟨#[0x3E, 0xFF, 0x2F, 0xE1]⟩ }
  journal := #[]

/-- `BLX lr` goes to the address in the link register, and only then leaves its own there. -/
theorem linking_exchanges :
    let bus := FlatMemory.evenBus .v5
    bus.KeepsRegisters ∧ linking.cpu.halted = false ∧
      linking.cpu.regs.instructionSize.toNat ∣ linking.cpu.nextAddress.toNat ∧
      ∃ m, Exec.step bus linking = .ok () (Exec.settle bus m) ∧ m.cpu.nextAddress = 0x100 ∧ m.cpu.isThumb = true ∧
        m.cpu.regs.lr = 4 := by
  intro bus
  have keeps : bus.KeepsRegisters := FlatMemory.bus_keepsRegisters _ _
  have aligned : linking.cpu.regs.instructionSize.toNat ∣ linking.cpu.nextAddress.toNat := by decide +kernel
  have next : bus.nextBranch linking = some ⟨0x100, true, some 4⟩ := by decide +kernel
  obtain ⟨m, done⟩ := (branches keeps rfl aligned).1 _ next
  exact ⟨keeps, rfl, aligned, m, done.step, done.taken.next, done.taken.thumb, done.taken.lr⟩

end Lockstep
