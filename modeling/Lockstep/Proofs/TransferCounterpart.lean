import Lockstep.Proofs.Counterpart

/-!
The ARM words that stand for THUMB transfers. Each is executed unconditionally and names the same registers. A single
transfer applies its offset upwards before the access and leaves the base alone; a transfer of several goes upwards
from the base and moves it.
-/

namespace Lockstep

namespace Arm

inductive HalfKind where
  | storeHalf
  | loadHalf
  | loadSignedByte
  | loadSignedHalf

namespace HalfKind

def kind : HalfKind → TransferKind
  | .storeHalf => .storeHalf
  | .loadHalf => .loadHalf
  | .loadSignedByte => .loadSignedByte
  | .loadSignedHalf => .loadSignedHalf

def load (k : HalfKind) : Bool := k.kind.isLoad

/-- The number of the kind in the encoding, among the loads or the stores. -/
def number : HalfKind → BitVec 2
  | .storeHalf | .loadHalf => 1
  | .loadSignedByte => 2
  | .loadSignedHalf => 3

end HalfKind

def wholeKind (load byte : Bool) : TransferKind :=
  match load, byte with
  | false, false => .storeWord
  | false, true => .storeByte
  | true, false => .loadWord
  | true, true => .loadByte

/-- The transfers that THUMB transfers abbreviate. All are always executed. -/
inductive PlainTransfer where
  | near (load byte : Bool) (n d : Register) (distance : BitVec 12)
  | indexed (load byte : Bool) (n d m : Register)
  | nearHalf (kind : HalfKind) (n d : Register) (distance : BitVec 8)
  | indexedHalf (kind : HalfKind) (n d m : Register)
  | several (load : Bool) (n : Register) (list : BitVec 8)

def upwards : Indexing := { before := true, up := true, writeback := false }

def following : Indexing := { before := false, up := true, writeback := true }

def PlainTransfer.word : PlainTransfer → Word
  | .near load byte n d v =>
    unconditional (0b01011#5 ++ BitVec.ofBool byte ++ 0#1 ++ BitVec.ofBool load) n.number d.number
      (v.extractLsb' 8 4) (v.extractLsb' 4 4) (v.extractLsb' 0 4)
  | .indexed load byte n d m =>
    unconditional (0b01111#5 ++ BitVec.ofBool byte ++ 0#1 ++ BitVec.ofBool load) n.number d.number 0 0 m.number
  | .nearHalf kind n d v =>
    unconditional (0b0001110#7 ++ BitVec.ofBool kind.load) n.number d.number (v.extractLsb' 4 4)
      (1#1 ++ kind.number ++ 1#1) (v.extractLsb' 0 4)
  | .indexedHalf kind n d m =>
    unconditional (0b0001100#7 ++ BitVec.ofBool kind.load) n.number d.number 0 (1#1 ++ kind.number ++ 1#1) m.number
  | .several load n list =>
    unconditional (0b1000101#7 ++ BitVec.ofBool load) n.number 0 0 (list.extractLsb' 4 4) (list.extractLsb' 0 4)

def PlainTransfer.instruction : PlainTransfer → Instruction
  | .near load byte n d v => .transfer (wholeKind load byte) n d (.immediate (v.setWidth 32)) upwards
  | .indexed load byte n d m => .transfer (wholeKind load byte) n d (.shifted m .lsl 0) upwards
  | .nearHalf kind n d v => .transfer kind.kind n d (.immediate (v.setWidth 32)) upwards
  | .indexedHalf kind n d m => .transfer kind.kind n d (.register m) upwards
  | .several load n list => .blockTransfer load n (list.setWidth 16) false following

section
variable (upper : BitVec 8) (n d s lower m : BitVec 4)

/-- The offset of a transfer of a word or a byte. -/
theorem distance_unconditional :
    (unconditional upper n d s lower m).extractLsb' 0 12 = s ++ lower ++ m := by
  refine BitVec.eq_of_getLsbD_eq fun i hi => ?_
  simp only [unconditional, BitVec.getLsbD_extractLsb', BitVec.getLsbD_append, Nat.zero_add, hi, decide_true,
    Bool.true_and]
  split_ifs <;> first | rfl | omega

/-- The registers of a transfer of several. -/
theorem list_unconditional :
    (unconditional upper n d s lower m).extractLsb' 0 16 = d ++ s ++ lower ++ m := by
  refine BitVec.eq_of_getLsbD_eq fun i hi => ?_
  simp only [unconditional, BitVec.getLsbD_extractLsb', BitVec.getLsbD_append, Nat.zero_add, hi, decide_true,
    Bool.true_and]
  split_ifs <;> first | rfl | omega

theorem halves_unconditional :
    (unconditional upper n d s lower m).extractLsb' 8 4 = s ∧
      (unconditional upper n d s lower m).extractLsb' 0 4 = m ∧
      (unconditional upper n d s lower m).extractLsb' 5 2 = lower.extractLsb' 1 2 := by
  simp (disch := omega) only [unconditional, BitVec.extractLsb'_append_eq_of_le,
    BitVec.extractLsb'_append_eq_of_add_le, Nat.reduceSub, BitVec.extractLsb'_eq_self, and_self]

end

theorem PlainTransfer.condition_word (i : PlainTransfer) : condition i.word = Condition.always := by
  cases i <;> exact condition_unconditional ..

/-- The bits of a transfer's code that say how it finds its address. -/
theorem indexing_unconditional (upper : BitVec 8) (n d s lower m : BitVec 4)
    (bits : upper.getLsbD 4 = true ∧ upper.getLsbD 3 = true ∧ upper.getLsbD 1 = false) :
    indexing (unconditional upper n d s lower m) = upwards := by
  have bit (i : Nat) := getLsbD_unconditional upper n d s lower m (i := i)
  rw [indexing, show (24 : Nat) = 20 + 4 from rfl, show (23 : Nat) = 20 + 3 from rfl, show (21 : Nat) = 20 + 1 from rfl,
    bit 4 (by decide), bit 3 (by decide), bit 1 (by decide), bits.1, bits.2.1, bits.2.2]
  rfl

theorem transferKind_unconditional (top : BitVec 5) (load byte : Bool) (n d s lower m : BitVec 4) :
    transferKind (unconditional (top ++ BitVec.ofBool byte ++ 0#1 ++ BitVec.ofBool load) n d s lower m) =
      wholeKind load byte := by
  have bit (i : Nat) := getLsbD_unconditional (top ++ BitVec.ofBool byte ++ 0#1 ++ BitVec.ofBool load) n d s lower m
    (i := i)
  rw [transferKind, show (22 : Nat) = 20 + 2 from rfl, show (20 : Nat) = 20 + 0 from rfl, bit 2 (by decide),
    bit 0 (by decide)]
  simp only [BitVec.getLsbD_append]
  cases load <;> cases byte <;> rfl

theorem halfTransferKind_unconditional (v5 : Bool) (top : BitVec 7) (kind : HalfKind) (n d s m : BitVec 4) :
    halfTransferKind? v5
      (unconditional (top ++ BitVec.ofBool kind.load) n d s (1#1 ++ kind.number ++ 1#1) m) = some kind.kind := by
  have bit := getLsbD_unconditional (top ++ BitVec.ofBool kind.load) n d s (1#1 ++ kind.number ++ 1#1) m
    (i := 0) (by decide)
  have places := (halves_unconditional (top ++ BitVec.ofBool kind.load) n d s (1#1 ++ kind.number ++ 1#1) m).2.2
  rw [halfTransferKind?, show (20 : Nat) = 20 + 0 from rfl, bit, places]
  simp only [BitVec.getLsbD_append]
  cases kind <;> rfl

variable (v5 load byte : Bool) (kind : HalfKind) (n d m : Register)

theorem classOf_near (v : BitVec 12) : classOf (PlainTransfer.near load byte n d v).word = .transferImmediate := by
  have cls : ∀ lower : BitVec 4, Class.ofCode
      (0b01011#5 ++ BitVec.ofBool byte ++ 0#1 ++ BitVec.ofBool load ++ lower) = .transferImmediate := by
    cases load <;> cases byte <;> decide
  rw [classOf, PlainTransfer.word, code_unconditional, cls]

theorem classOf_indexed : classOf (PlainTransfer.indexed load byte n d m).word = .transferRegister := by
  rw [classOf, PlainTransfer.word, code_unconditional]
  cases load <;> cases byte <;> decide

theorem classOf_nearHalf (v : BitVec 8) : classOf (PlainTransfer.nearHalf kind n d v).word = .halfTransfer := by
  rw [classOf, PlainTransfer.word, code_unconditional]
  cases kind <;> decide

theorem classOf_indexedHalf : classOf (PlainTransfer.indexedHalf kind n d m).word = .halfTransfer := by
  rw [classOf, PlainTransfer.word, code_unconditional]
  cases kind <;> decide

theorem classOf_several (list : BitVec 8) : classOf (PlainTransfer.several load n list).word = .blockTransfer := by
  have cls : ∀ lower : BitVec 4, Class.ofCode (0b1000101#7 ++ BitVec.ofBool load ++ lower) = .blockTransfer := by
    cases load <;> decide
  rw [classOf, PlainTransfer.word, code_unconditional, cls]

/-- The list of a transfer of several names low registers only. -/
theorem list_several (list : BitVec 8) :
    (PlainTransfer.several load n list).word.extractLsb' 0 16 = list.setWidth 16 := by
  rw [PlainTransfer.word, list_unconditional, BitVec.append_assoc, append_halves (a := 4) (b := 4) list]
  exact (BitVec.setWidth_eq_append (by decide)).symm

theorem append_thirds (v : BitVec 12) : v.extractLsb' 8 4 ++ v.extractLsb' 4 4 ++ v.extractLsb' 0 4 = v := by
  rw [BitVec.extractLsb'_append_extractLsb'_eq_extractLsb' (by decide)]
  exact append_halves (a := 8) (b := 4) v

theorem splitOffset_nearHalf (v : BitVec 8) :
    splitOffset (PlainTransfer.nearHalf kind n d v).word = .immediate (v.setWidth 32) := by
  have near := getLsbD_unconditional (0b0001110#7 ++ BitVec.ofBool kind.load) n.number d.number (v.extractLsb' 4 4)
    (1#1 ++ kind.number ++ 1#1) (v.extractLsb' 0 4) (i := 2) (by decide)
  obtain ⟨hi, lo, -⟩ := halves_unconditional (0b0001110#7 ++ BitVec.ofBool kind.load) n.number d.number
    (v.extractLsb' 4 4) (1#1 ++ kind.number ++ 1#1) (v.extractLsb' 0 4)
  rw [splitOffset, PlainTransfer.word, near, hi, lo, append_halves (a := 4) (b := 4) v]
  simp only [BitVec.getLsbD_append]
  rfl

theorem splitOffset_indexedHalf : splitOffset (PlainTransfer.indexedHalf kind n d m).word = .register m := by
  have far := getLsbD_unconditional (0b0001100#7 ++ BitVec.ofBool kind.load) n.number d.number 0
    (1#1 ++ kind.number ++ 1#1) m.number (i := 2) (by decide)
  obtain ⟨-, -, -, hm⟩ := register_unconditional (0b0001100#7 ++ BitVec.ofBool kind.load) n.number d.number 0
    (1#1 ++ kind.number ++ 1#1) m.number
  rw [splitOffset, PlainTransfer.word, far, hm]
  simp only [BitVec.getLsbD_append]
  rfl

/-- The words mean the transfers on both architectures. -/
theorem PlainTransfer.decode_word (i : PlainTransfer) : decode v5 i.word = i.instruction := by
  cases i with
  | near load byte n d v =>
    obtain ⟨hn, hd, -⟩ := register_unconditional (0b01011#5 ++ BitVec.ofBool byte ++ 0#1 ++ BitVec.ofBool load)
      n.number d.number (v.extractLsb' 8 4) (v.extractLsb' 4 4) (v.extractLsb' 0 4)
    simp only [decode, classOf_near]
    rw [word, transferKind_unconditional, distance_unconditional, append_thirds, indexing_unconditional, hn, hd]
    · rfl
    · cases load <;> cases byte <;> decide
  | indexed load byte n d m =>
    obtain ⟨hn, hd, -, hm⟩ := register_unconditional
      (0b01111#5 ++ BitVec.ofBool byte ++ 0#1 ++ BitVec.ofBool load) n.number d.number 0 0 m.number
    simp only [decode, classOf_indexed]
    rw [word, transferKind_unconditional, shiftKind_unconditional, amount_unconditional, indexing_unconditional,
      hn, hd, hm]
    · rfl
    · cases load <;> cases byte <;> decide
  | nearHalf kind n d v =>
    obtain ⟨hn, hd, -⟩ := register_unconditional (0b0001110#7 ++ BitVec.ofBool kind.load) n.number d.number
      (v.extractLsb' 4 4) (1#1 ++ kind.number ++ 1#1) (v.extractLsb' 0 4)
    simp only [decode, classOf_nearHalf, splitOffset_nearHalf]
    rw [word, halfTransferKind_unconditional, indexing_unconditional, hn, hd]
    · rfl
    · cases kind <;> decide
  | indexedHalf kind n d m =>
    obtain ⟨hn, hd, -⟩ := register_unconditional (0b0001100#7 ++ BitVec.ofBool kind.load) n.number d.number 0
      (1#1 ++ kind.number ++ 1#1) m.number
    simp only [decode, classOf_indexedHalf, splitOffset_indexedHalf]
    rw [word, halfTransferKind_unconditional, indexing_unconditional, hn, hd]
    · rfl
    · cases kind <;> decide
  | several load n list =>
    have hn := (register_unconditional (0b1000101#7 ++ BitVec.ofBool load) n.number 0 0 (list.extractLsb' 4 4)
      (list.extractLsb' 0 4)).1
    have bit (i : Nat) := getLsbD_unconditional (0b1000101#7 ++ BitVec.ofBool load) n.number 0 0
      (list.extractLsb' 4 4) (list.extractLsb' 0 4) (i := i)
    simp only [decode, classOf_several, list_several]
    rw [word, hn, show (24 : Nat) = 20 + 4 from rfl, show (23 : Nat) = 20 + 3 from rfl,
      show (22 : Nat) = 20 + 2 from rfl, show (21 : Nat) = 20 + 1 from rfl, show (20 : Nat) = 20 + 0 from rfl,
      bit 4 (by decide), bit 3 (by decide), bit 2 (by decide), bit 1 (by decide), bit 0 (by decide)]
    cases load <;> rfl

end Arm

namespace Thumb

/-- Whether a halfword is a transfer through a base other than the program counter: of one low register, at a
distance or on the stack, or of a list of low registers upwards. The list must not be empty. -/
def IsTransfer (h : Halfword) : Prop :=
  h.extractLsb' 12 4 = 0b0101 ∨ h.extractLsb' 13 3 = 0b011 ∨ h.extractLsb' 13 3 = 0b100 ∨
    (h.extractLsb' 12 4 = 0b1100 ∨ h.extractLsb' 8 8 = 0b10111100) ∧ h.extractLsb' 0 8 ≠ 0

instance (h : Halfword) : Decidable (IsTransfer h) := inferInstanceAs (Decidable (_ ∨ _ ∨ _ ∨ _))

def TransferOp.kind : TransferOp → Arm.TransferKind
  | .storeWord => .storeWord
  | .storeHalf => .storeHalf
  | .storeByte => .storeByte
  | .loadSignedByte => .loadSignedByte
  | .loadWord => .loadWord
  | .loadHalf => .loadHalf
  | .loadByte => .loadByte
  | .loadSignedHalf => .loadSignedHalf

def TransferOp.onArm (op : TransferOp) (n d m : Register) : Arm.PlainTransfer :=
  match op with
  | .storeWord => .indexed false false n d m
  | .storeHalf => .indexedHalf .storeHalf n d m
  | .storeByte => .indexed false true n d m
  | .loadSignedByte => .indexedHalf .loadSignedByte n d m
  | .loadWord => .indexed true false n d m
  | .loadHalf => .indexedHalf .loadHalf n d m
  | .loadByte => .indexed true true n d m
  | .loadSignedHalf => .indexedHalf .loadSignedHalf n d m

/-- The transfer that a halfword abbreviates. Distances are counted in units of what is transferred, and a pop
goes upwards from the stack pointer. -/
def transferCounterpart (h : Halfword) : Arm.PlainTransfer :=
  let base := (register h 3).wide
  let d := (register h 0).wide
  let places := h.extractLsb' 6 5
  let list := h.extractLsb' 0 8
  match (h.extractLsb' 11 5).toNat with
  | 0b01010 | 0b01011 => (TransferOp.ofBits (h.extractLsb' 9 3)).onArm base d (register h 6).wide
  | 0b01100 => .near false false base d (places.setWidth 12 <<< 2)
  | 0b01101 => .near true false base d (places.setWidth 12 <<< 2)
  | 0b01110 => .near false true base d (places.setWidth 12)
  | 0b01111 => .near true true base d (places.setWidth 12)
  | 0b10000 => .nearHalf .storeHalf base d (places.setWidth 8 <<< 1)
  | 0b10001 => .nearHalf .loadHalf base d (places.setWidth 8 <<< 1)
  | 0b10010 => .near false false Register.sp (register h 8).wide (list.setWidth 12 <<< 2)
  | 0b10011 => .near true false Register.sp (register h 8).wide (list.setWidth 12 <<< 2)
  | 0b11000 => .several false (register h 8).wide list
  | 0b11001 => .several true (register h 8).wide list
  | _ => .several true Register.sp list

/-- A distance fits into the longer instruction. -/
theorem distance_fits {w u : Nat} (x : BitVec w) (k : Nat) (fits : w + k ≤ u) :
    ((x.setWidth u) <<< k).setWidth 32 = (x.setWidth 32) <<< k := by
  ext i hi
  simp only [BitVec.getElem_setWidth, BitVec.getElem_shiftLeft, BitVec.getLsbD_shiftLeft, BitVec.getLsbD_setWidth]
  by_cases hk : i < k
  · simp [hk]
  · have hw : ¬ i < u → x.getLsbD (i - k) = false := fun h => BitVec.getLsbD_of_ge _ _ (by omega)
    by_cases hu : i < u
    · have : i - k < u := by omega
      simp [hk, hu, this]
    · simp [hk, hu, hw hu]

/-- The formats, told apart by the top five bits. -/
theorem transfer_formats {h : Halfword} (hf : IsTransfer h) :
    (10 ≤ (h.extractLsb' 11 5).toNat ∧ (h.extractLsb' 11 5).toNat < 20) ∨
      ((h.extractLsb' 11 5).toNat = 24 ∨ (h.extractLsb' 11 5).toNat = 25 ∨
        (h.extractLsb' 11 5).toNat = 23 ∧ (h.extractLsb' 8 4).toNat = 12) ∧ h.extractLsb' 0 8 ≠ 0 := by
  have hlt := h.isLt
  simp only [IsTransfer, ne_eq, ← BitVec.toNat_inj, BitVec.extractLsb'_toNat, Nat.shiftRight_eq_div_pow] at hf ⊢
  rcases hf with hf | hf | hf | ⟨hf | hf, hl⟩
  · have : h.toNat / 2 ^ 12 % 2 ^ 4 = 5 := hf
    omega
  · have : h.toNat / 2 ^ 13 % 2 ^ 3 = 3 := hf
    omega
  · have : h.toNat / 2 ^ 13 % 2 ^ 3 = 4 := hf
    omega
  · have : h.toNat / 2 ^ 12 % 2 ^ 4 = 12 := hf
    omega
  · have : h.toNat / 2 ^ 8 % 2 ^ 8 = 188 := hf
    omega

end Thumb

end Lockstep
