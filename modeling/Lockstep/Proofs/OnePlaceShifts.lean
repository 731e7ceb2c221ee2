import Lockstep.Shifter
import Mathlib.Logic.Function.Iterate
import Mathlib.Tactic.SplitIfs

/-!
Shifts place by place. A shift by any amount is as many shifts by one place, each of which gives the bit that leaves the
word as its carry. An amount in a register counts places modulo 256, and one in an instruction counts them up to a few
encodings; the rotation by no places takes the carry in as one more bit of the word.
-/

namespace Lockstep

variable (v : Word) (n : Nat) (carry : Bool)

namespace Shifted

def up : Shifted := ⟨(v.extractLsb' 0 31).concat false, v.msb⟩

def down (top : Bool) : Shifted := ⟨.cons top (v.extractLsb' 1 31), v.getLsbD 0⟩

theorem up_eq : up v = ⟨v <<< 1, v.msb⟩ := by
  refine congrArg (Shifted.mk · v.msb) (BitVec.eq_of_getLsbD_eq fun i hi => ?_)
  rw [BitVec.getLsbD_concat, BitVec.getLsbD_extractLsb', BitVec.getLsbD_shiftLeft]
  split_ifs with lowest
  · simp [lowest]
  · simp [hi, show i - 1 < 31 by omega, show ¬ i < 1 by omega]

/-- A word that continues the bits of another one place further down, with a top of its own. -/
theorem down_eq {top : Bool} {w : Word} (lower : ∀ i < 31, w.getLsbD i = v.getLsbD (1 + i))
    (highest : w.getLsbD 31 = top) : down v top = ⟨w, v.getLsbD 0⟩ := by
  refine congrArg (Shifted.mk · (v.getLsbD 0)) (BitVec.eq_of_getLsbD_eq fun i hi => ?_)
  rw [BitVec.getLsbD_cons, BitVec.getLsbD_extractLsb']
  split_ifs with last
  · rw [last, highest]
  · have low : i < 31 := by omega
    rw [lower i low, decide_eq_true low, Bool.true_and]

theorem down_clear : down v false = ⟨v >>> 1, v.getLsbD 0⟩ :=
  down_eq v (fun i _ => BitVec.getLsbD_ushiftRight ..) (by simp)

theorem down_sign : down v v.msb = ⟨v.sshiftRight 1, v.getLsbD 0⟩ := by
  refine down_eq v (fun i hi => ?_) (BitVec.getLsbD_sshiftRight ..)
  rw [BitVec.getLsbD_sshiftRight, if_pos (by omega), decide_eq_false (by omega)]
  rfl

theorem getLsbD_rotate {i : Nat} (hi : i < 32) : (v.rotateRight n).getLsbD i = v.getLsbD ((n + i) % 32) := by
  rw [BitVec.getLsbD_rotateRight]
  by_cases low : i < 32 - n % 32
  · rw [decide_eq_true low, cond_true, show (n + i) % 32 = n % 32 + i by omega]
  · rw [decide_eq_false low, cond_false, decide_eq_true hi, Bool.true_and,
      show (n + i) % 32 = i - (32 - n % 32) by omega]

theorem down_around : down v (v.getLsbD 0) = ⟨v.rotateRight 1, v.getLsbD 0⟩ := by
  refine down_eq v (fun i hi => ?_) (getLsbD_rotate v 1 (by decide))
  rw [getLsbD_rotate v 1 (by omega), Nat.mod_eq_of_lt (by omega)]

end Shifted

/-- A shift by one place. A right shift fills in a zero, the sign or the bit that leaves the word. -/
def Shift.once (kind : Shift) (s : Shifted) : Shifted :=
  match kind with
  | .lsl => .up s.value
  | .lsr => .down s.value false
  | .asr => .down s.value s.value.msb
  | .ror => .down s.value (s.value.getLsbD 0)

-- Up to the width of a word the carry is a bit of it; beyond, the bits that leave are those that were filled in.

namespace Shifted

theorem left_succ : left v (n + 1) carry = ⟨v <<< (n + 1), (v <<< n).msb⟩ := by
  rw [left, if_neg n.succ_ne_zero, BitVec.msb_eq_getLsbD_last, BitVec.getLsbD_shiftLeft]
  split_ifs with within
  · rw [show 32 - 1 - n = 32 - (n + 1) by omega]
    simp [show n ≤ 31 by omega]
  · rw [BitVec.shiftLeft_eq_zero (by omega)]
    simp [show 31 < n by omega]

theorem right_succ : right v (n + 1) carry = ⟨v >>> (n + 1), (v >>> n).getLsbD 0⟩ := by
  rw [right, if_neg n.succ_ne_zero, BitVec.getLsbD_ushiftRight]
  split_ifs with within
  · rfl
  · rw [BitVec.ushiftRight_eq_zero (by omega), BitVec.getLsbD_of_ge _ _ (by omega)]
    rfl

theorem sshiftRight_of_le (h : 31 ≤ n) : v.sshiftRight n = v.sshiftRight 31 := by
  have sign : v.getLsbD 31 = v.msb := (BitVec.msb_eq_getLsbD_last v).symm
  refine BitVec.eq_of_getLsbD_eq fun i hi => ?_
  rw [BitVec.getLsbD_sshiftRight, BitVec.getLsbD_sshiftRight]
  grind

theorem arith_succ : arith v (n + 1) carry = ⟨v.sshiftRight (n + 1), (v.sshiftRight n).getLsbD 0⟩ := by
  have leaving : (v.sshiftRight n).getLsbD 0 = if n < 32 then v.getLsbD n else v.msb :=
    BitVec.getLsbD_sshiftRight ..
  rw [arith, if_neg n.succ_ne_zero, leaving]
  by_cases within : n + 1 < 32
  · rw [if_pos within, if_pos (by omega)]
    rfl
  · have sign : (if n < 32 then v.getLsbD n else v.msb) = v.msb := by
      split_ifs with last
      · rw [BitVec.msb_eq_getLsbD_last, show n = 32 - 1 by omega]
      · rfl
    rw [if_neg within, sign, sshiftRight_of_le v (n + 1) (by omega)]

theorem rotate_succ : rotate v (n + 1) carry = ⟨v.rotateRight (n + 1), (v.rotateRight n).getLsbD 0⟩ := by
  have around : v.rotateRight ((n + 1) % 32) = v.rotateRight (n + 1) := BitVec.rotateRight_mod_eq_rotateRight
  have leaving : (v.rotateRight (n + 1)).msb = (v.rotateRight n).getLsbD 0 := by
    rw [BitVec.msb_eq_getLsbD_last, getLsbD_rotate v _ (by decide), getLsbD_rotate v _ (by decide),
      show n + 1 + (32 - 1) = n + 0 + 32 by omega, Nat.add_mod_right]
  rw [rotate, if_neg n.succ_ne_zero, around]
  exact congrArg (Shifted.mk _) leaving

theorem left_value : (left v n carry).value = v <<< n := by
  cases n with
  | zero => exact (BitVec.shiftLeft_zero v).symm
  | succ n => rw [left_succ]

theorem right_value : (right v n carry).value = v >>> n := by
  cases n with
  | zero => exact (BitVec.ushiftRight_zero v).symm
  | succ n => rw [right_succ]

theorem arith_value : (arith v n carry).value = v.sshiftRight n := by
  cases n with
  | zero => exact (BitVec.sshiftRight_zero ..).symm
  | succ n => rw [arith_succ]

theorem rotate_value : (rotate v n carry).value = v.rotateRight n := by
  cases n with
  | zero =>
    refine BitVec.eq_of_getLsbD_eq fun i hi => ?_
    rw [getLsbD_rotate v 0 hi, Nat.zero_add, Nat.mod_eq_of_lt hi]
    rfl
  | succ n => rw [rotate_succ]

theorem rotateRight_succ : v.rotateRight (n + 1) = (v.rotateRight n).rotateRight 1 := by
  refine BitVec.eq_of_getLsbD_eq fun i hi => ?_
  rw [getLsbD_rotate v _ hi, getLsbD_rotate _ 1 hi, getLsbD_rotate v n (Nat.mod_lt _ (by decide)),
    Nat.add_mod_mod, Nat.add_assoc]

end Shifted

namespace Shift

variable (kind : Shift)

/-- One place more. -/
theorem apply_succ : kind.apply v (n + 1) carry = kind.once (kind.apply v n carry) := by
  cases kind with
  | lsl =>
    show Shifted.left v (n + 1) carry = .up (Shifted.left v n carry).value
    rw [Shifted.left_value, Shifted.up_eq, ← BitVec.shiftLeft_add, Shifted.left_succ]
  | lsr =>
    show Shifted.right v (n + 1) carry = .down (Shifted.right v n carry).value false
    rw [Shifted.right_value, Shifted.down_clear, ← BitVec.shiftRight_add, Shifted.right_succ]
  | asr =>
    show Shifted.arith v (n + 1) carry =
      .down (Shifted.arith v n carry).value (Shifted.arith v n carry).value.msb
    rw [Shifted.arith_value, Shifted.down_sign, ← BitVec.sshiftRight_add, Shifted.arith_succ]
  | ror =>
    show Shifted.rotate v (n + 1) carry =
      .down (Shifted.rotate v n carry).value ((Shifted.rotate v n carry).value.getLsbD 0)
    rw [Shifted.rotate_value, Shifted.down_around, ← Shifted.rotateRight_succ, Shifted.rotate_succ]

/-- A shift by any amount is made place by place. -/
theorem apply_eq_iterate : kind.apply v n carry = kind.once^[n] ⟨v, carry⟩ := by
  induction n with
  | zero => cases kind <;> rfl
  | succ n ih => rw [apply_succ, ih, Function.iterate_succ_apply']

/-- The places that an amount in an instruction stands for. A rotation by none goes through the carry. -/
def places? (kind : Shift) (n : Nat) : Option Nat :=
  match kind, n with
  | .lsr, 0 | .asr, 0 => some 32
  | .ror, 0 => none
  | _, n => some n

end Shift

namespace Shifted

def joined (s : Shifted) : BitVec 33 := .cons s.carry s.value

def ofJoined (x : BitVec 33) : Shifted := ⟨x.setWidth 32, x.msb⟩

theorem getLsbD_joined (s : Shifted) (i : Nat) :
    s.joined.getLsbD i = if i = 32 then s.carry else s.value.getLsbD i := BitVec.getLsbD_cons ..

theorem rotateThrough_eq : rotateThrough v carry = ofJoined ((joined ⟨v, carry⟩).rotateRight 1) := by
  have value : (v >>> 1) ||| ((BitVec.ofBool carry).setWidth 32 <<< 31) =
      ((joined ⟨v, carry⟩).rotateRight 1).setWidth 32 := by
    refine BitVec.eq_of_getLsbD_eq fun i hi => ?_
    rw [BitVec.getLsbD_setWidth, BitVec.getLsbD_rotateRight, decide_eq_true hi, decide_eq_true (by omega),
      cond_true, getLsbD_joined, BitVec.getLsbD_or, BitVec.getLsbD_ushiftRight, BitVec.getLsbD_shiftLeft]
    by_cases highest : i = 31
    · simp [highest]
    · simp [hi, show i < 31 by omega, show ¬ 1 + i = 32 by omega]
  have leaving : v.getLsbD 0 = ((joined ⟨v, carry⟩).rotateRight 1).msb := by
    rw [BitVec.msb_eq_getLsbD_last, BitVec.getLsbD_rotateRight]
    exact (getLsbD_joined ⟨v, carry⟩ 0).symm
  rw [rotateThrough, value, leaving]
  rfl

end Shifted

theorem Shift.immediate_eq (kind : Shift) :
    kind.immediate v n carry =
      match kind.places? n with
      | some k => kind.once^[k] ⟨v, carry⟩
      | none => .ofJoined ((Shifted.joined ⟨v, carry⟩).rotateRight 1) := by
  cases n with
  | zero =>
    cases kind with
    | lsl => rfl
    | lsr => exact Shift.lsr.apply_eq_iterate v 32 carry
    | asr => exact Shift.asr.apply_eq_iterate v 32 carry
    | ror => exact Shifted.rotateThrough_eq v carry
  | succ n =>
    have plain : kind.immediate v (n + 1) carry = kind.apply v (n + 1) carry := by cases kind <;> rfl
    have places : kind.places? (n + 1) = some (n + 1) := by cases kind <;> rfl
    rw [plain, places, kind.apply_eq_iterate]

/-- A shift is made place by place, whether its amount is any number, the low byte of a register or written in an
instruction. -/
theorem Shift.place_by_place (kind : Shift) :
    (∀ n, kind.apply v n carry = kind.once^[n] ⟨v, carry⟩) ∧
    (∀ amount, kind.register v amount carry = kind.once^[amount.toNat % 256] ⟨v, carry⟩) ∧
    ∀ n, kind.immediate v n carry =
      match kind.places? n with
      | some k => kind.once^[k] ⟨v, carry⟩
      | none => .ofJoined ((Shifted.joined ⟨v, carry⟩).rotateRight 1) :=
  ⟨fun n => kind.apply_eq_iterate v n carry, fun _ => kind.apply_eq_iterate v _ carry,
    fun n => kind.immediate_eq v n carry⟩

end Lockstep
