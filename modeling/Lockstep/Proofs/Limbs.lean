import Lockstep.Arithmetic
import Mathlib.Algebra.GroupWithZero.Nat
import Mathlib.Algebra.Ring.Int.Defs
import Mathlib.Tactic.SplitIfs

/-!
Numbers of several words. Additions or subtractions from the lowest word on, each with the carry of the one before, add
or subtract the whole numbers: the last carry is that of the whole, and so is the last overflow. Subtracting is adding
the complement, so that both are one chain of additions.
-/

namespace Lockstep

namespace Sum

variable (a b : Word) (c : Bool)

/-- The carry is worth a word more. -/
theorem addCarry_total :
    (addCarry a b c).value.toNat + 2 ^ 32 * (addCarry a b c).carry.toNat = a.toNat + b.toNat + c.toNat := by
  have ha := a.isLt
  have hb := b.isLt
  have hc := c.toNat_le
  simp only [addCarry, BitVec.toNat_ofNat]
  by_cases carries : 0x100000000 ≤ a.toNat + b.toNat + c.toNat
  · simp only [carries, decide_true, Bool.toNat_true]
    omega
  · simp only [carries, decide_false, Bool.toNat_false]
    omega

theorem msb_xor_iff : (a ^^^ b).msb = true ↔ ¬ (a.toInt < 0 ↔ b.toInt < 0) := by
  rw [BitVec.msb_xor, BitVec.msb_eq_toInt, BitVec.msb_eq_toInt, bne_iff_ne, ne_eq, decide_eq_decide]

theorem overflow_iff :
    (addCarry a b c).overflow = true ↔
      (a.toInt < 0 ↔ b.toInt < 0) ∧ ¬ (a.toInt < 0 ↔ (addCarry a b c).value.toInt < 0) := by
  show (~~~(a ^^^ b) &&& (a ^^^ (addCarry a b c).value)).msb = true ↔ _
  rw [BitVec.msb_and, BitVec.msb_not, Bool.and_eq_true, Bool.and_eq_true, msb_xor_iff, Bool.not_eq_true',
    ← Bool.not_eq_true, msb_xor_iff, not_not, decide_eq_true_iff]
  exact and_congr_left' (and_iff_right (by decide))

/-- The result has a sign of its own exactly where the signed sum leaves the word. -/
theorem addCarry_overflow :
    (addCarry a b c).overflow = true ↔
      ¬ (-2 ^ 31 ≤ a.toInt + b.toInt + c.toNat ∧ a.toInt + b.toInt + c.toNat < 2 ^ 31) := by
  have total := addCarry_total a b c
  have ha := a.isLt
  have hb := b.isLt
  have hc := c.toNat_le
  have hv := (addCarry a b c).value.isLt
  rw [overflow_iff, BitVec.toInt_eq_toNat_cond a, BitVec.toInt_eq_toNat_cond b,
    BitVec.toInt_eq_toNat_cond (addCarry a b c).value]
  generalize (addCarry a b c).value.toNat = v at *
  split_ifs <;> omega

/-- The flags of an addition do not depend on how it is made. -/
theorem add_eq : add a b = addCarry a b false := by
  have ha := a.isLt
  have hb := b.isLt
  have value : BitVec.ofNat 32 (a.toNat + b.toNat + 0) = a + b := BitVec.eq_of_toNat_eq (by simp)
  have carry : (a + b).ult a = decide (0x100000000 ≤ a.toNat + b.toNat + 0) := by
    rw [BitVec.ult_eq_decide, BitVec.toNat_add, decide_eq_decide]
    omega
  simp only [add, addCarry, Bool.toNat_false, value, carry]

/-- Nor do those of a subtraction. -/
theorem sub_eq : sub a b = subCarry a b true := by
  have ha := a.isLt
  have hb := b.isLt
  have total : a.toNat + (~~~b).toNat + 1 = a.toNat + (2 ^ 32 - b.toNat) := by
    rw [BitVec.toNat_not]
    omega
  have value : BitVec.ofNat 32 (a.toNat + (2 ^ 32 - b.toNat)) = a - b := by
    refine BitVec.eq_of_toNat_eq ?_
    rw [BitVec.toNat_ofNat, BitVec.toNat_sub, Nat.add_comm]
  have carry : b.ule a = decide (0x100000000 ≤ a.toNat + (2 ^ 32 - b.toNat)) := by
    rw [BitVec.ule_eq_decide, decide_eq_decide]
    omega
  have signs : ~~~(a ^^^ ~~~b) = a ^^^ b := by
    rw [← BitVec.not_xor_right, BitVec.not_not]
  simp only [sub, subCarry, addCarry, Bool.toNat_true, total, value, carry, signs]

end Sum

/-- Words that spell a number together, the least significant first. -/
abbrev Limbs := List Word

namespace Limbs

def toNat : Limbs → Nat
  | [] => 0
  | x :: xs => x.toNat + 2 ^ 32 * toNat xs

def toInt (xs : Limbs) : Int := (BitVec.ofNat (32 * xs.length) xs.toNat).toInt

/-- Whether `n` limbs can spell a number in two's complement. -/
def Fits (n : Nat) (x : Int) : Prop := -2 ^ (32 * n - 1) ≤ x ∧ x < 2 ^ (32 * n - 1)

/-- Go on with the next limbs after the result for some, which passes on its carry. -/
def chain (op : Word → Word → Bool → Sum) (s : Sum) : Limbs → Limbs → Limbs × Sum
  | a :: as, b :: bs =>
    let (rest, last) := chain op (op a b s.carry) as bs
    (s.value :: rest, last)
  | _, _ => ([s.value], s)

def add : Limbs → Limbs → Limbs × Sum
  | a :: as, b :: bs => chain .addCarry (.add a b) as bs
  | _, _ => ([], ⟨0, false, false⟩)

def sub : Limbs → Limbs → Limbs × Sum
  | a :: as, b :: bs => chain .subCarry (.sub a b) as bs
  | _, _ => ([], ⟨0, false, false⟩)

variable (x : Word) (xs ys : Limbs)

theorem pow_succ (n : Nat) : 2 ^ (32 * (n + 1)) = 2 ^ 32 * 2 ^ (32 * n) := by
  rw [Nat.mul_succ, Nat.add_comm, Nat.pow_add]

/-- The bound of the signed numbers is half of that of all. -/
theorem pow_half {n : Nat} (h : n ≠ 0) : 2 ^ (32 * n) = 2 * 2 ^ (32 * n - 1) := by
  rw [← Nat.pow_succ', Nat.succ_eq_add_one, Nat.sub_add_cancel (by omega)]

theorem toNat_lt : xs.toNat < 2 ^ (32 * xs.length) := by
  induction xs with
  | nil => exact Nat.one_pos
  | cons x xs ih =>
    have hx := x.isLt
    rw [toNat, List.length_cons, pow_succ]
    omega

theorem toInt_eq :
    xs.toInt = if 2 * xs.toNat < 2 ^ (32 * xs.length) then (xs.toNat : Int)
      else xs.toNat - (2 ^ (32 * xs.length) : Nat) := by
  rw [toInt, BitVec.toInt_eq_toNat_cond, BitVec.toNat_ofNat, Nat.mod_eq_of_lt xs.toNat_lt]

theorem toInt_singleton : toInt [x] = x.toInt := by
  rw [toInt_eq, BitVec.toInt_eq_toNat_cond]
  rfl

/-- The sign is that of the limbs above the first. -/
theorem toInt_cons {xs : Limbs} (h : xs ≠ []) : toInt (x :: xs) = x.toNat + 2 ^ 32 * toInt xs := by
  have hx := x.isLt
  have half := pow_half (mt List.length_eq_zero_iff.1 h)
  rw [toInt_eq, toInt_eq, toNat, List.length_cons, pow_succ, half]
  split_ifs <;> omega

theorem fits_iff {n : Nat} (z : Int) :
    Fits n z ↔ -((2 ^ (32 * n - 1) : Nat) : Int) ≤ z ∧ z < (2 ^ (32 * n - 1) : Nat) := by
  rw [Int.natCast_pow]
  rfl

/-- A limb below others does not decide whether they fit. -/
theorem fits_succ {n : Nat} (h : n ≠ 0) (z : Int) : Fits (n + 1) (x.toNat + 2 ^ 32 * z) ↔ Fits n z := by
  have hx := x.isLt
  have half : 2 ^ (32 * (n + 1) - 1) = 2 ^ 32 * 2 ^ (32 * n - 1) := by
    rw [← Nat.pow_add, show 32 * (n + 1) - 1 = 32 + (32 * n - 1) by omega]
  rw [fits_iff, fits_iff, half]
  omega

structure Adds (xs ys : Limbs) (c : Bool) (r : Limbs × Sum) : Prop where
  length : r.1.length = xs.length
  total : r.1.toNat + 2 ^ (32 * xs.length) * r.2.carry.toNat = xs.toNat + ys.toNat + c.toNat
  overflow : r.2.overflow = true ↔ ¬ Fits xs.length (xs.toInt + ys.toInt + c.toNat)

namespace Adds

variable {xs ys : Limbs} {c : Bool} {r : Limbs × Sum} (h : Adds xs ys c r)
include h

theorem bound : r.1.toNat < 2 ^ (32 * xs.length) := h.length ▸ r.1.toNat_lt

theorem value : r.1.toNat = (xs.toNat + ys.toNat + c.toNat) % 2 ^ (32 * xs.length) := by
  rw [← h.total, Nat.add_mul_mod_self_left, Nat.mod_eq_of_lt h.bound]

theorem carry : r.2.carry = true ↔ 2 ^ (32 * xs.length) ≤ xs.toNat + ys.toNat + c.toNat := by
  have bound := h.bound
  rw [← h.total]
  cases r.2.carry
  · simpa using bound
  · simp

end Adds

theorem chain_adds {xs ys : Limbs} (same : xs.length = ys.length) (a b : Word) (c : Bool) :
    Adds (a :: xs) (b :: ys) c (chain .addCarry (.addCarry a b c) xs ys) := by
  induction xs generalizing ys a b c with
  | nil =>
    obtain rfl := List.length_eq_zero_iff.1 same.symm
    refine ⟨rfl, ?_, ?_⟩
    · have total := Sum.addCarry_total a b c
      simp only [chain, toNat, List.length_cons, List.length_nil]
      omega
    · rw [toInt_singleton, toInt_singleton]
      exact Sum.addCarry_overflow a b c
  | cons a' xs ih =>
    obtain ⟨b', ys, rfl⟩ := List.exists_cons_of_length_pos (Nat.lt_of_lt_of_eq (Nat.succ_pos _) same)
    have first := Sum.addCarry_total a b c
    obtain ⟨length, total, overflow⟩ := ih (Nat.succ.inj same) a' b' (Sum.addCarry a b c).carry
    refine ⟨congrArg (· + 1) length, ?_, ?_⟩
    · simp only [chain, toNat, List.length_cons, pow_succ (xs.length + 1), Nat.mul_assoc] at total ⊢
      omega
    · have whole : toInt (a :: a' :: xs) + toInt (b :: b' :: ys) + c.toNat = (Sum.addCarry a b c).value.toNat +
          2 ^ 32 * (toInt (a' :: xs) + toInt (b' :: ys) + (Sum.addCarry a b c).carry.toNat) := by
        rw [toInt_cons a (List.cons_ne_nil _ _), toInt_cons b (List.cons_ne_nil _ _)]
        omega
      rw [whole]
      exact overflow.trans (not_congr (fits_succ _ (Nat.succ_ne_zero _) _).symm)

def inverted : Limbs := xs.map (~~~·)

theorem chain_sub (s : Sum) : chain .subCarry s xs ys = chain .addCarry s xs ys.inverted := by
  induction xs generalizing ys s with
  | nil => rfl
  | cons a xs ih =>
    cases ys with
    | nil => rfl
    | cons b ys => exact congrArg (fun r : Limbs × Sum => (s.value :: r.1, r.2)) (ih ys (.subCarry a b s.carry))

theorem toNat_inverted : xs.inverted.toNat + xs.toNat + 1 = 2 ^ (32 * xs.length) := by
  induction xs with
  | nil => rfl
  | cons x xs ih =>
    have hx := x.isLt
    have first : (~~~x).toNat = 2 ^ 32 - 1 - x.toNat := BitVec.toNat_not
    change (~~~x).toNat + 2 ^ 32 * toNat (inverted xs) + (x.toNat + 2 ^ 32 * toNat xs) + 1 = _
    rw [List.length_cons, pow_succ]
    omega

theorem toInt_inverted {xs : Limbs} (h : xs ≠ []) : xs.inverted.toInt = -1 - xs.toInt := by
  have whole := xs.toNat_inverted
  have half := pow_half (mt List.length_eq_zero_iff.1 h)
  have length : xs.inverted.length = xs.length := List.length_map ..
  rw [toInt_eq, toInt_eq, length]
  split_ifs <;> omega

theorem add_adds {xs ys : Limbs} (same : xs.length = ys.length) (some : xs ≠ []) : Adds xs ys false (add xs ys) := by
  obtain ⟨a, xs, rfl⟩ := List.exists_cons_of_ne_nil some
  obtain ⟨b, ys, rfl⟩ := List.exists_cons_of_length_pos (Nat.lt_of_lt_of_eq (Nat.succ_pos _) same)
  rw [add, Sum.add_eq]
  exact chain_adds (Nat.succ.inj same) a b false

theorem sub_adds {xs ys : Limbs} (same : xs.length = ys.length) (some : xs ≠ []) :
    Adds xs ys.inverted true (sub xs ys) := by
  obtain ⟨a, xs, rfl⟩ := List.exists_cons_of_ne_nil some
  obtain ⟨b, ys, rfl⟩ := List.exists_cons_of_length_pos (Nat.lt_of_lt_of_eq (Nat.succ_pos _) same)
  have rest : xs.length = (inverted ys).length := (Nat.succ.inj same).trans (List.length_map ..).symm
  rw [sub, Sum.sub_eq, chain_sub]
  exact chain_adds rest a (~~~b) true

theorem sub_value {xs ys : Limbs} (same : xs.length = ys.length) (some : xs ≠ []) :
    ((sub xs ys).1.toNat : Int) = ((xs.toNat : Int) - ys.toNat) % 2 ^ (32 * xs.length) := by
  have adds := sub_adds same some
  have total := adds.total
  have bound := adds.bound
  have whole := ys.toNat_inverted
  have power : (2 : Int) ^ (32 * xs.length) = (2 ^ (32 * xs.length) : Nat) := (Int.natCast_pow ..).symm
  rw [← same] at whole
  rw [power]
  generalize 2 ^ (32 * xs.length) = p at *
  have difference : (xs.toNat : Int) - ys.toNat =
      (sub xs ys).1.toNat + p * ((sub xs ys).2.carry.toNat - 1) := by
    rw [Int.mul_sub, Int.mul_one]
    rw [Bool.toNat_true] at total
    omega
  rw [difference, Int.add_mul_emod_self_left, Int.emod_eq_of_lt (Int.natCast_nonneg _) (Int.ofNat_lt.2 bound)]

theorem sub_carry {xs ys : Limbs} (same : xs.length = ys.length) (some : xs ≠ []) :
    (sub xs ys).2.carry = true ↔ ys.toNat ≤ xs.toNat := by
  have whole := ys.toNat_inverted
  rw [← same] at whole
  rw [(sub_adds same some).carry, ← whole, Bool.toNat_true]
  omega

theorem sub_overflow {xs ys : Limbs} (same : xs.length = ys.length) (some : xs ≠ []) :
    (sub xs ys).2.overflow = true ↔ ¬ Fits xs.length (xs.toInt - ys.toInt) := by
  have there : ys ≠ [] := fun none => some (List.length_eq_zero_iff.1 (same.trans (congrArg List.length none)))
  rw [(sub_adds same some).overflow, toInt_inverted there, Bool.toNat_true,
    show xs.toInt + (-1 - ys.toInt) + (1 : Nat) = xs.toInt - ys.toInt by omega]

/-- Limb by limb, numbers of the same number of limbs are added and subtracted as a whole, with the carry, or the
borrow as an absent carry, and the overflow of the whole. One operation without a carry is one with it. -/
theorem limb_by_limb {xs ys : Limbs} (same : xs.length = ys.length) (some : xs ≠ []) :
    let n := xs.length
    ((add xs ys).1.length = n ∧ (add xs ys).1.toNat = (xs.toNat + ys.toNat) % 2 ^ (32 * n) ∧
      ((add xs ys).2.carry = true ↔ 2 ^ (32 * n) ≤ xs.toNat + ys.toNat) ∧
      ((add xs ys).2.overflow = true ↔ ¬ Fits n (xs.toInt + ys.toInt))) ∧
    ((sub xs ys).1.length = n ∧ ((sub xs ys).1.toNat : Int) = ((xs.toNat : Int) - ys.toNat) % 2 ^ (32 * n) ∧
      ((sub xs ys).2.carry = true ↔ ys.toNat ≤ xs.toNat) ∧
      ((sub xs ys).2.overflow = true ↔ ¬ Fits n (xs.toInt - ys.toInt))) ∧
    (∀ a b, Sum.add a b = .addCarry a b false) ∧ ∀ a b, Sum.sub a b = .subCarry a b true := by
  have adds := add_adds same some
  refine ⟨⟨adds.length, adds.value, adds.carry, ?_⟩, ⟨(sub_adds same some).length, sub_value same some,
    sub_carry same some, sub_overflow same some⟩, Sum.add_eq, Sum.sub_eq⟩
  have overflow := adds.overflow
  rwa [Bool.toNat_false, Int.natCast_zero, Int.add_zero] at overflow

/-- One less than the lowest number of two limbs: the borrow goes through both limbs, and the result is out of range. -/
theorem limb_by_limb_lowest :
    let lowest : Limbs := [0, 0x80000000]
    let one : Limbs := [1, 0]
    lowest.length = one.length ∧ lowest ≠ [] ∧ ((sub lowest one).1.toNat : Int) = 0x7FFFFFFFFFFFFFFF ∧
      (sub lowest one).2.carry = true ∧ ¬ Fits 2 (lowest.toInt - one.toInt) := by
  intro lowest one
  have same : lowest.length = one.length := rfl
  have some : lowest ≠ [] := List.cons_ne_nil _ _
  obtain ⟨-, ⟨-, value, carry, overflow⟩, -⟩ := limb_by_limb same some
  exact ⟨same, some, value.trans (by decide), carry.2 (by decide), overflow.1 (by decide)⟩

end Limbs

end Lockstep
