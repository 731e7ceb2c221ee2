import Lockstep.Firmware
import Mathlib.Tactic.Ring

/-!
Square roots. One loop goes down through the places of base four to the highest that a number reaches, and another
finds a binary digit of the root at each place from there on. It keeps no more than what is left of the number, and the
root so far, moved up to the place. Both loops come to an end; on the way no sum leaves its word, and nothing is taken
from less than itself. The root is the greatest number whose square is not above the number.
-/

namespace Lockstep.Firmware

/-- The passes down to a place that a number reaches, of two bits each. -/
inductive Descends (v : Word) : (place last : Word) → Prop where
  | reached {place : Word} (within : ¬ v < place) : Descends v place place
  | lower {place last : Word} (above : v < place) (later : Descends v (place >>> 2) last) : Descends v place last

/-- The passes that find the digits of a root from a place on, as long as no sum leaves its word. A digit is one if the
sum is there to be taken from the rest. -/
inductive Extracts : (place rest root result : Word) → Prop where
  | done {rest root : Word} : Extracts 0 rest root root
  | one {place rest root result : Word} (going : place ≠ 0) (fits : root.toNat + place.toNat < 2 ^ 32)
      (there : root + place ≤ rest) (moved_fits : (root >>> 1).toNat + place.toNat < 2 ^ 32)
      (later : Extracts (place >>> 2) (rest - (root + place)) ((root >>> 1) + place) result) :
      Extracts place rest root result
  | zero {place rest root result : Word} (going : place ≠ 0) (fits : root.toNat + place.toNat < 2 ^ 32)
      (missing : ¬ root + place ≤ rest) (later : Extracts (place >>> 2) rest (root >>> 1) result) :
      Extracts place rest root result

theorem Descends.unique {v place last last' : Word} (h : Descends v place last) (h' : Descends v place last') :
    last = last' := by
  induction h with
  | reached within =>
    cases h' with
    | reached => rfl
    | lower above => exact absurd above within
  | lower above later ih =>
    cases h' with
    | reached within => exact absurd above within
    | lower _ later' => exact ih later'

theorem Extracts.unique {place rest root result result' : Word} (h : Extracts place rest root result)
    (h' : Extracts place rest root result') : result = result' := by
  induction h with
  | done =>
    cases h' with
    | done => rfl
    | one going => exact absurd rfl going
    | zero going => exact absurd rfl going
  | one going _ there _ later ih =>
    cases h' with
    | done => exact absurd rfl going
    | one _ _ _ _ later' => exact ih later'
    | zero _ _ missing => exact absurd there missing
  | zero going _ missing later ih =>
    cases h' with
    | done => exact absurd rfl going
    | one _ _ there => exact absurd there missing
    | zero _ _ _ later' => exact ih later'

def nextPlace : (k : Nat) → Word
  | 0 => 0
  | k + 1 => 1#32 <<< (2 * k)

theorem toNat_nextPlace {k : Nat} (h : k < 16) : (nextPlace (k + 1)).toNat = 4 ^ k := by
  have small : 2 ^ (2 * k) < 2 ^ 32 := Nat.pow_lt_pow_right (by decide) (by omega)
  rw [nextPlace, BitVec.toNat_shiftLeft, BitVec.toNat_ofNat, Nat.shiftLeft_eq, Nat.one_mod_two_pow (by decide),
    Nat.one_mul, Nat.mod_eq_of_lt small, Nat.pow_mul]

theorem nextPlace_ne_zero {k : Nat} (h : k < 16) : nextPlace (k + 1) ≠ 0 := by
  intro zero
  have value := toNat_nextPlace h
  rw [zero] at value
  exact absurd value.symm (Nat.pow_pos (by decide)).ne'

theorem nextPlace_down {k : Nat} (h : k < 16) : nextPlace (k + 1) >>> 2 = nextPlace k := by
  cases k with
  | zero => rfl
  | succ k =>
    refine BitVec.eq_of_toNat_eq ?_
    rw [BitVec.toNat_ushiftRight, toNat_nextPlace h, toNat_nextPlace (by omega), Nat.shiftRight_eq_div_pow,
      Nat.pow_succ]
    exact Nat.mul_div_cancel _ (by decide)

/-- The number of digits in base four is found by going down through the places. -/
theorem descends_quaternaryLength (v : Word) {k : Nat} (h : k ≤ 16) :
    Descends v (nextPlace k) (nextPlace (quaternaryLength v k)) := by
  induction k with
  | zero => exact .reached (BitVec.not_lt_zero)
  | succ k ih =>
    unfold quaternaryLength
    by_cases within : 1#32 <<< (2 * k) ≤ v
    · rw [if_pos within]
      exact .reached (BitVec.not_lt.mpr within)
    · rw [if_neg within]
      refine .lower (BitVec.not_le.mp within) ?_
      rw [nextPlace_down h]
      exact ih (by omega)

theorem quaternaryLength_spec (v : Word) {k : Nat} (h : k ≤ 16) (below : v.toNat < 4 ^ k) :
    quaternaryLength v k ≤ k ∧ v.toNat < 4 ^ quaternaryLength v k := by
  induction k with
  | zero => exact ⟨Nat.le_refl _, below⟩
  | succ k ih =>
    unfold quaternaryLength
    by_cases within : 1#32 <<< (2 * k) ≤ v
    · rw [if_pos within]
      exact ⟨Nat.le_refl _, below⟩
    · have lower : v.toNat < (nextPlace (k + 1)).toNat := BitVec.not_le.mp within
      rw [toNat_nextPlace h] at lower
      rw [if_neg within]
      exact (ih (by omega) lower).imp_left Nat.le_succ_of_le

theorem rootDigits_succ (k : Nat) (rest root : Word) :
    rootDigits (k + 1) rest root =
      if root + nextPlace (k + 1) ≤ rest then
        rootDigits k (rest - (root + nextPlace (k + 1))) ((root >>> 1) + nextPlace (k + 1))
      else rootDigits k rest (root >>> 1) := rfl

/-- What the second loop keeps while `k` digits of the root of `v` are left to find and the others spell `r`: they are
those of the root so far, and the rest is what is left of `v` without their square. -/
structure Rooted (v k r : Nat) (rest root : Word) : Prop where
  rest_eq : rest.toNat + r * r * 4 ^ k = v
  root_eq : root.toNat = r * 4 ^ k
  rest_lt : rest.toNat < (2 * r + 1) * 4 ^ k
  short : (r + 1) * 2 ^ k ≤ 2 ^ 16

namespace Rooted

variable {v k r : Nat} {rest root : Word}

theorem initial {v : Word} {k : Nat} (few : k ≤ 16) (below : v.toNat < 4 ^ k) : Rooted v.toNat k 0 v 0 where
  rest_eq := by simp
  root_eq := by simp
  rest_lt := by simpa using below
  short := by simpa using Nat.pow_le_pow_right (by decide : 0 < 2) few

/-- The digits that are left are so few that the root does not leave its word before they are found. -/
theorem bounds (h : Rooted v (k + 1) r rest root) : k < 16 ∧ (r + 1) * 4 ^ (k + 1) ≤ 2 ^ 32 := by
  have power : 2 ^ (k + 1) ≤ 2 ^ 16 := Nat.le_trans (Nat.le_mul_of_pos_left _ r.succ_pos) h.short
  have few : k + 1 ≤ 16 := (Nat.pow_le_pow_iff_right (by decide)).mp power
  refine ⟨few, ?_⟩
  calc (r + 1) * 4 ^ (k + 1) = (r + 1) * 2 ^ (k + 1) * 2 ^ (k + 1) := by rw [Nat.mul_assoc, ← Nat.mul_pow]
    _ ≤ 2 ^ 16 * 2 ^ 16 := Nat.mul_le_mul h.short power

/-- What one more digit takes from the rest. -/
theorem sum_eq (h : Rooted v (k + 1) r rest root) :
    root.toNat + (nextPlace (k + 1)).toNat = (4 * r + 1) * 4 ^ k := by
  rw [h.root_eq, toNat_nextPlace h.bounds.1]
  ring

theorem sum_fits (h : Rooted v (k + 1) r rest root) : root.toNat + (nextPlace (k + 1)).toNat < 2 ^ 32 :=
  calc root.toNat + (nextPlace (k + 1)).toNat = (4 * r + 1) * 4 ^ k := h.sum_eq
    _ < (4 * r + 4) * 4 ^ k := Nat.mul_lt_mul_of_pos_right (by omega) (Nat.pow_pos (by decide))
    _ = (r + 1) * 4 ^ (k + 1) := by ring
    _ ≤ 2 ^ 32 := h.bounds.2

theorem toNat_sum (h : Rooted v (k + 1) r rest root) :
    (root + nextPlace (k + 1)).toNat = (4 * r + 1) * 4 ^ k := by
  rw [BitVec.toNat_add, Nat.mod_eq_of_lt h.sum_fits, h.sum_eq]

/-- The root moves down by one place for the next digit. -/
theorem toNat_moved (h : Rooted v (k + 1) r rest root) : (root >>> 1).toNat = 2 * r * 4 ^ k := by
  have double : r * 4 ^ (k + 1) = 2 * r * 4 ^ k * 2 := by ring
  rw [BitVec.toNat_ushiftRight, h.root_eq, Nat.shiftRight_eq_div_pow, double]
  exact Nat.mul_div_cancel _ (by decide)

theorem moved_fits (h : Rooted v (k + 1) r rest root) : (root >>> 1).toNat + (nextPlace (k + 1)).toNat < 2 ^ 32 := by
  have fits := h.sum_fits
  have down : (root >>> 1).toNat ≤ root.toNat := by
    rw [BitVec.toNat_ushiftRight]
    exact Nat.shiftRight_le _ _
  omega

theorem toNat_extended (h : Rooted v (k + 1) r rest root) :
    ((root >>> 1) + nextPlace (k + 1)).toNat = (2 * r + 1) * 4 ^ k := by
  rw [BitVec.toNat_add, Nat.mod_eq_of_lt h.moved_fits, h.toNat_moved, toNat_nextPlace h.bounds.1]
  ring

/-- The next digit is one if what it takes is there. -/
theorem one (h : Rooted v (k + 1) r rest root) (there : root + nextPlace (k + 1) ≤ rest) :
    Rooted v k (2 * r + 1) (rest - (root + nextPlace (k + 1))) ((root >>> 1) + nextPlace (k + 1)) := by
  have taken : (4 * r + 1) * 4 ^ k ≤ rest.toNat := h.toNat_sum ▸ BitVec.le_def.mp there
  have left : (rest - (root + nextPlace (k + 1))).toNat = rest.toNat - (4 * r + 1) * 4 ^ k := by
    rw [BitVec.toNat_sub_of_le there, h.toNat_sum]
  refine ⟨?_, h.toNat_extended, ?_, ?_⟩
  · have square : (2 * r + 1) * (2 * r + 1) * 4 ^ k = (4 * r + 1) * 4 ^ k + r * r * 4 ^ (k + 1) := by ring
    rw [left, square, ← h.rest_eq]
    omega
  · have next : (2 * r + 1) * 4 ^ (k + 1) = (4 * r + 1) * 4 ^ k + (2 * (2 * r + 1) + 1) * 4 ^ k := by ring
    have below := h.rest_lt
    omega
  · calc (2 * r + 1 + 1) * 2 ^ k = (r + 1) * 2 ^ (k + 1) := by ring
      _ ≤ 2 ^ 16 := h.short

/-- It is zero otherwise. -/
theorem zero (h : Rooted v (k + 1) r rest root) (missing : ¬ root + nextPlace (k + 1) ≤ rest) :
    Rooted v k (2 * r) rest (root >>> 1) := by
  have short : rest.toNat < (4 * r + 1) * 4 ^ k := h.toNat_sum ▸ BitVec.not_le.mp missing
  refine ⟨?_, h.toNat_moved, ?_, ?_⟩
  · have square : 2 * r * (2 * r) * 4 ^ k = r * r * 4 ^ (k + 1) := by ring
    rw [square, h.rest_eq]
  · calc rest.toNat < (4 * r + 1) * 4 ^ k := short
      _ = (2 * (2 * r) + 1) * 4 ^ k := by ring
  · calc (2 * r + 1) * 2 ^ k ≤ (2 * r + 2) * 2 ^ k := Nat.mul_le_mul_right _ (by omega)
      _ = (r + 1) * 2 ^ (k + 1) := by ring
      _ ≤ 2 ^ 16 := h.short

/-- All digits are found. -/
theorem final (h : Rooted v 0 r rest root) :
    root.toNat * root.toNat ≤ v ∧ v < (root.toNat + 1) * (root.toNat + 1) := by
  have root_eq : root.toNat = r := by simpa using h.root_eq
  have rest_eq : rest.toNat + r * r = v := by simpa using h.rest_eq
  have rest_lt : rest.toNat < 2 * r + 1 := by simpa using h.rest_lt
  have next : (r + 1) * (r + 1) = r * r + (2 * r + 1) := by ring
  rw [root_eq, next]
  omega

/-- The loop finds all the digits that are left. -/
theorem extracts (h : Rooted v k r rest root) :
    Extracts (nextPlace k) rest root (rootDigits k rest root) ∧
      let found := (rootDigits k rest root).toNat
      found * found ≤ v ∧ v < (found + 1) * (found + 1) := by
  induction k generalizing r rest root with
  | zero => exact ⟨.done, h.final⟩
  | succ k ih =>
    have few := h.bounds.1
    have going := nextPlace_ne_zero few
    rw [rootDigits_succ]
    by_cases there : root + nextPlace (k + 1) ≤ rest
    · obtain ⟨later, bounds⟩ := ih (h.one there)
      rw [← nextPlace_down few] at later
      rw [if_pos there]
      exact ⟨.one going h.sum_fits there h.moved_fits later, bounds⟩
    · obtain ⟨later, bounds⟩ := ih (h.zero there)
      rw [← nextPlace_down few] at later
      rw [if_neg there]
      exact ⟨.zero going h.sum_fits there later, bounds⟩

end Rooted

/-- The two loops come to an end for every number, with its root and nothing else, and no sum or difference on the way
leaves its word. The square of the root is not above the number, and that of the next one is. -/
theorem squareRoot_bounds (v : Word) :
    (∀ r, (∃ place, Descends v (1 <<< 30) place ∧ Extracts place v 0 r) ↔ r = squareRoot v) ∧
      (squareRoot v).toNat * (squareRoot v).toNat ≤ v.toNat ∧
      v.toNat < ((squareRoot v).toNat + 1) * ((squareRoot v).toNat + 1) := by
  obtain ⟨few, below⟩ := quaternaryLength_spec v (Nat.le_refl 16) v.isLt
  have descends : Descends v (1 <<< 30) (nextPlace (quaternaryLength v 16)) :=
    descends_quaternaryLength v (Nat.le_refl 16)
  obtain ⟨extracts, bounds⟩ := (Rooted.initial few below).extracts
  refine ⟨fun r => ⟨?_, ?_⟩, bounds⟩
  · rintro ⟨place, down, out⟩
    rw [down.unique descends] at out
    exact out.unique extracts
  · rintro rfl
    exact ⟨_, descends, extracts⟩

end Lockstep.Firmware
