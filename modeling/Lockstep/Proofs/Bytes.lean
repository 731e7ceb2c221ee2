import Lockstep.ByteBuffer
import Mathlib.Data.Nat.Digits.Lemmas

/-!
Byte buffers, byte by byte. A number that is read is put together from the bytes of its place, lowest first; a
number that is stored changes these bytes and no others. In a buffer that repeats, a number at a multiple of
its width never runs past the end.
-/

namespace Lockstep

namespace Width

theorem bytes_pos (w : Width) : 0 < w.bytes := by cases w <;> decide

theorem bytes_le (w : Width) : w.bytes ≤ 4 := by cases w <;> decide

theorem bytes_dvd_two_pow (w : Width) {k : Nat} (room : w.bytes ≤ 2 ^ k) : w.bytes ∣ 2 ^ k := by
  obtain ⟨j, power⟩ : ∃ j, w.bytes = 2 ^ j := by
    cases w with
    | byte => exact ⟨0, rfl⟩
    | half => exact ⟨1, rfl⟩
    | word => exact ⟨2, rfl⟩
  rw [power] at room ⊢
  exact Nat.pow_dvd_pow 2 ((Nat.pow_le_pow_iff_right (by decide)).mp room)

/-- The bytes of a word that an access of this width transfers, lowest first. -/
def split (w : Width) (v : Word) : List (BitVec 8) :=
  (List.range w.bytes).map fun i => v.extractLsb' (8 * i) 8

def unit (w : Width) (a : Address) : List Address :=
  (List.range w.bytes).map fun i => w.align a + BitVec.ofNat 32 i

theorem toNat_align (w : Width) (a : Address) : (w.align a).toNat = a.toNat - a.toNat % w.bytes := by
  have rounded (k : Nat) : (Word.alignDown a (BitVec.twoPow 32 k)).toNat = a.toNat - a.toNat % 2 ^ k := by
    have parts := Nat.mod_add_div a.toNat (2 ^ k)
    rw [Word.toNat_alignDown, Nat.shiftRight_eq_div_pow, Nat.shiftLeft_eq, Nat.mul_comm]
    omega
  cases w with
  | byte => exact rounded 0
  | half => exact rounded 1
  | word => exact rounded 2

/-- An address lies in its unit. -/
theorem align_add (w : Width) (a : Address) : w.align a + BitVec.ofNat 32 (a.toNat % w.bytes) = a := by
  have := a.isLt
  have := Nat.mod_le a.toNat w.bytes
  apply BitVec.eq_of_toNat_eq
  rw [BitVec.toNat_add, BitVec.toNat_ofNat, toNat_align]
  omega

theorem bytes_dvd_align (w : Width) (a : Address) : w.bytes ∣ (w.align a).toNat := by
  rw [toNat_align]
  exact Nat.dvd_sub_mod a.toNat

/-- A unit lies in one word. -/
theorem align_mod_add_lt (w : Width) (a : Address) {i : Nat} (h : i < w.bytes) :
    (w.align a).toNat % 4 + i < 4 := by
  have unit := w.bytes_dvd_align a
  cases w <;> simp only [bytes] at h unit <;> omega

/-- A unit does not wrap around the end of the addresses. -/
theorem toNat_align_add (w : Width) (a : Address) {i : Nat} (h : i < w.bytes) :
    (w.align a + BitVec.ofNat 32 i).toNat = (w.align a).toNat + i := by
  have bound := (w.align a).isLt
  obtain ⟨n, unit⟩ := w.bytes_dvd_align a
  rw [BitVec.toNat_add, BitVec.toNat_ofNat, Nat.add_mod_mod, Nat.mod_eq_of_lt]
  cases w <;> simp only [bytes] at * <;> omega

end Width

namespace ByteBuffer

@[simp] theorem size_zeros (n : Nat) : (zeros n).size = n := Array.size_replicate

@[simp] theorem size_set (buf : ByteArray) (p : Nat) (x : UInt8) : (buf.set! p x).size = buf.size :=
  Array.size_setIfInBounds

theorem byteAt_set {buf : ByteArray} {p : Nat} (h : p < buf.size) (x : UInt8) (q : Nat) :
    byteAt (buf.set! p x) q = if q = p then x.toBitVec else byteAt buf q := by
  by_cases hq : q < buf.size
  · have inside : q < (buf.set! p x).size := by simpa using hq
    have set : (buf.set! p x)[q] = if p = q then x else buf[q] := Array.getElem_setIfInBounds hq
    unfold byteAt
    rw [dif_pos inside, dif_pos hq, set]
    by_cases hp : p = q
    · simp [hp]
    · rw [if_neg hp, if_neg (Ne.symm hp)]
  · have apart : q ≠ p := by omega
    unfold byteAt
    rw [dif_neg (by simpa using hq), dif_neg hq, if_neg apart]

theorem toNat_gather (buf : ByteArray) (p : Nat) {n : Nat} (hn : n ≤ 4) :
    (gather buf p n).toNat = Nat.ofDigits 256 ((List.range n).map fun i => (byteAt buf (p + i)).toNat) := by
  induction n generalizing p with
  | zero => rfl
  | succ n ih =>
    have rest := ih (p + 1) (by omega)
    -- What is shifted up does not lose its top.
    have small : (gather buf (p + 1) n).toNat < 256 ^ 3 := by
      rw [rest]
      refine Nat.lt_of_lt_of_le (Nat.ofDigits_lt_base_pow_length (by decide) ?_) ?_
      · simp only [List.mem_map, forall_exists_index, and_imp, forall_apply_eq_imp_iff₂]
        exact fun i _ => (byteAt buf (p + 1 + i)).isLt
      · rw [List.length_map, List.length_range]
        exact Nat.pow_le_pow_right (by decide) (by omega)
    have low : (byteAt buf p).toNat < 2 ^ 8 := (byteAt buf p).isLt
    have joined : (gather buf p (n + 1)).toNat = (byteAt buf p).toNat + 256 * (gather buf (p + 1) n).toNat := by
      show ((gather buf (p + 1) n <<< 8) ||| (byteAt buf p).setWidth 32).toNat = _
      rw [BitVec.toNat_or, BitVec.toNat_shiftLeft, BitVec.toNat_setWidth, Nat.shiftLeft_eq,
        Nat.mod_eq_of_lt (by omega : _ * 2 ^ 8 < 2 ^ 32), Nat.mod_eq_of_lt (by omega : _ < 2 ^ 32),
        ← Nat.shiftLeft_eq, ← Nat.shiftLeft_add_eq_or_of_lt low, Nat.shiftLeft_eq]
      omega
    rw [joined, rest, List.range_succ_eq_map, List.map_cons, Nat.ofDigits_cons, List.map_map]
    have next : ∀ i, p + 1 + i = p + (i + 1) := by omega
    simp only [next, Function.comp_def, Nat.succ_eq_add_one, Nat.add_zero]

/-- Each byte of a number that is read is the byte at its place. -/
theorem extract_gather (buf : ByteArray) (p : Nat) {n i : Nat} (hi : i < n) (hn : n ≤ 4) :
    (gather buf p n).extractLsb' (8 * i) 8 = byteAt buf (p + i) := by
  induction n generalizing p i with
  | zero => exact absurd hi (Nat.not_lt_zero i)
  | succ n ih =>
    refine BitVec.eq_of_getLsbD_eq fun j hj => ?_
    simp only [gather, BitVec.getLsbD_extractLsb', BitVec.getLsbD_or, BitVec.getLsbD_shiftLeft,
      BitVec.getLsbD_setWidth, hj, decide_true, Bool.true_and]
    cases i with
    | zero =>
      have inside : j < 32 := by omega
      simp [hj, inside]
    | succ i =>
      have rest := congrArg (·.getLsbD j) (ih (p + 1) (Nat.lt_of_succ_lt_succ hi) (by omega))
      simp only [BitVec.getLsbD_extractLsb', hj, decide_true, Bool.true_and] at rest
      have inside : 8 * (i + 1) + j < 32 := by omega
      have above : ¬ 8 * (i + 1) + j < 8 := by omega
      have below : 8 * (i + 1) + j - 8 = 8 * i + j := by omega
      have beyond : (byteAt buf p).getLsbD (8 * (i + 1) + j) = false := BitVec.getLsbD_of_ge _ _ (by omega)
      rw [below, rest, beyond, show p + 1 + i = p + (i + 1) by omega]
      simp [inside, above]

@[simp] theorem size_scatter (buf : ByteArray) (p : Nat) (v : Word) (n : Nat) :
    (scatter buf p v n).size = buf.size := by
  induction n generalizing buf p v with
  | zero => rfl
  | succ n ih => exact (ih _ _ _).trans (size_set _ _ _)

theorem byteAt_scatter {buf : ByteArray} {p n : Nat} (h : p + n ≤ buf.size) (v : Word) (q : Nat) :
    byteAt (scatter buf p v n) q =
      if p ≤ q ∧ q < p + n then v.extractLsb' (8 * (q - p)) 8 else byteAt buf q := by
  induction n generalizing buf p v with
  | zero =>
    have none : ¬ (p ≤ q ∧ q < p + 0) := by omega
    rw [if_neg none]
    rfl
  | succ n ih =>
    unfold scatter
    rw [ih (by rw [size_set]; omega), byteAt_set (by omega)]
    by_cases first : q = p
    · subst first
      have past : ¬ (q + 1 ≤ q ∧ q < q + 1 + n) := by omega
      have here : q ≤ q ∧ q < q + (n + 1) := by omega
      rw [if_neg past, if_pos rfl, if_pos here, Nat.sub_self]
      exact BitVec.eq_of_getLsbD_eq fun i hi => by simp [hi]
    · rw [if_neg first]
      by_cases later : p + 1 ≤ q ∧ q < p + 1 + n
      · have among : p ≤ q ∧ q < p + (n + 1) := by omega
        rw [if_pos later, if_pos among, show q - p = q - (p + 1) + 1 by omega]
        refine BitVec.eq_of_getLsbD_eq fun i hi => ?_
        simp only [BitVec.getLsbD_extractLsb', BitVec.getLsbD_ushiftRight, hi, decide_true, Bool.true_and]
        congr 1
        omega
      · have outside : ¬ (p ≤ q ∧ q < p + (n + 1)) := by omega
        rw [if_neg later, if_neg outside]

section
variable {buf : ByteArray} {k : Nat} (size : buf.size = 2 ^ k)
include size

theorem placeOf_eq_mod (p : Nat) : placeOf buf p = p % buf.size := by
  unfold placeOf
  rw [size, Nat.and_two_pow_sub_one_eq_mod]

/-- If the buffer has room for a number at all, one at a multiple of its width does not run past the end. -/
theorem mod_add_le_of_dvd {w : Width} {p : Nat} (room : w.bytes ≤ 2 ^ k) (hp : w.bytes ∣ p) :
    p % buf.size + w.bytes ≤ buf.size := by
  obtain ⟨n, whole⟩ : w.bytes ∣ buf.size := size ▸ w.bytes_dvd_two_pow room
  have inside : p % buf.size < buf.size := Nat.mod_lt _ (size ▸ Nat.two_pow_pos k)
  obtain ⟨i, place⟩ : w.bytes ∣ p % buf.size := (Nat.dvd_mod_iff ⟨n, whole⟩).mpr hp
  rw [place] at inside ⊢
  rw [whole] at inside ⊢
  calc w.bytes * i + w.bytes = w.bytes * (i + 1) := rfl
    _ ≤ w.bytes * n := Nat.mul_le_mul_left _ (Nat.lt_of_mul_lt_mul_left inside)

end

/-- A buffer of a size that can be repeated without a seam inside any number. -/
def Repeats (buf : ByteArray) : Prop := ∃ k, 2 ≤ k ∧ buf.size = 2 ^ k

namespace Repeats

variable {buf : ByteArray} (h : Repeats buf)
include h

theorem placeOf (p : Nat) : ByteBuffer.placeOf buf p = p % buf.size := by
  obtain ⟨k, -, size⟩ := h
  exact placeOf_eq_mod size p

/-- A number at a multiple of its width ends where the buffer ends, or before. -/
theorem place_le {w : Width} {p : Nat} (hp : w.bytes ∣ p) : p % buf.size + w.bytes ≤ buf.size := by
  obtain ⟨k, two, size⟩ := h
  have word : 2 ^ 2 ≤ 2 ^ k := Nat.pow_le_pow_right (by decide) two
  exact mod_add_le_of_dvd size (w.bytes_le.trans word) hp

theorem toNat_readRepeated {w : Width} {p : Nat} (hp : w.bytes ∣ p) :
    (readRepeated buf p w).toNat =
      Nat.ofDigits 256 ((List.range w.bytes).map fun i => (byteAt buf (p % buf.size + i)).toNat) := by
  unfold readRepeated read?
  rw [h.placeOf, if_pos (h.place_le hp)]
  exact toNat_gather buf _ w.bytes_le

theorem extract_readRepeated {w : Width} {p : Nat} (hp : w.bytes ∣ p) {i : Nat} (hi : i < w.bytes) :
    (readRepeated buf p w).extractLsb' (8 * i) 8 = byteAt buf (p % buf.size + i) := by
  unfold readRepeated read?
  rw [h.placeOf, if_pos (h.place_le hp)]
  exact extract_gather buf _ hi w.bytes_le

/-- The bytes of a unit have their places one after the other. -/
theorem place_add {w : Width} {p : Nat} (hp : w.bytes ∣ p) {i : Nat} (hi : i < w.bytes) :
    (p + i) % buf.size = p % buf.size + i := by
  have inside := h.place_le hp
  rw [Nat.add_mod, Nat.mod_eq_of_lt (by omega : i < buf.size), Nat.mod_eq_of_lt (by omega)]

theorem byteAt_writeRepeated {w : Width} {p : Nat} (hp : w.bytes ∣ p) (v : Word) (q : Nat) :
    byteAt (writeRepeated buf p w v) q =
      if p % buf.size ≤ q ∧ q < p % buf.size + w.bytes then v.extractLsb' (8 * (q - p % buf.size)) 8
      else byteAt buf q := by
  unfold writeRepeated write
  rw [h.placeOf, if_pos (h.place_le hp)]
  exact byteAt_scatter (h.place_le hp) v q

end Repeats

theorem size_writeRepeated (buf : ByteArray) (p : Nat) (w : Width) (v : Word) :
    (writeRepeated buf p w v).size = buf.size := by
  unfold writeRepeated write
  split_ifs
  · exact size_scatter _ _ _ _
  · rfl

end ByteBuffer

end Lockstep
