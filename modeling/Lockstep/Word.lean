/-!
Words and their bits. Bit 0 is the least significant one. Everything that a processor holds or puts on
its bus is a `Word`; the bit operations are stated for any width.
-/

namespace Lockstep

abbrev Word := BitVec 32

/-- An address on a processor's bus, counted in bytes. Arithmetic on it wraps around. -/
abbrev Address := Word

namespace Bits

variable {w : Nat}

def bit (x : BitVec w) (i : Nat) : BitVec w := (x >>> i) &&& 1#w

def put (x : BitVec w) (i : Nat) (b : Bool) : BitVec w :=
  (x &&& ~~~(1#w <<< i)) ||| ((BitVec.ofBool b).setWidth w <<< i)

def slice (x : BitVec w) (start len : Nat) : BitVec w := (x >>> start) &&& ((1#w <<< len) - 1#w)

theorem getLsbD_put (x : BitVec w) (i j : Nat) (b : Bool) (h : i < w) :
    (put x i b).getLsbD j = if j = i then b else x.getLsbD j := by
  by_cases hj : j < w
  · by_cases hij : j = i
    · subst hij
      cases b <;> simp [put, hj]
    · by_cases hlt : j < i
      · simp [put, hlt, hj, hij]
      · have hpos : j - i ≠ 0 := by omega
        simp [put, hlt, hj, hij, hpos]
  · have hji : ¬ j = i := by omega
    simp [hji, BitVec.getLsbD_of_ge _ _ (Nat.le_of_not_lt hj)]

end Bits

namespace Word

/-- Round down to a multiple of `size`, which is a power of two. -/
def alignDown (a size : Word) : Word := a &&& ~~~(size - 1)

def shiftBy (a : Word) (distance : Int) : Word := a + BitVec.ofInt 32 distance

def offset (a distance : Word) (up : Bool) : Word := if up then a + distance else a - distance

/-- The number that the low `width` bits spell in two's complement. -/
def signed (x : Word) (width : Nat) : Int := (x.setWidth width).toInt

def extend {w : Nat} (x : BitVec w) : Word := x.signExtend 32

theorem alignDown_twoPow (a : Word) (k : Nat) : alignDown a (BitVec.twoPow 32 k) = (a >>> k) <<< k := by
  have mask : BitVec.twoPow 32 k - 1 = BitVec.ofNat 32 (2 ^ k - 1) := by
    have hp := Nat.two_pow_pos k
    apply BitVec.eq_of_toNat_eq
    simp [BitVec.toNat_sub, BitVec.toNat_twoPow]
    omega
  apply BitVec.eq_of_getLsbD_eq
  intro i hi
  rw [alignDown, mask]
  simp only [BitVec.getLsbD_and, BitVec.getLsbD_not, BitVec.getLsbD_ofNat, Nat.testBit_two_pow_sub_one,
    BitVec.getLsbD_shiftLeft, BitVec.getLsbD_ushiftRight]
  by_cases h : i < k
  · simp [h, hi]
  · rw [show k + (i - k) = i by omega]
    simp [h, hi]

theorem toNat_alignDown (a : Word) (k : Nat) :
    (alignDown a (BitVec.twoPow 32 k)).toNat = (a.toNat >>> k) <<< k := by
  rw [alignDown_twoPow, BitVec.toNat_shiftLeft, BitVec.toNat_ushiftRight]
  refine Nat.mod_eq_of_lt (Nat.lt_of_le_of_lt ?_ a.isLt)
  rw [Nat.shiftRight_eq_div_pow, Nat.shiftLeft_eq]
  exact Nat.div_mul_le_self _ _

theorem dvd_alignDown (a : Word) {size : Word} (h : size = 2 ∨ size = 4) :
    size.toNat ∣ (alignDown a size).toNat := by
  rcases h with rfl | rfl
  · exact toNat_alignDown a 1 ▸ ⟨a.toNat >>> 1, by simp only [Nat.shiftLeft_eq]; exact Nat.mul_comm _ _⟩
  · exact toNat_alignDown a 2 ▸ ⟨a.toNat >>> 2, by simp only [Nat.shiftLeft_eq]; exact Nat.mul_comm _ _⟩

theorem alignDown_eq_self {a size : Word} (h : size = 2 ∨ size = 4) (ha : size.toNat ∣ a.toNat) :
    alignDown a size = a := by
  apply BitVec.eq_of_toNat_eq
  rcases h with rfl | rfl
  · refine (toNat_alignDown a 1).trans ?_
    have even : 2 ∣ a.toNat := ha
    omega
  · refine (toNat_alignDown a 2).trans ?_
    have even : 4 ∣ a.toNat := ha
    omega

theorem dvd_add {a size : Word} (h : size = 2 ∨ size = 4) (ha : size.toNat ∣ a.toNat) :
    size.toNat ∣ (a + size).toNat := by
  rcases h with rfl | rfl <;> simp [BitVec.toNat_add] at ha ⊢ <;> omega

theorem dvd_sub {a size : Word} (h : size = 2 ∨ size = 4) (ha : size.toNat ∣ a.toNat) :
    size.toNat ∣ (a - size).toNat := by
  rcases h with rfl | rfl <;> simp [BitVec.toNat_sub] at ha ⊢ <;> omega

def leadingZeros (x : Word) : Word := x.clz

end Word

end Lockstep
