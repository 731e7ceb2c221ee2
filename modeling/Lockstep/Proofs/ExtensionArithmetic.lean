import Lockstep.Proofs.Limbs
import Lockstep.Proofs.Multiplications

/-!
The arithmetic of the extension. Saturating sums stay at the nearest number that a word holds; products of halves are
exact, and a sum with one may leave the word. Where a number is not the exact one the saturation flag tells of it, until
it is cleared by other means; no other flag changes.
-/

namespace Lockstep

variable {σ : Type}

/-- Whether no word is nearer to a number. -/
def Word.Nearest (x : Int) (v : Word) : Prop := ∀ u : Word, (x - v.toInt).natAbs ≤ (x - u.toInt).natAbs

def Word.half (v : Word) (top : Bool) : Int :=
  let n : Nat := (if top then v.toNat / 2 ^ 16 else v.toNat) % 2 ^ 16
  if n < 2 ^ 15 then n else n - 2 ^ 16

namespace Arm

/-- A number is only clamped if it leaves the word. -/
theorem clamp_eq_self {x : Int} : clamp x = x ↔ Limbs.Fits 1 x := by
  unfold clamp Limbs.Fits
  omega

theorem clamp_fits (x : Int) : Limbs.Fits 1 (clamp x) := by
  unfold clamp Limbs.Fits
  omega

theorem toInt_fits (v : Word) : Limbs.Fits 1 v.toInt := ⟨v.le_toInt, v.toInt_lt⟩

theorem toInt_ofInt {x : Int} (fits : Limbs.Fits 1 x) : (BitVec.ofInt 32 x).toInt = x := by
  obtain ⟨least, most⟩ := fits
  rw [BitVec.toInt_ofInt]
  exact Int.bmod_eq_of_le (by omega) (by omega)

theorem clamp_nearest (x : Int) (v : Word) : v.toInt = clamp x ↔ v.Nearest x := by
  constructor
  · intro clamped u
    have ⟨least, most⟩ := toInt_fits u
    rw [clamped, clamp]
    omega
  · intro nearest
    have ⟨least, most⟩ := toInt_fits v
    have bound := nearest (BitVec.ofInt 32 (clamp x))
    rw [toInt_ofInt (clamp_fits x)] at bound
    unfold clamp at *
    omega

theorem signedHalf_toInt (v : Word) (top : Bool) : (signedHalf v top).toInt = v.half top := by
  have cut : (signedHalf v top).toNat = (if top then v.toNat / 2 ^ 16 else v.toNat) % 2 ^ 16 := by
    rw [signedHalf, BitVec.extractLsb'_toNat, Nat.shiftRight_eq_div_pow]
    cases top
    · rw [if_neg Bool.false_ne_true, if_neg Bool.false_ne_true, Nat.pow_zero, Nat.div_one]
    · rfl
  simp only [Word.half, BitVec.toInt_eq_toNat_cond, cut]
  generalize (if top then v.toNat / 2 ^ 16 else v.toNat) % 2 ^ 16 = n
  split_ifs <;> omega

/-- A product of numbers has at most as many bits as they have together. -/
theorem product_bounds {a b : Int} {p q : Nat} (ha : a.natAbs ≤ 2 ^ p) (hb : b.natAbs ≤ 2 ^ q) :
    (a * b).natAbs ≤ 2 ^ (p + q) := by
  rw [Int.natAbs_mul, Nat.pow_add]
  exact Nat.mul_le_mul ha hb

theorem natAbs_toInt {w : Nat} (x : BitVec (w + 1)) : x.toInt.natAbs ≤ 2 ^ w := by
  have least := x.le_toInt
  have most := x.toInt_lt
  have power : ((2 ^ w : Nat) : Int) = 2 ^ w := by norm_cast
  rw [Nat.add_sub_cancel] at least most
  omega

theorem halves_toInt (a b : BitVec 16) : (Word.extend a * Word.extend b).toInt = a.toInt * b.toInt := by
  have bounds := product_bounds (natAbs_toInt a) (natAbs_toInt b)
  rw [Word.extend, Word.extend, BitVec.toInt_mul, BitVec.toInt_signExtend_of_le (by decide),
    BitVec.toInt_signExtend_of_le (by decide)]
  exact Int.bmod_eq_of_le (by omega) (by omega)

theorem scaled_toInt (a : Word) (b : BitVec 16) :
    ((a.signExtend 64 * b.signExtend 64).extractLsb' 16 32).toInt = a.toInt * b.toInt / 2 ^ 16 := by
  have bounds := product_bounds (natAbs_toInt a) (natAbs_toInt b)
  have product : (a.signExtend 64 * b.signExtend 64).toInt = a.toInt * b.toInt := by
    rw [BitVec.toInt_mul, BitVec.toInt_signExtend_of_le (by decide), BitVec.toInt_signExtend_of_le (by decide)]
    exact Int.bmod_eq_of_le (by omega) (by omega)
  -- The product has 47 bits, so that the quotient is a word and the bits above it are copies of its sign.
  rw [← product] at bounds ⊢
  generalize a.signExtend 64 * b.signExtend 64 = p at bounds
  have within := p.isLt
  rw [BitVec.toInt_eq_toNat_cond, BitVec.extractLsb'_toNat, Nat.shiftRight_eq_div_pow]
  rw [BitVec.toInt_eq_toNat_cond] at bounds ⊢
  split_ifs at * <;> omega

theorem toNat_extract_two (w : Word) (i : Nat) :
    (w.extractLsb' i 2).toNat = 2 * (w.getLsbD (i + 1)).toNat + (w.getLsbD i).toNat := by
  have bits : w.extractLsb' i 2 = BitVec.ofBool (w.getLsbD (i + 1)) ++ BitVec.ofBool (w.getLsbD i) := by
    rw [extract_eq_iff]
    intro j within
    interval_cases j <;> cases w.getLsbD (i + 1) <;> cases w.getLsbD i <;> rfl
  rw [bits]
  cases w.getLsbD (i + 1) <;> cases w.getLsbD i <;> rfl

/-- A computation in registers, of which those listed are written, and after which the saturation flag is also set if
something was lost. -/
structure Computed (rs : List Register) (lost : Prop) (cycles : Nat) (m m' : Machine σ) : Prop where
  saturation : m'.flag .saturation = true ↔ m.flag .saturation = true ∨ lost
  flags : ∀ i, i ≠ Flag.saturation.position → m'.cpu.regs.cpsr.getLsbD i = m.cpu.regs.cpsr.getLsbD i
  others : ∀ s, (∀ r ∈ rs, m.cpu.regs.mode.slot? r ≠ some s) → m'.cpu.regs.cell s = m.cpu.regs.cell s
  rest : m'.cpu.regs = { m.cpu.regs with cells := m'.cpu.regs.cells, cpsr := m'.cpu.regs.cpsr }
  cpu : m'.cpu = { m.cpu with regs := m'.cpu.regs, timestamp := m.cpu.timestamp + cycles }
  system : m'.system = m.system

def marking (lost : Bool) (f : Registers) : Registers := if lost then f.setFlag .saturation true else f

variable (lost : Bool) (f : Registers) (m : Machine σ)

theorem marking_mode : (marking lost f).mode = f.mode := by
  cases lost <;> rfl

theorem flag_marking : (marking lost f).flag .saturation = true ↔ f.flag .saturation = true ∨ lost = true := by
  cases lost with
  | true => simp [marking, f.flag_setFlag]
  | false => simp [marking]

theorem getLsbD_marking {i : Nat} (other : i ≠ Flag.saturation.position) :
    (marking lost f).cpsr.getLsbD i = f.cpsr.getLsbD i := by
  cases lost with
  | true => exact (f.getLsbD_setFlag .saturation true i).trans (if_neg other)
  | false => rfl

theorem marking_rest : marking lost f = { f with cpsr := (marking lost f).cpsr } := by
  cases lost <;> rfl

theorem mapRegs_marking : (if lost then m.setFlag .saturation true else m) = m.mapRegs (marking lost) := by
  cases lost <;> rfl

theorem Computed.of_filled {rs : List Register} {value : Register → Word} {g : Registers}
    (filled : Registers.Filled m.cpu.regs.mode rs value (marking lost m.cpu.regs) g) (cycles : Nat) :
    Computed rs (lost = true) cycles m ((m.mapRegs fun _ => g).idle cycles) where
  saturation := by
    have kept : g.flag .saturation = (marking lost m.cpu.regs).flag .saturation :=
      congrArg (·.getLsbD Flag.saturation.position) filled.cpsr
    exact (iff_of_eq (congrArg (· = true) kept)).trans (flag_marking lost m.cpu.regs)
  flags i other := (congrArg (·.getLsbD i) filled.cpsr).trans (getLsbD_marking lost m.cpu.regs other)
  others s apart := by
    have kept : (marking lost m.cpu.regs).cell s = m.cpu.regs.cell s := by
      rw [marking_rest]
      rfl
    exact (filled.others s apart).trans kept
  rest := by
    show g = { m.cpu.regs with cells := g.cells, cpsr := g.cpsr }
    have saved := filled.saved
    have pc := filled.pc
    have mode := filled.mode
    rw [marking_rest] at saved pc mode
    cases g
    cases saved
    cases pc
    cases mode
    rfl
  cpu := rfl
  system := rfl

theorem reg_of_filled {rs : List Register} {value : Register → Word} {g : Registers}
    (filled : Registers.Filled m.cpu.regs.mode rs value (marking lost m.cpu.regs) g) {r : Register} (mem : r ∈ rs)
    (plain : r ≠ Register.pc) (cycles : Nat) : ((m.mapRegs fun _ => g).idle cycles).reg r = value r := by
  rw [← filled.loaded r mem plain, ← marking_mode lost m.cpu.regs, ← filled.mode]
  rfl

/-- One register is written. -/
theorem computed_setReg (bus : Bus σ) {d : Register} (plain : d ≠ Register.pc) (v : Word) :
    let m' := bus.setReg d v (if lost then m.setFlag .saturation true else m)
    Computed [d] (lost = true) 0 m m' ∧ m'.reg d = v := by
  have run : bus.setReg d v (if lost then m.setFlag .saturation true else m) =
      (m.mapRegs fun _ => (marking lost m.cpu.regs).put m.cpu.regs.mode d v).idle 0 := by
    rw [mapRegs_marking]
    exact bus.setReg_put (m := m.mapRegs (marking lost)) (marking_mode lost m.cpu.regs) plain v
  have filled : Registers.Filled m.cpu.regs.mode [d] (fun _ => v) (marking lost m.cpu.regs)
      ((marking lost m.cpu.regs).put m.cpu.regs.mode d v) := .cons List.not_mem_nil (.refl ..)
  simp only [run]
  exact ⟨.of_filled lost m filled 0, reg_of_filled lost m filled List.mem_cons_self plain 0⟩

/-- Two registers are written, and nothing is lost. -/
theorem computed_setReg₂ (bus : Bus σ) {d n : Register} (high : d ≠ Register.pc) (low : n ≠ Register.pc) (apart : d ≠ n)
    (x y : Word) :
    let m' := (bus.setReg d x (bus.setReg n y m)).idle 1
    Computed [n, d] False 1 m m' ∧ m'.reg d = x ∧ m'.reg n = y := by
  let k := m.cpu.regs.mode
  let value (r : Register) : Word := if r = d then x else y
  have value_n : value n = y := if_neg apart.symm
  have value_d : value d = x := if_pos rfl
  have kept : (m.cpu.regs.put k n y).mode = k := (m.cpu.regs.put_same ..).2.2.2
  have filled : Registers.Filled k [n, d] value (marking false m.cpu.regs)
      ((m.cpu.regs.put k n (value n)).put k d (value d)) :=
    .cons (by simpa using apart.symm) (.cons List.not_mem_nil (.refl ..))
  rw [value_n, value_d] at filled
  rw [bus.setReg_put rfl low, bus.setReg_put kept high]
  have computed := Computed.of_filled false m filled 1
  simp only [Bool.false_eq_true] at computed
  exact ⟨computed, (reg_of_filled false m filled (by simp) high 1).trans value_d,
    (reg_of_filled false m filled (by simp) low 1).trans value_n⟩

structure Saturation where
  subtract : Bool
  double : Bool
  d : Register
  n : Register
  r : Register

namespace Saturation

def ofWord (w : Word) : Saturation where
  subtract := w.getLsbD 21
  double := w.getLsbD 22
  d := register w 12
  n := register w 16
  r := register w 0

def op (p : Saturation) : SaturatingOp :=
  if p.double then if p.subtract then .doubleSub else .doubleAdd else if p.subtract then .sub else .add

variable (p : Saturation)

def second (m : Machine σ) : Int := if p.double then 2 * (m.reg p.n).toInt else (m.reg p.n).toInt

def exact (m : Machine σ) : Int :=
  if p.subtract then (m.reg p.r).toInt - clamp (p.second m) else (m.reg p.r).toInt + clamp (p.second m)

structure Saturated (m m' : Machine σ) : Prop where
  result : (m'.reg p.d).toInt = clamp (p.exact m)
  computed : Computed [p.d] (clamp (p.second m) ≠ p.second m ∨ clamp (p.exact m) ≠ p.exact m) 0 m m'

variable {p : Saturation}

theorem saturatingOp_eq (w : Word) : saturatingOp w = (ofWord w).op := by
  rw [saturatingOp, toNat_extract_two, op, ofWord]
  cases w.getLsbD 22 <;> cases w.getLsbD 21 <;> rfl

theorem saturating_saturated (bus : Bus σ) (m : Machine σ) (plain : p.d ≠ Register.pc) :
    p.Saturated m (saturating bus p.op p.d p.n p.r m) := by
  have run : saturating bus p.op p.d p.n p.r m =
      bus.setReg p.d (BitVec.ofInt 32 (clamp (p.exact m)))
        (if clamp (p.second m) != p.second m || clamp (p.exact m) != p.exact m then m.setFlag .saturation true
          else m) := by
    unfold saturating exact second op
    cases p.double <;> cases p.subtract <;> rfl
  obtain ⟨computed, result⟩ := computed_setReg _ m bus plain _
  rw [run]
  refine ⟨?_, ?_⟩
  · rw [result, toInt_ofInt (clamp_fits _)]
  · simpa only [Bool.or_eq_true, bne_iff_ne] using computed

end Saturation

/-- A multiplication of halves, as its word has it. A wide one multiplies a half by a whole word, and drops the lower
half of the product. A long one accumulates in two registers, with the high word in `d` and the low one in `n`; the
others add `n`, if they accumulate. -/
structure HalfProduct where
  wide : Bool
  long : Bool
  accumulate : Bool
  d : Register
  n : Register
  s : Register
  r : Register
  top₁ : Bool
  top₂ : Bool

namespace HalfProduct

/-- Of the wide ones, bit 5 tells those that do not accumulate, which need not choose a half. -/
def ofWord (w : Word) : HalfProduct where
  wide := !w.getLsbD 22 && w.getLsbD 21
  long := w.getLsbD 22 && !w.getLsbD 21
  accumulate := !(w.getLsbD 21 && (w.getLsbD 22 || w.getLsbD 5))
  d := register w 16
  n := register w 12
  s := register w 8
  r := register w 0
  top₁ := w.getLsbD 5
  top₂ := w.getLsbD 6

variable (p : HalfProduct)

/-- The registers of the result, the low word first. -/
def written : List Register := if p.long then [p.n, p.d] else [p.d]

def bits : Nat := if p.long then 64 else 32

def result (m : Machine σ) : Nat :=
  if p.long then 2 ^ 32 * (m.reg p.d).toNat + (m.reg p.n).toNat else (m.reg p.d).toNat

def product (m : Machine σ) : Int :=
  if p.wide then (m.reg p.r).toInt * (m.reg p.s).half p.top₂ / 2 ^ 16
  else (m.reg p.r).half p.top₁ * (m.reg p.s).half p.top₂

def exact (m : Machine σ) : Int :=
  p.product m + if p.long then ((2 ^ 32 * (m.reg p.d).toNat + (m.reg p.n).toNat : Nat) : Int)
    else if p.accumulate then (m.reg p.n).toInt else 0

structure Multiplied (m m' : Machine σ) : Prop where
  /-- A product by itself is exact. -/
  product : p.accumulate = false → (m'.reg p.d).toInt = p.product m
  result : (p.result m' : Int) = p.exact m % 2 ^ p.bits
  computed :
    Computed p.written (p.accumulate = true ∧ p.long = false ∧ ¬ Limbs.Fits 1 (p.exact m)) p.long.toNat m m'

variable {p : HalfProduct}

theorem bits_short (p : HalfProduct) (short : p.long = false) : p.bits = 32 := if_neg (by simp [short])

theorem result_short (p : HalfProduct) (short : p.long = false) (m : Machine σ) : p.result m = (m.reg p.d).toNat :=
  if_neg (by simp [short])

theorem alone_multiplied (bus : Bus σ) (m : Machine σ) (plain : p.d ≠ Register.pc) (short : p.long = false)
    (alone : p.accumulate = false) {x : Word} (number : x.toInt = p.product m) :
    p.Multiplied m (bus.setReg p.d x m) := by
  obtain ⟨computed, result⟩ := computed_setReg false m bus plain x
  have written : p.written = [p.d] := if_neg (by simp [short])
  have exact : x = BitVec.ofInt 32 (p.exact m) := by
    simp only [HalfProduct.exact, short, alone, Bool.false_eq_true, if_false, Int.add_zero, ← number,
      BitVec.ofInt_toInt]
  refine ⟨fun _ => (congrArg BitVec.toInt result).trans number, ?_, ?_⟩
  · rw [p.result_short short, p.bits_short short]
    exact (congrArg (fun v : Word => (v.toNat : Int)) result).trans (toNat_of_ofInt exact)
  · rw [written, short]
    simpa [alone] using computed

theorem accumulateHalf_multiplied (bus : Bus σ) (m : Machine σ) (plain : p.d ≠ Register.pc) (short : p.long = false)
    (more : p.accumulate = true) {x : Word} (number : x.toInt = p.product m) :
    p.Multiplied m (bus.setReg p.d (accumulateHalf x (m.reg p.n) m).1 (accumulateHalf x (m.reg p.n) m).2) := by
  obtain ⟨computed, result⟩ := computed_setReg (Sum.add x (m.reg p.n)).overflow m bus plain (x + m.reg p.n)
  have written : p.written = [p.d] := if_neg (by simp [short])
  have sum : p.exact m = x.toInt + (m.reg p.n).toInt := by
    simp only [HalfProduct.exact, short, more, Bool.false_eq_true, if_false, if_true, number]
  have exact : x + m.reg p.n = BitVec.ofInt 32 (p.exact m) := by
    rw [sum, BitVec.ofInt_add, BitVec.ofInt_toInt, BitVec.ofInt_toInt]
  have lost : (Sum.add x (m.reg p.n)).overflow = true ↔
      p.accumulate = true ∧ p.long = false ∧ ¬ Limbs.Fits 1 (p.exact m) := by
    rw [more, short, eq_self, eq_self, true_and, true_and, Sum.add_eq, Sum.addCarry_overflow, sum, Limbs.Fits]
    simp only [Bool.toNat_false, Nat.cast_zero, Int.add_zero]
  refine ⟨fun alone => ?_, ?_, ?_⟩
  · rw [more] at alone
    cases alone
  · rw [p.result_short short, p.bits_short short]
    exact (congrArg (fun v : Word => (v.toNat : Int)) result).trans (toNat_of_ofInt exact)
  · rw [written, ← lost, short]
    exact computed

theorem long_multiplied (bus : Bus σ) (m : Machine σ) (high : p.d ≠ Register.pc) (low : p.n ≠ Register.pc)
    (apart : p.d ≠ p.n) (long : p.long = true) (more : p.accumulate = true) {x : Word}
    (number : x.toInt = p.product m) :
    let sum := (m.reg p.d ++ m.reg p.n) + x.signExtend 64
    p.Multiplied m ((bus.setReg p.d (sum.extractLsb' 32 32) (bus.setReg p.n (sum.setWidth 32) m)).idle 1) := by
  intro sum
  obtain ⟨computed, hi, lo⟩ := computed_setReg₂ m bus high low apart (sum.extractLsb' 32 32) (sum.setWidth 32)
  have written : p.written = [p.n, p.d] := if_pos long
  have exact : sum = BitVec.ofInt 64 (p.exact m) := by
    rw [HalfProduct.exact, if_pos long, Int.add_comm, BitVec.ofInt_add, ← append_eq_ofInt, ← number]
    rfl
  refine ⟨fun alone => ?_, ?_, ?_⟩
  · rw [more] at alone
    cases alone
  · have bits : p.bits = 64 := if_pos long
    rw [HalfProduct.result, if_pos long, hi, lo, toNat_words, bits]
    exact toNat_of_ofInt exact
  · rw [written, long]
    simpa using computed

theorem product_narrow (narrow : p.wide = false) (m : Machine σ) :
    (Word.extend (signedHalf (m.reg p.r) p.top₁) * Word.extend (signedHalf (m.reg p.s) p.top₂)).toInt =
      p.product m := by
  rw [product, narrow, if_neg Bool.false_ne_true, halves_toInt, signedHalf_toInt, signedHalf_toInt]

theorem product_wide (wide : p.wide = true) (m : Machine σ) :
    (((m.reg p.r).signExtend 64 * (signedHalf (m.reg p.s) p.top₂).signExtend 64).extractLsb' 16 32).toInt =
      p.product m := by
  rw [product, if_pos wide, scaled_toInt, signedHalf_toInt]

/-- The two bits of the operation say what is multiplied and added. -/
theorem halfMultiply_multiplied (bus : Bus σ) {w : Word} (plain : ∀ r ∈ (ofWord w).written, r ≠ Register.pc)
    (apart : (ofWord w).long = true → (ofWord w).d ≠ (ofWord w).n) (m : Machine σ) :
    (ofWord w).Multiplied m (halfMultiply bus (halfMulOp w) (register w 16) (register w 12) (register w 8)
      (register w 0) (w.getLsbD 5) (w.getLsbD 6) m) := by
  have high : (ofWord w).d ≠ Register.pc := plain _ (by unfold written; split_ifs <;> simp)
  rw [halfMulOp, toNat_extract_two]
  cases h22 : w.getLsbD 22 with
  | false =>
    have short : (ofWord w).long = false := by simp only [ofWord, h22]; rfl
    cases h21 : w.getLsbD 21 with
    | false =>
      have narrow : (ofWord w).wide = false := by simp only [ofWord, h22, h21]; rfl
      have more : (ofWord w).accumulate = true := by simp only [ofWord, h21]; rfl
      exact accumulateHalf_multiplied bus m high short more (product_narrow narrow m)
    | true =>
      have wide : (ofWord w).wide = true := by simp only [ofWord, h21, h22]; rfl
      cases h5 : w.getLsbD 5 with
      | false =>
        have more : (ofWord w).accumulate = true := by simp only [ofWord, h21, h22, h5]; rfl
        exact accumulateHalf_multiplied bus m high short more (product_wide wide m)
      | true =>
        have alone : (ofWord w).accumulate = false := by simp only [ofWord, h21, h22, h5]; rfl
        exact alone_multiplied bus m high short alone (product_wide wide m)
  | true =>
    have narrow : (ofWord w).wide = false := by simp only [ofWord, h22]; rfl
    cases h21 : w.getLsbD 21 with
    | false =>
      have long : (ofWord w).long = true := by simp only [ofWord, h21, h22]; rfl
      have more : (ofWord w).accumulate = true := by simp only [ofWord, h21]; rfl
      have low : (ofWord w).n ≠ Register.pc := plain _ (by simp [written, long])
      exact long_multiplied bus m high low (apart long) long more (product_narrow narrow m)
    | true =>
      have short : (ofWord w).long = false := by simp only [ofWord, h21, h22]; rfl
      have alone : (ofWord w).accumulate = false := by simp only [ofWord, h21, h22]; rfl
      exact alone_multiplied bus m high short alone (product_narrow narrow m)

end HalfProduct

end Arm

/-- Clamping a number gives the nearest one that a word holds, which is another one just if no word holds it. A
saturating sum or difference that does not write the program counter gives the exact one, clamped, of its operands, of
which the second may be doubled and is then clamped itself. A product of halves is exact, and is cut to the size of its
result with what it accumulates. The saturation flag is set if something was clamped, or if a sum with a product leaves
the word; besides, only the registers of the result change. -/
theorem extension_arithmetic :
    (∀ (x : Int) (v : Word), v.toInt = Arm.clamp x ↔ v.Nearest x) ∧
    (∀ x : Int, Arm.clamp x = x ↔ Limbs.Fits 1 x) ∧
    ∀ {σ : Type} (bus : Bus σ) (w : Word) (m : Machine σ), bus.isV5 = true →
      Arm.executes bus.isV5 m.cpu.regs w = true →
      (Arm.Kind.saturating.Fits w →
        let p := Arm.Saturation.ofWord w
        p.d ≠ Register.pc → ∃ m', Arm.execute bus w m = .ok () m' ∧ p.Saturated m m') ∧
      (Arm.Kind.halfMultiply.Fits w →
        let p := Arm.HalfProduct.ofWord w
        (∀ r ∈ p.written, r ≠ Register.pc) → (p.long = true → p.d ≠ p.n) →
        ∃ m', Arm.execute bus w m = .ok () m' ∧ p.Multiplied m m') := by
  refine ⟨Arm.clamp_nearest, fun _ => Arm.clamp_eq_self, fun bus w m newer passes => ⟨?_, ?_⟩⟩
  · intro fits p plain
    rw [Arm.execute_eq, if_pos passes, Arm.decode, Arm.classOf_of_fits rfl fits, newer]
    refine ⟨_, rfl, ?_⟩
    rw [Arm.Saturation.saturatingOp_eq]
    exact Arm.Saturation.saturating_saturated bus m plain
  · intro fits p plain apart
    rw [Arm.execute_eq, if_pos passes, Arm.decode, Arm.classOf_of_fits rfl fits, newer]
    exact ⟨_, rfl, Arm.HalfProduct.halfMultiply_multiplied bus plain apart m⟩

/-- A machine with operands at the ends of the range of a word and of its halves. -/
def strained : Machine FlatMemory where
  cpu := (Processor.powerOn .v5).mapRegs fun f =>
    let f := (f.write (Arm.register 1 0) 0x80000000).write (Arm.register 2 0) 0x7FFFFFFF
    (f.write (Arm.register 4 0) 0x40000000).write (Arm.register 5 0) 0x80008000
  system := { ram := ⟨#[]⟩ }
  journal := #[]

/-- `QDADD r0, r2, r1` doubles the least number, which is clamped, and the sum with the greatest is then within the
word. `SMLATT r3, r5, r5, r4` multiplies the least number of a half by itself, and the sum with what it adds leaves the
word. -/
theorem strained_arithmetic :
    let bus := FlatMemory.evenBus .v5
    bus.isV5 = true ∧ Arm.executes bus.isV5 strained.cpu.regs 0xE1410052 = true ∧
    Arm.executes bus.isV5 strained.cpu.regs 0xE10345E5 = true ∧ Arm.Kind.saturating.Fits 0xE1410052 ∧
    Arm.Kind.halfMultiply.Fits 0xE10345E5 ∧ (Arm.Saturation.ofWord 0xE1410052).d ≠ Register.pc ∧
    (∀ r ∈ (Arm.HalfProduct.ofWord 0xE10345E5).written, r ≠ Register.pc) ∧
    (Arm.HalfProduct.ofWord 0xE10345E5).long = false ∧
    (∃ m', Arm.execute bus 0xE1410052 strained = .ok () m' ∧ (m'.reg 0).toInt = -1 ∧ m'.flag .saturation = true) ∧
    ∃ m', Arm.execute bus 0xE10345E5 strained = .ok () m' ∧ m'.reg 3 = 0x80000000 ∧ m'.flag .saturation = true := by
  intro bus
  obtain ⟨-, -, arithmetic⟩ := extension_arithmetic
  have passes : Arm.executes bus.isV5 strained.cpu.regs 0xE1410052 = true := by decide +kernel
  have passes' : Arm.executes bus.isV5 strained.cpu.regs 0xE10345E5 = true := by decide +kernel
  have fits : Arm.Kind.saturating.Fits 0xE1410052 := ⟨⟨by decide, by decide⟩, by decide⟩
  have fits' : Arm.Kind.halfMultiply.Fits 0xE10345E5 := ⟨⟨by decide, by decide⟩, by decide, by decide⟩
  have plain : (Arm.Saturation.ofWord 0xE1410052).d ≠ Register.pc := by decide
  have plain' : ∀ r ∈ (Arm.HalfProduct.ofWord 0xE10345E5).written, r ≠ Register.pc := by decide
  have short : (Arm.HalfProduct.ofWord 0xE10345E5).long = false := by decide
  obtain ⟨m₁, run, saturated⟩ := (arithmetic bus 0xE1410052 strained rfl passes).1 fits plain
  obtain ⟨m₂, run', multiplied⟩ := (arithmetic bus 0xE10345E5 strained rfl passes').2 fits' plain' fun long => by
    rw [short] at long
    cases long
  refine ⟨rfl, passes, passes', fits, fits', plain, plain', short, ⟨m₁, run, ?_, ?_⟩, m₂, run', ?_, ?_⟩
  · have number : Arm.clamp ((Arm.Saturation.ofWord 0xE1410052).exact strained) = -1 := by decide +kernel
    exact saturated.result.trans number
  · exact saturated.computed.saturation.mpr (.inr (.inl (by decide +kernel)))
  · have number : (Arm.HalfProduct.ofWord 0xE10345E5).exact strained % 2 ^ 32 = (0x80000000 : Nat) := by decide +kernel
    exact BitVec.eq_of_toNat_eq (Int.ofNat_inj.mp (multiplied.result.trans number))
  · have exact : (Arm.HalfProduct.ofWord 0xE10345E5).exact strained = 2 ^ 31 := by decide +kernel
    refine multiplied.computed.saturation.mpr (.inr ⟨by decide, short, ?_⟩)
    rw [exact]
    exact fun fits => absurd fits.2 (by decide)

end Lockstep
