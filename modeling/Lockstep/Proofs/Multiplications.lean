import Lockstep.Proofs.Computations
import Lockstep.Proofs.SingleTransfers
import Lockstep.Proofs.ThumbAsArm
import Mathlib.Order.Bounds.Basic

/-!
Multiplications. The result is the product of the operands together with the number that is added to it, modulo the
size of the result, whichever registers they share; the flags tell of the whole of it. The multiplier masks off one byte
of its operand after the other, and works until nothing but zeros is above the mask or, in a signed multiplication,
nothing but ones.
-/

namespace Lockstep

variable {σ : Type}

/-- Whether the bits of a word from `n` upwards are all zero or, in a signed number, all one. -/
def Word.EvenAbove (v : Word) (signed : Bool) (n : Nat) : Prop :=
  (∀ i, n ≤ i → i < 32 → v.getLsbD i = false) ∨ signed = true ∧ ∀ i, n ≤ i → i < 32 → v.getLsbD i = true

def Settled (signed : Bool) (rest mask : Word) : Prop := rest &&& mask = 0 ∨ signed = true ∧ rest &&& mask = mask

/-- The passes of the multiplier over its operand, of which each but the last takes a cycle and masks off a byte. -/
inductive Passes (signed : Bool) : (rest mask : Word) → (cycles : Nat) → Prop where
  | last {rest mask : Word} (settled : Settled signed rest mask) : Passes signed rest mask 0
  | more {rest mask : Word} {cycles : Nat} (unsettled : ¬ Settled signed rest mask)
      (later : Passes signed (rest &&& mask) (mask <<< 8) cycles) : Passes signed rest mask (cycles + 1)

theorem settled_iff (v : Word) (signed : Bool) (n : Nat) :
    Settled signed v (BitVec.allOnes 32 <<< n) ↔ v.EvenAbove signed n := by
  have zeros : v &&& BitVec.allOnes 32 <<< n = 0 ↔ ∀ i, n ≤ i → i < 32 → v.getLsbD i = false := by
    simp only [BitVec.eq_of_getLsbD_eq_iff, BitVec.getLsbD_and, getLsbD_above]
    grind
  have ones : v &&& BitVec.allOnes 32 <<< n = BitVec.allOnes 32 <<< n ↔
      ∀ i, n ≤ i → i < 32 → v.getLsbD i = true := by
    simp only [BitVec.eq_of_getLsbD_eq_iff, BitVec.getLsbD_and, getLsbD_above]
    grind
  rw [Settled, zeros, ones, Word.EvenAbove]

theorem settled_masked {v rest : Word} {signed : Bool} {n : Nat}
    (masked : ∀ i, n ≤ i → rest.getLsbD i = v.getLsbD i) :
    Settled signed rest (BitVec.allOnes 32 <<< n) ↔ v.EvenAbove signed n := by
  rw [settled_iff, Word.EvenAbove, Word.EvenAbove]
  simp +contextual only [masked]

theorem Passes.unique {signed : Bool} {rest mask : Word} {n n' : Nat} (h : Passes signed rest mask n)
    (h' : Passes signed rest mask n') : n = n' := by
  induction h generalizing n' with
  | last settled =>
    cases h' with
    | last => rfl
    | more unsettled => exact absurd settled unsettled
  | more unsettled later ih =>
    cases h' with
    | last settled => exact absurd settled unsettled
    | more _ later' => exact congrArg (· + 1) (ih later')

/-- The passes from a byte on come to an end at the first byte above which the operand is even. -/
theorem passes_isLeast (v : Word) (signed : Bool) {byte left : Nat} (last : byte + left = 4) {rest : Word}
    (masked : ∀ i, 8 * byte ≤ i → rest.getLsbD i = v.getLsbD i) :
    ∃ n, Passes signed rest (BitVec.allOnes 32 <<< (8 * byte)) n ∧
      IsLeast {k | byte ≤ k ∧ k ≤ 4 ∧ v.EvenAbove signed (8 * k)} (byte + n) := by
  have ends {byte : Nat} {rest : Word} (few : byte ≤ 4) (masked : ∀ i, 8 * byte ≤ i → rest.getLsbD i = v.getLsbD i)
      (even : v.EvenAbove signed (8 * byte)) : ∃ n, Passes signed rest (BitVec.allOnes 32 <<< (8 * byte)) n ∧
        IsLeast {k | byte ≤ k ∧ k ≤ 4 ∧ v.EvenAbove signed (8 * k)} (byte + n) :=
    ⟨0, .last ((settled_masked masked).mpr even), ⟨Nat.le_refl _, few, even⟩, fun k later => later.1⟩
  -- What a pass leaves of the operand still shows all there is above the next byte.
  induction left generalizing byte rest with
  | zero => exact ends (by omega) masked (.inl fun i above within => by omega)
  | succ left ih =>
    by_cases even : v.EvenAbove signed (8 * byte)
    · exact ends (by omega) masked even
    have masked' : ∀ i, 8 * (byte + 1) ≤ i →
        (rest &&& BitVec.allOnes 32 <<< (8 * byte)).getLsbD i = v.getLsbD i := by
      intro i above
      rw [BitVec.getLsbD_and, getLsbD_above, masked i (by omega), decide_eq_true (by omega : 8 * byte ≤ i)]
      by_cases within : i < 32
      · simp [within]
      · simp [BitVec.getLsbD_of_ge v i (by omega)]
    obtain ⟨n, passes, ⟨after, few, at_end⟩, least⟩ := ih (show byte + 1 + left = 4 by omega) masked'
    have next : BitVec.allOnes 32 <<< (8 * byte) <<< 8 = BitVec.allOnes 32 <<< (8 * (byte + 1)) :=
      (BitVec.shiftLeft_add ..).symm
    refine ⟨n + 1, .more ((settled_masked masked).not.mpr even) (next ▸ passes), ⟨by omega, by omega, ?_⟩, ?_⟩
    · rwa [show byte + (n + 1) = byte + 1 + n by omega]
    · rintro k ⟨later, most, above⟩
      have other : k ≠ byte := fun same => even (same ▸ above)
      have bound := least ⟨by omega, most, above⟩
      omega

/-- The multiplier takes a cycle for each byte of its operand up to the one above which this is even. -/
theorem multiplierCycles_isLeast (v : Word) (signed : Bool) :
    IsLeast {k | 1 ≤ k ∧ k ≤ 4 ∧ v.EvenAbove signed (8 * k)} (multiplierCycles v signed) := by
  have positive := Nat.pos_of_ne_zero (multiplierCycles_ne_zero v signed)
  have even {k : Nat} (one : 0 < k) (below : k < 4) : v.EvenAbove signed (8 * k) ↔ v.Fits signed k := by
    rw [← settled_iff, ← decide_eq_true_iff (p := v.Fits signed k), ← settled_eq v signed one below]
    simp only [Settled, Bool.or_eq_true, Bool.and_eq_true, beq_iff_eq]
  have most : multiplierCycles v signed ≤ 4 := (multiplierCycles_le_iff v signed (by decide)).mpr (.inl le_rfl)
  refine ⟨⟨positive, most, ?_⟩, fun k ⟨one, four, above⟩ => (multiplierCycles_le_iff v signed one).mpr ?_⟩
  · rcases (multiplierCycles_le_iff v signed positive).mp le_rfl with all | fits
    · exact .inl fun i above within => by omega
    · by_cases all : 4 ≤ multiplierCycles v signed
      · exact .inl fun i above within => by omega
      · exact (even positive (by omega)).mpr fits
  · by_cases all : 4 ≤ k
    · exact .inl all
    · exact .inr ((even one (by omega)).mp above)

/-- The passes over an operand come to an end, and with the cycle before them they take the cycles of the multiplier. -/
theorem passes_iff (v : Word) (signed : Bool) (n : Nat) :
    Passes signed v 0xFFFFFF00 n ↔ multiplierCycles v signed = 1 + n := by
  have first : (0xFFFFFF00 : Word) = BitVec.allOnes 32 <<< (8 * 1) := by decide
  obtain ⟨k, passes, least⟩ :=
    passes_isLeast v signed (show 1 + 3 = 4 from rfl) fun i (_ : 8 * 1 ≤ i) => (rfl : v.getLsbD i = v.getLsbD i)
  have cycles := (multiplierCycles_isLeast v signed).unique least
  rw [first, cycles]
  constructor
  · intro h
    rw [h.unique passes]
  · intro same
    rwa [← Nat.add_left_cancel same]

/-- A file after flags were taken from a result, if they are set at all. The older architecture then clears the
carry. -/
structure Registers.Marked (v5 set negative zero : Bool) (f f' : Registers) : Prop where
  flags : set = true →
    f'.flag .negative = negative ∧ f'.flag .zero = zero ∧ f'.flag .carry = (v5 && f.flag .carry)
  unset : set = false → f'.cpsr = f.cpsr
  below : ∀ i < 29, f'.cpsr.getLsbD i = f.cpsr.getLsbD i
  status : f' = { f with cpsr := f'.cpsr }

namespace Registers.Marked

variable {v5 negative zero : Bool} {f f' : Registers}

theorem refl (f : Registers) : f.Marked v5 false negative zero f := ⟨nofun, fun _ => rfl, fun _ _ => rfl, rfl⟩

/-- The flags of a result are set first, and then the carry is cleared. -/
theorem clear (negative_eq : f'.flag .negative = negative) (zero_eq : f'.flag .zero = zero)
    (carry_eq : f'.flag .carry = f.flag .carry) (below : ∀ i < 29, f'.cpsr.getLsbD i = f.cpsr.getLsbD i)
    (status : f' = { f with cpsr := f'.cpsr }) :
    f.Marked v5 true negative zero (if v5 then f' else f'.setFlag .carry false) := by
  cases v5 with
  | true => exact ⟨fun _ => ⟨negative_eq, zero_eq, carry_eq⟩, nofun, below, status⟩
  | false =>
    refine ⟨fun _ => ⟨?_, ?_, ?_⟩, nofun, fun i hi => ?_, ?_⟩
    · exact (f'.flag_setFlag ..).trans negative_eq
    · exact (f'.flag_setFlag ..).trans zero_eq
    · exact f'.flag_setFlag ..
    · exact ((f'.getLsbD_setFlag ..).trans (if_neg (Nat.ne_of_lt hi))).trans (below i hi)
    · show Registers.mk .. = _
      rw [status]
      rfl

end Registers.Marked

/-- What a result does to the flags of a multiplication that sets them. -/
theorem Arm.clearCarryOnV4_mapRegs (bus : Bus σ) (set : Bool) (mark : Registers → Registers) (m : Machine σ) :
    (if set then clearCarryOnV4 bus (m.mapRegs mark) else m) = m.mapRegs fun f =>
      if set then if bus.isV5 then mark f else (mark f).setFlag .carry false else f := by
  unfold clearCarryOnV4
  cases set <;> cases bus.isV5 <;> rfl

theorem Bus.setReg_put (bus : Bus σ) {k : Mode} {m : Machine σ} (mode : m.cpu.regs.mode = k) {r : Register}
    (plain : r ≠ Register.pc) (v : Word) : bus.setReg r v m = m.mapRegs fun _ => m.cpu.regs.put k r v := by
  rw [bus.setReg_of_ne m plain, ← mode, Registers.put_mode plain]
  rfl

namespace Arm

/-- The class that the words of a kind are in, if they are all in one and it has no others. -/
def Kind.class? : Kind → Option Class
  | .multiply => some .multiply
  | .multiplyLong => some .multiplyLong
  | .swap => some .swap
  | .halfMultiply => some .halfMultiply
  | .countLeadingZeros => some .countLeadingZeros
  | .saturating => some .saturating
  | .statusRead => some .statusRead
  | .blockTransfer => some .blockTransfer
  | .coprocessor => some .coprocessor
  | .softwareInterrupt => some .softwareInterrupt
  | _ => none

theorem classOf_of_fits {w : Word} {k : Kind} {cls : Class} (own : k.class? = some cls) (fits : k.Fits w) :
    classOf w = cls := by
  have kind := Kind.kind?_of_fits fits
  revert kind own
  cases classOf w <;> unfold Class.kind? <;> (try split_ifs) <;> rintro own ⟨⟩ <;> cases own <;> rfl

theorem toNat_of_ofInt {w : Nat} {x : BitVec w} {i : Int} (h : x = BitVec.ofInt w i) : (x.toNat : Int) = i % 2 ^ w := by
  rw [h, BitVec.toNat_ofInt, Int.toNat_of_nonneg (Int.emod_nonneg _ (Int.natCast_ne_zero.mpr (Nat.two_pow_pos w).ne'))]
  norm_cast

theorem ofInt_toNat (w : Nat) {n : Nat} (x : BitVec n) : BitVec.ofInt w x.toNat = x.setWidth w := by
  rw [BitVec.ofInt_natCast, BitVec.ofNat_toNat]

/-- Two words, of which the first is the high one. -/
theorem append_eq_ofInt (hi lo : Word) : hi ++ lo = BitVec.ofInt 64 (2 ^ 32 * hi.toNat + lo.toNat : Nat) := by
  have low := lo.isLt
  refine BitVec.eq_of_toNat_eq ?_
  rw [BitVec.ofInt_natCast, BitVec.toNat_append, ← Nat.shiftLeft_add_eq_or_of_lt low, BitVec.toNat_ofNat,
    Nat.shiftLeft_eq]
  omega

theorem toNat_words (x : BitVec 64) : 2 ^ 32 * (x.extractLsb' 32 32).toNat + (x.setWidth 32).toNat = x.toNat := by
  rw [BitVec.extractLsb'_toNat, BitVec.toNat_setWidth, Nat.shiftRight_eq_div_pow]
  omega

/-- A multiplication, as its word has it. A long one has the high word of its result in `d` and the low one in `n`;
the others add `n`, if they accumulate. -/
structure Product where
  long : Bool
  signed : Bool
  accumulate : Bool
  setFlags : Bool
  d : Register
  n : Register
  s : Register
  r : Register

def factor (signed : Bool) (v : Word) : Int := if signed then v.toInt else v.toNat

namespace Product

def ofWord (w : Word) : Product where
  long := w.getLsbD 23
  signed := w.getLsbD 22
  accumulate := w.getLsbD 21
  setFlags := w.getLsbD 20
  d := register w 16
  n := register w 12
  s := register w 8
  r := register w 0

variable (p : Product)

def bits : Nat := if p.long then 64 else 32

/-- The registers of the result, the low word first. -/
def written : List Register := if p.long then [p.n, p.d] else [p.d]

def result (m : Machine σ) : Nat :=
  if p.long then 2 ^ 32 * (m.reg p.d).toNat + (m.reg p.n).toNat else (m.reg p.d).toNat

def addend (m : Machine σ) : Nat :=
  if p.long then 2 ^ 32 * (m.reg p.d).toNat + (m.reg p.n).toNat else (m.reg p.n).toNat

def exact (m : Machine σ) : Int :=
  factor p.signed (m.reg p.r) * factor p.signed (m.reg p.s) + if p.accumulate then p.addend m else 0

/-- The cycles of the multiplier, one more to accumulate, and one more for a long result. Only a long multiplication
can be unsigned to the multiplier. -/
def cycles (m : Machine σ) : Nat :=
  multiplierCycles (m.reg p.s) (!p.long || p.signed) + p.accumulate.toNat + p.long.toNat

structure Multiplied (v5 : Bool) (m m' : Machine σ) : Prop where
  result : (p.result m' : Int) = p.exact m % 2 ^ p.bits
  /-- The flags tell of all the bits of the result, and the older architecture clears the carry. -/
  flags : p.setFlags = true →
    m'.flag .negative = decide (2 ^ (p.bits - 1) ≤ p.result m') ∧ m'.flag .zero = decide (p.result m' = 0) ∧
      m'.flag .carry = (v5 && m.flag .carry)
  unset : p.setFlags = false → m'.cpu.regs.cpsr = m.cpu.regs.cpsr
  /-- Among the bits below are the flags of an overflow and of a saturation. -/
  below : ∀ i < 29, m'.cpu.regs.cpsr.getLsbD i = m.cpu.regs.cpsr.getLsbD i
  others : ∀ s, (∀ r ∈ p.written, m.cpu.regs.mode.slot? r ≠ some s) → m'.cpu.regs.cell s = m.cpu.regs.cell s
  rest : m'.cpu.regs = { m.cpu.regs with cells := m'.cpu.regs.cells, cpsr := m'.cpu.regs.cpsr }
  cpu : m'.cpu = { m.cpu with
    regs := m'.cpu.regs, timestamp := m.cpu.timestamp + p.cycles m, fetchKind := .nonsequential }
  system : m'.system = m.system

variable {p : Product}

/-- Filling the registers of the result and then marking it in the flags comes to what is said. -/
theorem Multiplied.of_filled {v5 : Bool} {m m' : Machine σ} {f g : Registers} (value : Register → Word) {total : Nat}
    (filled : Registers.Filled m.cpu.regs.mode p.written value m.cpu.regs g)
    (plain : ∀ r ∈ p.written, r ≠ Register.pc)
    (spelled : total = if p.long then 2 ^ 32 * (value p.d).toNat + (value p.n).toNat else (value p.d).toNat)
    (number : (total : Int) = p.exact m % 2 ^ p.bits)
    (marked : g.Marked v5 p.setFlags (decide (2 ^ (p.bits - 1) ≤ total)) (decide (total = 0)) f)
    (run : m' = (((m.idle p.long.toNat).idle p.accumulate.toNat).mapRegs fun _ => f).idleMultiplier (m.reg p.s)
      (!p.long || p.signed)) : p.Multiplied v5 m m' := by
  have regs : m'.cpu.regs = f := congrArg (·.cpu.regs) run
  have mode : f.mode = m.cpu.regs.mode := (congrArg Registers.mode marked.status).trans filled.mode
  have cell (s : Slot) : f.cell s = g.cell s := by
    rw [marked.status]
    rfl
  have read {r : Register} (mem : r ∈ p.written) : m'.reg r = value r := by
    rw [← filled.loaded r mem (plain r mem), Machine.reg, Registers.read, regs, mode, marked.status]
    rfl
  have spelled' : p.result m' = total := by
    rw [spelled, Product.result]
    cases long : p.long with
    | true =>
      have both : p.written = [p.n, p.d] := if_pos long
      rw [read (by simp [both]), read (by simp [both])]
    | false =>
      have one : p.written = [p.d] := if_neg (by simp [long])
      rw [read (by simp [one])]
      rfl
  have carry : g.flag .carry = m.flag .carry := congrArg (·.getLsbD Flag.carry.position) filled.cpsr
  have flag (x : Flag) : m'.flag x = f.flag x := congrArg (Registers.flag · x) regs
  refine ⟨spelled' ▸ number, fun set => ?_, fun unset => ?_, fun i hi => ?_, fun s apart => ?_, ?_, ?_,
    congrArg (·.system) run⟩
  · rw [spelled', flag, flag, flag, ← carry]
    exact marked.flags set
  · rw [regs, marked.unset unset, filled.cpsr]
  · rw [regs, marked.below i hi, filled.cpsr]
  · rw [regs, cell, filled.others s apart]
  · rw [regs, marked.status]
    simp only [filled.saved, filled.pc, filled.mode]
  · have spent : m.cpu.timestamp + p.cycles m = m.cpu.timestamp + p.long.toNat + p.accumulate.toNat +
        multiplierCycles (m.reg p.s) (!p.long || p.signed) := by
      unfold cycles
      omega
    rw [spent, run]
    rfl

theorem exact_short {m : Machine σ} (short : p.long = false) (unsigned : p.signed = false) :
    ((m.reg p.r * m.reg p.s + if p.accumulate then m.reg p.n else 0 : Word).toNat : Int) =
      p.exact m % 2 ^ p.bits := by
  have bits : p.bits = 32 := if_neg (by simp [short])
  rw [bits]
  refine toNat_of_ofInt ?_
  simp only [exact, factor, addend, short, unsigned, Bool.false_eq_true, if_false, BitVec.ofInt_add, BitVec.ofInt_mul,
    ofInt_toNat, BitVec.setWidth_eq]
  cases p.accumulate with
  | true => simp
  | false => simp

theorem exact_long {m : Machine σ} (long : p.long = true) :
    ((wideProduct p.signed (m.reg p.r) (m.reg p.s) +
      if p.accumulate then m.reg p.d ++ m.reg p.n else 0 : BitVec 64).toNat : Int) = p.exact m % 2 ^ p.bits := by
  have bits : p.bits = 64 := if_pos long
  have product : wideProduct p.signed (m.reg p.r) (m.reg p.s) =
      BitVec.ofInt 64 (factor p.signed (m.reg p.r) * factor p.signed (m.reg p.s)) := by
    rw [wideProduct, BitVec.ofInt_mul]
    cases p.signed with
    | true => rfl
    | false => simp only [factor, Bool.false_eq_true, if_false, ofInt_toNat]
  have joined : m.reg p.d ++ m.reg p.n = BitVec.ofInt 64 (p.addend m) := by
    rw [addend, if_pos long, append_eq_ofInt]
  rw [bits]
  refine toNat_of_ofInt ?_
  rw [exact, BitVec.ofInt_add, product, joined]
  cases p.accumulate <;> rfl

theorem zero_eq_decide {w : Nat} (x : BitVec w) : (x == 0) = decide (x.toNat = 0) := by
  rw [Bool.eq_iff_iff, beq_iff_eq, decide_eq_true_iff, ← BitVec.toNat_inj]
  rfl

/-- The flags of a result. -/
theorem marked_total {v5 : Bool} {f f' : Registers} {set : Bool} {w : Nat} {x : BitVec w} (size : p.bits = w)
    (marked : f.Marked v5 set x.msb (x == 0) f') :
    f.Marked v5 set (decide (2 ^ (p.bits - 1) ≤ x.toNat)) (decide (x.toNat = 0)) f' := by
  rwa [size, ← BitVec.msb_eq_decide, ← zero_eq_decide]

/-- The two flags can be set in either order. -/
theorem setFlags_marked (v5 : Bool) {f f' : Registers} {negative zero : Bool}
    (either : f' = (f.setFlag .negative negative).setFlag .zero zero ∨
      f' = (f.setFlag .zero zero).setFlag .negative negative) :
    f.Marked v5 true negative zero (if v5 then f' else f'.setFlag .carry false) := by
  have flag (x : Flag) :
      f'.flag x = if x = .negative then negative else if x = .zero then zero else f.flag x := by
    rcases either with rfl | rfl <;> cases x <;> simp [Registers.flag_setFlag]
  refine .clear (flag .negative) (flag .zero) (flag .carry) (fun i hi => ?_) ?_
  · have apart : i ≠ Flag.negative.position ∧ i ≠ Flag.zero.position :=
      ⟨Nat.ne_of_lt (Nat.lt_trans hi (by decide)), Nat.ne_of_lt (Nat.lt_trans hi (by decide))⟩
    rcases either with rfl | rfl <;> simp [Registers.getLsbD_setFlag, apart]
  · rcases either with rfl | rfl <;> rfl

/-- An accumulation takes a cycle and adds; none adds nothing. -/
theorem accumulated (accumulate : Bool) {w : Nat} (product x : BitVec w) (m : Machine σ) :
    (if accumulate then (product + x, m.idle 1) else (product, m)) =
      (product + (if accumulate then x else 0), m.idle accumulate.toNat) := by
  cases accumulate with
  | true => rfl
  | false =>
    exact congrArg (·, m) (BitVec.add_zero product).symm

theorem multiply_multiplied (bus : Bus σ) (m : Machine σ) (short : p.long = false) (unsigned : p.signed = false)
    (plain : p.d ≠ Register.pc) :
    p.Multiplied bus.isV5 m (multiply bus p.accumulate p.setFlags p.d p.n p.s p.r m) := by
  have written : p.written = [p.d] := if_neg (by simp [short])
  have bits : p.bits = 32 := if_neg (by simp [short])
  have number := exact_short (m := m) short unsigned
  rw [multiply]
  simp only [accumulated, clearCarryOnV4_mapRegs]
  revert number
  generalize (m.reg p.r * m.reg p.s + if p.accumulate then m.reg p.n else 0 : Word) = out
  intro number
  rw [bus.setReg_put rfl plain]
  let g := m.cpu.regs.put m.cpu.regs.mode p.d out
  have filled : Registers.Filled m.cpu.regs.mode p.written (fun _ => out) m.cpu.regs g :=
    written ▸ .cons List.not_mem_nil (.refl ..)
  have marked : g.Marked bus.isV5 p.setFlags out.msb (out == 0)
      (if p.setFlags then if bus.isV5 then g.setNZ true out else (g.setNZ true out).setFlag .carry false else g) := by
    cases p.setFlags with
    | true => exact setFlags_marked bus.isV5 (.inl rfl)
    | false => exact .refl g
  refine .of_filled (fun _ => out) filled (by simpa [written] using plain) ?_ number (marked_total bits marked) ?_
  · rw [short, if_neg Bool.false_ne_true]
  · rw [short]
    rfl

theorem multiplyLong_multiplied (bus : Bus σ) (m : Machine σ) (long : p.long = true) (high : p.d ≠ Register.pc)
    (low : p.n ≠ Register.pc) (apart : p.d ≠ p.n) :
    p.Multiplied bus.isV5 m (multiplyLong bus p.signed p.accumulate p.setFlags p.d p.n p.s p.r m) := by
  have written : p.written = [p.n, p.d] := if_pos long
  have bits : p.bits = 64 := if_pos long
  have number := exact_long (m := m) long
  rw [multiplyLong]
  simp only [accumulated]
  revert number
  generalize same : (wideProduct p.signed (m.reg p.r) (m.reg p.s) +
    if p.accumulate then m.reg p.d ++ m.reg p.n else 0 : BitVec 64) = out
  have same' : (wideProduct p.signed (m.reg p.r) (m.reg p.s) +
    if p.accumulate then (m.idle 1).reg p.d ++ (m.idle 1).reg p.n else 0 : BitVec 64) = out := same
  intro number
  have kept (v : Word) : (m.cpu.regs.put m.cpu.regs.mode p.n v).mode = m.cpu.regs.mode := (m.cpu.regs.put_same ..).2.2.2
  rw [same', bus.setReg_put rfl low, bus.setReg_put (kept _) high]
  let value (r : Register) : Word := if r = p.d then out.extractLsb' 32 32 else out.setWidth 32
  have value_n : value p.n = out.setWidth 32 := if_neg apart.symm
  have value_d : value p.d = out.extractLsb' 32 32 := if_pos rfl
  let k := m.cpu.regs.mode
  let g := (m.cpu.regs.put k p.n (value p.n)).put k p.d (value p.d)
  have filled : Registers.Filled k p.written value m.cpu.regs g :=
    written ▸ .cons (by simpa using apart.symm) (.cons List.not_mem_nil (.refl ..))
  have marked : g.Marked bus.isV5 p.setFlags out.msb (out == 0)
      (if p.setFlags then
        if bus.isV5 then (g.setFlag .zero (out == 0)).setFlag .negative out.msb
        else ((g.setFlag .zero (out == 0)).setFlag .negative out.msb).setFlag .carry false
      else g) := by
    cases p.setFlags with
    | true => exact setFlags_marked bus.isV5 (.inr rfl)
    | false => exact .refl g
  refine .of_filled value filled (by simp [written, low, high]) ?_ number (marked_total bits marked) ?_
  · rw [long, if_pos rfl, value_n, value_d, toNat_words]
  · rw [long]
    refine congrArg (Machine.idleMultiplier · (m.reg p.s) p.signed) ?_
    refine (clearCarryOnV4_mapRegs bus p.setFlags
      (fun f => (f.setFlag .zero (out == 0)).setFlag .negative out.msb) _).trans ?_
    simp only [g, value_n, value_d]
    rfl

theorem long_of_multiply {w : Word} (fits : Kind.multiply.Fits w) :
    (ofWord w).long = false ∧ (ofWord w).signed = false := by
  have bits := (extract_eq_iff w 22 0b000000#6).mp fits.2
  exact ⟨bits 1 (by decide), bits 0 (by decide)⟩

theorem long_of_multiplyLong {w : Word} (fits : Kind.multiplyLong.Fits w) : (ofWord w).long = true :=
  (extract_eq_iff w 23 0b00001#5).mp fits.2 0 (by decide)

/-- What the word of a multiplication does. -/
theorem perform_ofWord (bus : Bus σ) {w : Word} (fits : Kind.multiply.Fits w ∨ Kind.multiplyLong.Fits w)
    (plain : ∀ r ∈ (ofWord w).written, r ≠ Register.pc) (apart : (ofWord w).long = true → (ofWord w).d ≠ (ofWord w).n)
    (m : Machine σ) :
    ∃ m', perform bus w (decode bus.isV5 w) m = .ok () m' ∧ (ofWord w).Multiplied bus.isV5 m m' := by
  rcases fits with fits | fits
  · obtain ⟨short, unsigned⟩ := long_of_multiply fits
    have written : (ofWord w).written = [(ofWord w).d] := if_neg (by simp [short])
    rw [decode, classOf_of_fits rfl fits]
    exact ⟨_, rfl, multiply_multiplied bus m short unsigned (plain _ (by simp [written]))⟩
  · have long := long_of_multiplyLong fits
    have written : (ofWord w).written = [(ofWord w).n, (ofWord w).d] := if_pos long
    rw [decode, classOf_of_fits rfl fits]
    exact ⟨_, rfl, multiplyLong_multiplied bus m long (plain _ (by simp [written])) (plain _ (by simp [written]))
      (apart long)⟩

end Product

end Arm

/-- A THUMB multiplication is one of the short ones, of its destination with another register. -/
def Thumb.product (d s : LowRegister) : Arm.Product :=
  { long := false, signed := false, accumulate := false, setFlags := true, d := d.wide, n := Arm.unused, s := d.wide
    r := s.wide }

theorem Thumb.alu_multiplied (bus : Bus σ) (d s : LowRegister) (m : Machine σ) :
    (product d s).Multiplied bus.isV5 m (alu bus .mul d s m) := by
  have same : Arm.multiply bus false true d.wide Arm.unused d.wide s.wide m = alu bus .mul d s m :=
    (EStateM.Result.ok.inj (perform_multiply bus m 0 d s)).2
  rw [← same]
  exact Arm.Product.multiply_multiplied bus m rfl rfl (wide_ne_pc d)

/-- The multiplier masks off bytes of its operand until it is done, for every operand, and takes a cycle for each byte
up to the first above which the operand is even. A multiplication that does not write the program counter, and whose
result has two registers if it is long, leaves the product of its operands there, with what it accumulates, and marks it
in the flags if it sets them. Those of the short instruction set always do. -/
theorem multiplications :
    (∀ v signed,
      IsLeast {k | 1 ≤ k ∧ k ≤ 4 ∧ v.EvenAbove signed (8 * k)} (multiplierCycles v signed) ∧
      ∀ n, Passes signed v 0xFFFFFF00 n ↔ multiplierCycles v signed = 1 + n) ∧
    (∀ {σ : Type} (bus : Bus σ) (w : Word) (m : Machine σ),
      Arm.Kind.multiply.Fits w ∨ Arm.Kind.multiplyLong.Fits w →
      Arm.executes bus.isV5 m.cpu.regs w = true →
      let p := Arm.Product.ofWord w
      (∀ r ∈ p.written, r ≠ Register.pc) → (p.long = true → p.d ≠ p.n) →
      ∃ m', Arm.execute bus w m = .ok () m' ∧ p.Multiplied bus.isV5 m m') ∧
    ∀ {σ : Type} (bus : Bus σ) (h : Thumb.Halfword) (d s : LowRegister) (m : Machine σ),
      Thumb.decode bus.isV5 h = .alu .mul d s →
      ∃ m', Thumb.execute bus h m = .ok () m' ∧ (Thumb.product d s).Multiplied bus.isV5 m m' := by
  refine ⟨fun v signed => ⟨multiplierCycles_isLeast v signed, passes_iff v signed⟩, ?_, ?_⟩
  · intro σ bus w m fits passes p plain apart
    rw [Arm.execute_eq, if_pos passes]
    exact Arm.Product.perform_ofWord bus fits plain apart m
  · intro σ bus h d s m decoded
    rw [Thumb.execute, decoded]
    exact ⟨_, rfl, Thumb.alu_multiplied bus d s m⟩

/-- A machine with -2 in r0 and 3 in r1, and with the carry set. -/
def opposed : Machine FlatMemory where
  cpu := (Processor.powerOn .v4).mapRegs fun f =>
    ((f.write (Arm.register 0 0) 0xFFFFFFFE).write (Arm.register 1 0) 3).setFlag .carry true
  system := { ram := ⟨#[]⟩ }
  journal := #[]

/-- `SMULLS r0, r1, r0, r1` has all its operands in the registers of its result. The product is negative, and the carry
is cleared. An operand with something in each of its bytes would keep the multiplier for four cycles. -/
theorem opposed_multiply :
    let w : Word := 0xE0D10190
    let p := Arm.Product.ofWord w
    let bus := FlatMemory.evenBus .v4
    Passes true 0x12345678 0xFFFFFF00 3 ∧ Arm.Kind.multiplyLong.Fits w ∧
    Arm.executes bus.isV5 opposed.cpu.regs w = true ∧ (∀ r ∈ p.written, r ≠ Register.pc) ∧ p.d ≠ p.n ∧
    ∃ m', Arm.execute bus w opposed = .ok () m' ∧ p.result m' = 2 ^ 64 - 6 ∧ m'.flag .negative = true ∧
      m'.flag .zero = false ∧ m'.flag .carry = false ∧ m'.cpu.timestamp = opposed.cpu.timestamp + 2 := by
  intro w p bus
  obtain ⟨multiplier, products, -⟩ := multiplications
  have fits : Arm.Kind.multiplyLong.Fits w := ⟨by decide, by decide⟩
  have passes : Arm.executes bus.isV5 opposed.cpu.regs w = true := by decide +kernel
  have plain : ∀ r ∈ p.written, r ≠ Register.pc := by decide
  have apart : p.d ≠ p.n := by decide
  obtain ⟨m', run, multiplied⟩ := products bus w opposed (.inr fits) passes plain fun _ => apart
  have number : p.result m' = 2 ^ 64 - 6 := by
    have exact : p.exact opposed % 2 ^ p.bits = (2 ^ 64 - 6 : Nat) := by decide +kernel
    exact Int.ofNat_inj.mp (multiplied.result.trans exact)
  obtain ⟨negative, zero, carry⟩ := multiplied.flags (by decide)
  rw [number] at negative zero
  have spent : p.cycles opposed = 2 := by decide +kernel
  refine ⟨((multiplier 0x12345678 true).2 3).mpr (by decide), fits, passes, plain, apart, m', run, number,
    negative.trans (by decide), zero.trans (by decide), carry, ?_⟩
  rw [multiplied.cpu, ← spent]

end Lockstep
