import Lockstep.Proofs.MemoryMoves
import Lockstep.Proofs.UnalignedAccesses

/-!
Memory moved by the firmware, as it is afterwards. The units are moved one after the other, upwards, each from the
memory that those before it have left. A move downwards never reads what it has written, and a move upwards into its own
source does from some place on, and so repeats the units below that place. Mirrors are another matter: where the bytes
of a source are also seen at addresses of the destination, either may read what was written.
-/

namespace Lockstep

variable {σ ι : Type}

namespace ByteMemory

variable (M : ByteMemory σ ι)

/-- No two bytes of a unit are kept in one place. -/
def Whole : Prop := ∀ (w : Width) (a : Address), ∀ b < w.bytes, ∀ b' < w.bytes, M.unit w a b = M.unit w a b' → b = b'

def put [DecidableEq ι] (w : Width) (a : Address) (bytes : Nat → BitVec 8) (mem : ι → BitVec 8) : ι → BitVec 8 :=
  fun p =>
    match (List.range w.bytes).find? fun b => M.unit w a b = p with
    | some b => bytes b
    | none => mem p

variable {M} {w : Width} {a : Address} {bytes : Nat → BitVec 8} {mem : ι → BitVec 8}

/-- A byte was stored there that tells it from the others of its unit. -/
theorem Behind.whole {bus : Bus σ} (h : M.Behind bus) {m : Machine σ} (sound : M.sound m.system) : M.Whole := by
  intro w a b hb b' hb' same
  have few := w.bytes_le
  have stored := h.set w a (Word.ofBytes fun i => BitVec.ofNat 8 i) m sound
  have byte {b : Nat} (hb : b < w.bytes) : M.byte (bus.set w a (Word.ofBytes fun i => BitVec.ofNat 8 i) m).system
      (M.unit w a b) = BitVec.ofNat 8 b := (stored.holds b hb).trans (Word.extract_ofBytes _ (by omega))
  have numbers : BitVec.ofNat 8 b = BitVec.ofNat 8 b' := (byte hb).symm.trans ((congrArg _ same).trans (byte hb'))
  have values := congrArg BitVec.toNat numbers
  rw [BitVec.toNat_ofNat, BitVec.toNat_ofNat] at values
  omega

variable [DecidableEq ι]

/-- A place is that of a byte of the unit, or keeps what it had. -/
theorem put_cases (M : ByteMemory σ ι) (w : Width) (a : Address) (bytes : Nat → BitVec 8) (mem : ι → BitVec 8) (p : ι) :
    (∃ b < w.bytes, p = M.unit w a b ∧ M.put w a bytes mem p = bytes b) ∨
      (∀ b < w.bytes, p ≠ M.unit w a b) ∧ M.put w a bytes mem p = mem p := by
  unfold put
  cases found : (List.range w.bytes).find? fun b => M.unit w a b = p with
  | some b =>
    have here : M.unit w a b = p := by simpa using List.find?_some found
    exact .inl ⟨b, List.mem_range.mp (List.mem_of_find?_eq_some found), here.symm, rfl⟩
  | none =>
    refine .inr ⟨fun b hb same => ?_, rfl⟩
    have differs := List.find?_eq_none.mp found b (List.mem_range.mpr hb)
    simp [same] at differs

theorem put_other {p : ι} (other : ∀ b < w.bytes, p ≠ M.unit w a b) : M.put w a bytes mem p = mem p := by
  rcases M.put_cases w a bytes mem p with ⟨b, hb, here, -⟩ | ⟨-, kept⟩
  · exact absurd here (other b hb)
  · exact kept

theorem put_unit (whole : M.Whole) {b : Nat} (hb : b < w.bytes) : M.put w a bytes mem (M.unit w a b) = bytes b := by
  rcases M.put_cases w a bytes mem (M.unit w a b) with ⟨b', hb', same, replaced⟩ | ⟨elsewhere, -⟩
  · rw [replaced, whole w a b' hb' b hb same.symm]
  · exact absurd rfl (elsewhere b hb)

theorem Stored.byte_eq {v : Word} {s s' : σ} (h : M.Stored w a v s s')
    (value : ∀ b < w.bytes, v.extractLsb' (8 * b) 8 = bytes b) : M.byte s' = M.put w a bytes (M.byte s) := by
  funext p
  rcases M.put_cases w a bytes (M.byte s) p with ⟨b, hb, rfl, replaced⟩ | ⟨elsewhere, kept⟩
  · rw [replaced, h.holds b hb, value b hb]
  · rw [kept, h.others p elsewhere]

namespace Behind

variable {bus : Bus σ} (h : M.Behind bus) {m : Machine σ} (sound : M.sound m.system)
include h sound

omit [DecidableEq ι] in
theorem load (w : Width) (a : Address) :
    let x := bus.load w a m
    M.Same m.system x.2.system ∧ x.2.cpu = m.cpu ∧
      ∀ b < w.bytes, x.1.extractLsb' (8 * b) 8 = M.byte m.system (M.unit w a b) :=
  ⟨h.get w a m sound, h.get_cpu w a m, fun b hb => (w.extract_truncate _ hb).trans (h.value w a m sound b hb)⟩

theorem store_put {v : Word} (value : ∀ b < w.bytes, v.extractLsb' (8 * b) 8 = bytes b) (a : Address) :
    let m' := bus.store w a v m
    M.sound m'.system ∧ M.byte m'.system = M.put w a bytes (M.byte m.system) ∧ m'.cpu = m.cpu := by
  have stored := h.set w a (w.truncate v) m sound
  exact ⟨stored.sound, stored.byte_eq fun b hb => (w.extract_truncate v hb).trans (value b hb), h.set_cpu ..⟩

end Behind

end ByteMemory

namespace Firmware.MemoryMove

section
variable [DecidableEq ι] (t : MemoryMove) (M : ByteMemory σ ι)

def moved (mem : ι → BitVec 8) : Nat → ι → BitVec 8
  | 0 => mem
  | i + 1 =>
    let now := moved mem i
    M.put t.width (t.target i)
      (fun b => if t.filling then mem (M.unit t.width (t.source 0) b) else now (M.unit t.width (t.source i) b)) now

def Distinct : Prop :=
  ∀ i < t.count, ∀ j < t.count, ∀ b < t.width.bytes, ∀ b' < t.width.bytes,
    M.unit t.width (t.target i) b = M.unit t.width (t.target j) b' → i = j

/-- A unit comes from a byte that another one goes to. -/
def Meets (i j : Nat) : Prop :=
  ∃ b < t.width.bytes, ∃ b' < t.width.bytes, M.unit t.width (t.source i) b = M.unit t.width (t.target j) b'

/-- The bytes of a unit in one memory are those of a unit of the source in another. -/
def Brings (mem mem' : ι → BitVec 8) (origin : Nat → Nat) : Prop :=
  ∀ i < t.count, ∀ b < t.width.bytes,
    mem' (M.unit t.width (t.target i) b) = mem (M.unit t.width (t.source (origin i)) b)

end

variable [DecidableEq ι] {t : MemoryMove} {M : ByteMemory σ ι} {mem : ι → BitVec 8}

theorem moved_other {i : Nat} {p : ι} (other : ∀ j < i, ∀ b < t.width.bytes, p ≠ M.unit t.width (t.target j) b) :
    t.moved M mem i p = mem p := by
  induction i with
  | zero => rfl
  | succ i ih =>
    rw [moved, ByteMemory.put_other (other i (Nat.lt_succ_self i))]
    exact ih fun j hj => other j (Nat.lt_succ_of_lt hj)

/-- A unit stays as it is once it is moved. -/
theorem moved_target (whole : M.Whole) (distinct : t.Distinct M) {i j : Nat} (before : j < i) (within : i ≤ t.count)
    {b : Nat} (hb : b < t.width.bytes) :
    t.moved M mem i (M.unit t.width (t.target j) b) =
      if t.filling then mem (M.unit t.width (t.source 0) b)
      else t.moved M mem j (M.unit t.width (t.source j) b) := by
  induction i with
  | zero => exact absurd before (Nat.not_lt_zero j)
  | succ i ih =>
    rw [moved]
    rcases Nat.lt_succ_iff_lt_or_eq.mp before with earlier | rfl
    · rw [ByteMemory.put_other fun b' hb' same =>
        absurd (distinct j (by omega) i (by omega) b hb b' hb' same) (Nat.ne_of_lt earlier)]
      exact ih earlier (by omega)
    · exact ByteMemory.put_unit whole hb

/-- A source is read as it was if no unit was moved onto it. -/
theorem moved_source {i j : Nat} (clear : ∀ k < i, ¬ t.Meets M j k) {b : Nat} (hb : b < t.width.bytes) :
    t.moved M mem i (M.unit t.width (t.source j) b) = mem (M.unit t.width (t.source j) b) :=
  moved_other fun k hk b' hb' same => clear k hk ⟨b, hb, b', hb', same⟩

section
variable (whole : M.Whole) (distinct : t.Distinct M)
include whole distinct

theorem brings_filling (filling : t.filling = true) : t.Brings M mem (t.moved M mem t.count) fun _ => 0 := by
  intro i hi b hb
  rw [moved_target whole distinct hi (Nat.le_refl _) hb, if_pos filling]

/-- A copy brings the source if no unit is moved onto one that comes later. -/
theorem brings_copying (copying : t.filling = false) (clear : ∀ i < t.count, ∀ j < i, ¬ t.Meets M i j) :
    t.Brings M mem (t.moved M mem t.count) id := by
  intro i hi b hb
  rw [moved_target whole distinct hi (Nat.le_refl _) hb, copying, if_neg Bool.false_ne_true,
    moved_source (clear i hi) hb]
  rfl

/-- If units are moved onto those some places further on, and onto no others, they come round again. -/
theorem brings_repeating (copying : t.filling = false) {k : Nat} (positive : 0 < k)
    (onto : ∀ j, t.source (j + k) = t.target j) (clear : ∀ i < t.count, i < k → ∀ j < i, ¬ t.Meets M i j) :
    t.Brings M mem (t.moved M mem t.count) (· % k) := by
  -- A source that is itself a target is read as it was moved there, and so comes from a unit before it.
  have read (i : Nat) : i < t.count → ∀ b < t.width.bytes,
      t.moved M mem i (M.unit t.width (t.source i) b) = mem (M.unit t.width (t.source (i % k)) b) := by
    induction i using Nat.strong_induction_on with
    | _ i ih =>
      intro hi b hb
      by_cases first : i < k
      · rw [Nat.mod_eq_of_lt first, moved_source (clear i hi first) hb]
      · obtain ⟨j, rfl⟩ := Nat.exists_eq_add_of_le' (Nat.le_of_not_lt first)
        rw [onto, moved_target whole distinct (Nat.lt_add_of_pos_right positive) (Nat.le_of_lt hi) hb, copying,
          if_neg Bool.false_ne_true, ih j (Nat.lt_add_of_pos_right positive) (by omega) b hb, Nat.add_mod_right]
  intro i hi b hb
  rw [moved_target whole distinct hi (Nat.le_refl _) hb, copying, if_neg Bool.false_ne_true, read i hi b hb]

end

structure Aligned (t : MemoryMove) : Prop where
  src : t.width.bytes ∣ t.src.toNat
  dst : t.width.bytes ∣ t.dst.toNat

structure Unwrapped (t : MemoryMove) : Prop where
  src : t.src.toNat + t.count * t.width.bytes ≤ 2 ^ 32
  dst : t.dst.toNat + t.count * t.width.bytes ≤ 2 ^ 32

/-- No byte of the source is seen at another address of the target. -/
def Faithful (t : MemoryMove) (M : ByteMemory σ ι) : Prop :=
  ∀ i < t.count, ∀ j < t.count, ∀ b < t.width.bytes, ∀ b' < t.width.bytes,
    M.unit t.width (t.source i) b = M.unit t.width (t.target j) b' →
      t.source i + BitVec.ofNat 32 b = t.target j + BitVec.ofNat 32 b'

theorem count_ofArguments (blocks : Bool) (src dst control : Word) :
    (ofArguments blocks src dst control).count ≤ 2 ^ 21 := by
  show (if blocks then (control.toNat % 2 ^ 21 + 7) / 8 * 8 else control.toNat % 2 ^ 21) ≤ 2 ^ 21
  split_ifs <;> omega

theorem ofArguments_aligned (blocks : Bool) (src dst control : Word) : (ofArguments blocks src dst control).Aligned :=
  ⟨Width.bytes_dvd_align _ _, Width.bytes_dvd_align _ _⟩

theorem toNat_byte {a : Address} {w : Width} {i n b : Nat} (fits : a.toNat + n * w.bytes ≤ 2 ^ 32) (hi : i < n)
    (hb : b < w.bytes) : (a + BitVec.ofNat 32 (i * w.bytes) + BitVec.ofNat 32 b).toNat = a.toNat + i * w.bytes + b := by
  have row : (i + 1) * w.bytes ≤ n * w.bytes := Nat.mul_le_mul_right _ hi
  rw [Nat.succ_mul] at row
  rw [BitVec.toNat_add, BitVec.toNat_add, BitVec.toNat_ofNat, BitVec.toNat_ofNat]
  omega

omit [DecidableEq ι] in
/-- Units that meet are at the same address. -/
theorem address_of_meets (aligned : t.Aligned) (unwrapped : t.Unwrapped) (faithful : t.Faithful M) {i j : Nat}
    (hi : i < t.count) (hj : j < t.count) (meets : t.Meets M i j) :
    t.src.toNat + i * t.width.bytes = t.dst.toNat + j * t.width.bytes := by
  obtain ⟨b, hb, b', hb', same⟩ := meets
  have address := congrArg BitVec.toNat (faithful i hi j hj b hb b' hb' same)
  rw [source, target, toNat_byte unwrapped.src hi hb, toNat_byte unwrapped.dst hj hb'] at address
  have offset {x i b : Nat} (whole : t.width.bytes ∣ x) (hb : b < t.width.bytes) :
      (x + i * t.width.bytes + b) % t.width.bytes = b := by
    rw [Nat.add_mod, Nat.mod_eq_zero_of_dvd (Nat.dvd_add whole (Nat.dvd_mul_left _ _)), Nat.zero_add, Nat.mod_mod,
      Nat.mod_eq_of_lt hb]
  have byte : b = b' := by rw [← offset aligned.src hb, address, offset aligned.dst hb']
  omega

section
variable (whole : M.Whole) (distinct : t.Distinct M) (aligned : t.Aligned) (unwrapped : t.Unwrapped)
  (faithful : t.Faithful M) (copying : t.filling = false)
include whole distinct aligned unwrapped faithful copying

/-- A copy downwards, or out of reach of its source, brings the source. -/
theorem brings_clear (clear : t.dst ≤ t.src ∨ t.src.toNat + t.count * t.width.bytes ≤ t.dst.toNat) :
    t.Brings M mem (t.moved M mem t.count) id := by
  refine brings_copying whole distinct copying fun i hi j hj meets => ?_
  have address := address_of_meets aligned unwrapped faithful hi (Nat.lt_trans hj hi) meets
  have below : j * t.width.bytes < i * t.width.bytes := Nat.mul_lt_mul_of_pos_right hj t.width.bytes_pos
  have within : i * t.width.bytes < t.count * t.width.bytes := Nat.mul_lt_mul_of_pos_right hi t.width.bytes_pos
  rcases clear with downwards | apart
  · have downwards : t.dst.toNat ≤ t.src.toNat := downwards
    omega
  · omega

/-- A copy upwards repeats the units between its source and its target. -/
theorem brings_upwards (upwards : t.src < t.dst) :
    t.Brings M mem (t.moved M mem t.count) (· % ((t.dst.toNat - t.src.toNat) / t.width.bytes)) := by
  have upwards : t.src.toNat < t.dst.toNat := upwards
  have distance : (t.dst.toNat - t.src.toNat) / t.width.bytes * t.width.bytes = t.dst.toNat - t.src.toNat :=
    Nat.div_mul_cancel (Nat.dvd_sub aligned.dst aligned.src)
  generalize (t.dst.toNat - t.src.toNat) / t.width.bytes = k at distance
  have positive : 0 < k := by
    rcases Nat.eq_zero_or_pos k with rfl | positive
    · omega
    · exact positive
  refine brings_repeating whole distinct copying positive (fun j => ?_) fun i hi first j hj meets => ?_
  · refine BitVec.eq_of_toNat_eq ?_
    rw [source, target, BitVec.toNat_add, BitVec.toNat_add, BitVec.toNat_ofNat, BitVec.toNat_ofNat, Nat.add_mul]
    omega
  · have address := address_of_meets aligned unwrapped faithful hi (Nat.lt_trans hj hi) meets
    have within : i * t.width.bytes < k * t.width.bytes := Nat.mul_lt_mul_of_pos_right first t.width.bytes_pos
    omega

end

/-- A machine that has only had its memory changed on the way. -/
structure Reached (M : ByteMemory σ ι) (mem : ι → BitVec 8) (m m' : Machine σ) : Prop where
  sound : M.sound m'.system
  byte : M.byte m'.system = mem
  cpu : m'.cpu = m.cpu

section
variable {bus : Bus σ} (h : M.Behind bus)
include h

/-- One unit is moved. -/
theorem step_reached {i : Nat} {m : Machine σ} (sound : M.sound m.system) (now : M.byte m.system = t.moved M mem i)
    {v : Word} (value : ∀ b < t.width.bytes, v.extractLsb' (8 * b) 8 =
      if t.filling then mem (M.unit t.width (t.source 0) b) else M.byte m.system (M.unit t.width (t.source i) b)) :
    Reached M (t.moved M mem (i + 1)) m (bus.store t.width (t.target i) v m) := by
  obtain ⟨sound', byte, cpu⟩ := h.store_put sound value (t.target i)
  rw [now] at byte
  exact ⟨sound', byte, cpu⟩

/-- The rest of the units is moved. -/
theorem copyUnits_reached {v : Word}
    (value : ∀ b < t.width.bytes, v.extractLsb' (8 * b) 8 = mem (M.unit t.width (t.source 0) b)) (n i : Nat)
    {m : Machine σ} (sound : M.sound m.system) (now : M.byte m.system = t.moved M mem i) :
    Reached M (t.moved M mem (i + n)) m
      (copyUnits bus t.width (if t.filling then some v else none) n (t.source i) (t.target i) m) := by
  induction n generalizing i m with
  | zero => exact ⟨sound, now, rfl⟩
  | succ n ih =>
    rw [Nat.add_succ, ← Nat.succ_add]
    cases filling : t.filling with
    | true =>
      have step := step_reached h sound now fun b hb => (value b hb).trans (if_pos filling).symm
      have rest := ih (i + 1) step.sound step.byte
      rw [filling] at rest
      rw [if_pos rfl, copyUnits_fill]
      exact ⟨rest.sound, rest.byte, rest.cpu.trans step.cpu⟩
    | false =>
      obtain ⟨same, cpu, read⟩ := h.load sound t.width (t.source i)
      have step := step_reached h same.sound (same.byte.trans now) fun b hb => by
        rw [read b hb, filling, if_neg Bool.false_ne_true, same.byte]
      have rest := ih (i + 1) step.sound step.byte
      rw [filling] at rest
      rw [if_neg Bool.false_ne_true, copyUnits_copy]
      exact ⟨rest.sound, rest.byte, (rest.cpu.trans step.cpu).trans cpu⟩

/-- A call to move memory moves all the units, and takes two cycles for each. -/
theorem call_reached (blocks : Bool) {m : Machine σ} (sound : M.sound m.system) :
    let t := ofArguments blocks (m.reg 0) (m.reg 1) (m.reg 2)
    ∃ m', call bus (moveNumber blocks) m = .ok true m' ∧
      Reached M (t.moved M (M.byte m.system) t.count) (m.idle (2 * t.count)) m' := by
  intro t
  obtain ⟨text, run⟩ := call_move bus blocks m
  obtain ⟨same, cpu, read⟩ := h.load sound t.width (t.source 0)
  have rest := copyUnits_reached h read t.count 0 same.sound same.byte
  rw [Nat.zero_add, t.source_zero, t.target_zero] at rest
  rw [t.source_zero] at cpu
  exact ⟨_, run, rest.sound, rest.byte, congrArg (fun p : Processor => p.idle (2 * t.count)) (rest.cpu.trans cpu)⟩

end

end Firmware.MemoryMove

open Firmware in
/-- On a memory of bytes a call to move memory comes to what moving the units one after the other comes to. Outside
the places that they go to nothing changes, and of the processor nothing but its clock. No count and no offset that a
control word can ask for leaves its word. If no two units go to the same byte, all the places are filled with the
first unit, or the source is copied, if it has no bytes among them. If no byte of the source is seen at another
address of the places, and neither range wraps around, the source is copied downwards and out of its reach, and
upwards it is repeated from below the places on. -/
theorem moves_memory [DecidableEq ι] {M : ByteMemory σ ι} {bus : Bus σ} (h : M.Behind bus) (blocks : Bool)
    {m : Machine σ} (sound : M.sound m.system) :
    let t := MemoryMove.ofArguments blocks (m.reg 0) (m.reg 1) (m.reg 2)
    ((m.reg 2).toNat % 2 ^ 21 + 7 < 2 ^ 32 ∧ 2 * t.count < 2 ^ 64 ∧
      ∀ i < t.count, (BitVec.ofNat 32 (i * t.width.bytes)).toNat = i * t.width.bytes) ∧
    ∃ m', call bus (moveNumber blocks) m = .ok true m' ∧ M.sound m'.system ∧
      M.byte m'.system = t.moved M (M.byte m.system) t.count ∧
      m'.cpu = { m.cpu with timestamp := m.cpu.timestamp + 2 * t.count } ∧
      (∀ p, (∀ i < t.count, ∀ b < t.width.bytes, p ≠ M.unit t.width (t.target i) b) →
        M.byte m'.system p = M.byte m.system p) ∧
      (t.Distinct M →
        let brings := t.Brings M (M.byte m.system) (M.byte m'.system)
        (t.filling = true → brings fun _ => 0) ∧
        (t.filling = false → (∀ i < t.count, ∀ j < t.count, ¬ t.Meets M i j) → brings id) ∧
        (t.filling = false → t.Faithful M → t.Unwrapped →
          (t.dst ≤ t.src ∨ t.src.toNat + t.count * t.width.bytes ≤ t.dst.toNat → brings id) ∧
          (t.src < t.dst → brings (· % ((t.dst.toNat - t.src.toNat) / t.width.bytes))))) := by
  intro t
  have few : t.count ≤ 2 ^ 21 := MemoryMove.count_ofArguments ..
  have aligned : t.Aligned := MemoryMove.ofArguments_aligned ..
  have whole := h.whole sound
  obtain ⟨m', run, sound', byte, cpu⟩ := MemoryMove.call_reached h blocks sound
  refine ⟨⟨by omega, ?_, fun i hi => ?_⟩, m', run, sound', byte, cpu, fun p outside => ?_, fun distinct => ?_⟩
  · omega
  · have within : i * t.width.bytes ≤ 2 ^ 21 * 4 := Nat.mul_le_mul (Nat.le_trans (Nat.le_of_lt hi) few) t.width.bytes_le
    exact BitVec.toNat_ofNat .. ▸ Nat.mod_eq_of_lt (by omega)
  · exact (congrFun byte p).trans (MemoryMove.moved_other outside)
  · rw [byte]
    refine ⟨MemoryMove.brings_filling whole distinct, fun copying clear => ?_,
      fun copying faithful unwrapped => ⟨?_, ?_⟩⟩
    · exact MemoryMove.brings_copying whole distinct copying fun i hi j hj => clear i hi j (Nat.lt_trans hj hi)
    · exact MemoryMove.brings_clear whole distinct aligned unwrapped faithful copying
    · exact MemoryMove.brings_upwards whole distinct aligned unwrapped faithful copying

/-- A machine about to move four halves from 0, where 1 and 2 are, to 4. -/
def spreading : Machine FlatMemory where
  cpu := (Processor.powerOn .v4).mapRegs fun f =>
    (f.write (Thumb.register 1 0).wide 4).write (Thumb.register 2 0).wide 4
  system := { ram := ⟨#[1, 0, 2, 0] ++ Array.replicate 12 0⟩ }
  journal := #[]

open Firmware in
/-- A copy that comes into its own source repeats it. -/
theorem spreading_repeats :
    let M := FlatMemory.bytes (2 ^ 4)
    let bus := FlatMemory.evenBus .v4
    let t := MemoryMove.ofArguments false (spreading.reg 0) (spreading.reg 1) (spreading.reg 2)
    M.Behind bus ∧ M.sound spreading.system ∧ t.Distinct M ∧ t.filling = false ∧ t.Faithful M ∧ t.Unwrapped ∧
      t.src < t.dst ∧
      ∃ m', call bus (moveNumber false) spreading = .ok true m' ∧ M.byte m'.system 8 = 1 ∧ M.byte m'.system 10 = 2 := by
  intro M bus t
  have behind : M.Behind bus := FlatMemory.bytes_behind (by decide) _ _
  have sound : M.sound spreading.system := rfl
  have distinct : t.Distinct M := by
    unfold MemoryMove.Distinct
    decide +kernel
  have copying : t.filling = false := by decide +kernel
  have faithful : t.Faithful M := by
    unfold MemoryMove.Faithful
    decide +kernel
  have unwrapped : t.Unwrapped := ⟨by decide +kernel, by decide +kernel⟩
  have upwards : t.src < t.dst := by decide +kernel
  obtain ⟨-, m', run, -, -, -, -, brings⟩ := moves_memory behind false sound
  have repeats := ((brings distinct).2.2 copying faithful unwrapped).2 upwards
  have first := repeats 2 (by decide +kernel) 0 (by decide +kernel)
  have second := repeats 3 (by decide +kernel) 0 (by decide +kernel)
  exact ⟨behind, sound, distinct, copying, faithful, unwrapped, upwards, m', run,
    first.trans (by decide +kernel), second.trans (by decide +kernel)⟩

/-- A machine about to move two words from 0x1C downwards to 0x10. The memory repeats every 16 bytes, and its first
word, which the first unit is moved to, is also the second unit of the source. -/
def mirrored : Machine FlatMemory where
  cpu := (Processor.powerOn .v4).mapRegs fun f =>
    let f := (f.write (Thumb.register 0 0).wide 0x1C).write (Thumb.register 1 0).wide 0x10
    f.write (Thumb.register 2 0).wide 0x04000002
  system := { ram := ⟨#[2] ++ Array.replicate 11 0 ++ #[1, 0, 0, 0]⟩ }
  journal := #[]

open Firmware in
/-- A copy between ranges without an address in common does not bring the source, if one is seen in a mirror of the
other. -/
theorem mirrored_differs :
    let M := FlatMemory.bytes (2 ^ 4)
    let bus := FlatMemory.evenBus .v4
    let t := MemoryMove.ofArguments false (mirrored.reg 0) (mirrored.reg 1) (mirrored.reg 2)
    M.Behind bus ∧ M.sound mirrored.system ∧ t.Distinct M ∧ t.filling = false ∧ t.Unwrapped ∧
      t.dst.toNat + t.count * t.width.bytes ≤ t.src.toNat ∧
      ∃ m', call bus (moveNumber false) mirrored = .ok true m' ∧
        ¬ t.Brings M (M.byte mirrored.system) (M.byte m'.system) id := by
  intro M bus t
  have behind : M.Behind bus := FlatMemory.bytes_behind (by decide) _ _
  have sound : M.sound mirrored.system := rfl
  have distinct : t.Distinct M := by
    unfold MemoryMove.Distinct
    decide +kernel
  obtain ⟨m', run, reached⟩ := MemoryMove.call_reached behind false sound
  refine ⟨behind, sound, distinct, by decide +kernel, ⟨by decide +kernel, by decide +kernel⟩, by decide +kernel, m',
    run, fun brings => ?_⟩
  have unit := brings 1 (by decide +kernel) 0 (by decide +kernel)
  rw [reached.byte] at unit
  exact absurd unit (by decide +kernel)

end Lockstep
