import Lockstep.Proofs.MovedMemory
import Mathlib.Algebra.CharP.Two
import Mathlib.Algebra.Field.ZMod
import Mathlib.Algebra.Polynomial.FieldDivision
import Mathlib.RingTheory.AdjoinRoot
import Mathlib.Tactic.ComputeDegree

/-!
Checksums. A checksum is the remainder of a division of polynomials over the field of two elements, with the bits of
each byte and of the checksum itself in the order in which they are sent, the lowest first. From this follows that it is
linear, and that a message with its own checksum behind it leaves nothing.
-/

namespace Lockstep

open Polynomial

variable {σ ι : Type}

namespace Firmware.Checksum

/-- The polynomial that has bits for its coefficients, that of the highest power first. -/
noncomputable def polynomial : List Bool → (ZMod 2)[X]
  | [] => 0
  | b :: bs => (if b then X ^ bs.length else 0) + polynomial bs

theorem polynomial_append (bs cs : List Bool) :
    polynomial (bs ++ cs) = polynomial bs * X ^ cs.length + polynomial cs := by
  induction bs with
  | nil => simp [polynomial]
  | cons b bs ih =>
    rw [List.cons_append, polynomial, polynomial, ih, List.length_append, pow_add]
    cases b <;> simp only [if_true, Bool.false_eq_true, if_false] <;> ring

theorem polynomial_zeros (n : Nat) : polynomial (List.replicate n false) = 0 := by
  induction n with
  | zero => rfl
  | succ n ih => simp [List.replicate_succ, polynomial, ih]

theorem polynomial_xor {bs cs : List Bool} (same : bs.length = cs.length) :
    polynomial (List.zipWith (· ^^ ·) bs cs) = polynomial bs + polynomial cs := by
  induction bs generalizing cs with
  | nil =>
    obtain rfl := List.length_eq_zero_iff.mp same.symm
    simp [polynomial]
  | cons b bs ih =>
    obtain ⟨c, cs, rfl⟩ := List.exists_cons_of_length_eq_add_one same.symm
    have same : bs.length = cs.length := Nat.succ.inj same
    have sum (b c : Bool) (n : Nat) : (if b ^^ c then X ^ n else 0 : (ZMod 2)[X]) =
        (if b then X ^ n else 0) + if c then X ^ n else 0 := by
      cases b <;> cases c <;> simp [CharTwo.add_self_eq_zero]
    rw [List.zipWith_cons_cons, polynomial, polynomial, polynomial, ih same, List.length_zipWith, same, Nat.min_self,
      sum]
    ring

theorem degree_polynomial (bs : List Bool) : (polynomial bs).degree < bs.length := by
  induction bs with
  | nil => simp [polynomial]
  | cons b bs ih =>
    have more : (bs.length : WithBot Nat) < (b :: bs).length := by exact_mod_cast Nat.lt_succ_self bs.length
    refine (degree_add_le _ _).trans_lt (max_lt ?_ (ih.trans more))
    cases b with
    | false => simp
    | true => simpa only [if_true, degree_X_pow] using more

theorem coeff_polynomial_cons (b : Bool) (bs : List Bool) :
    (polynomial (b :: bs)).coeff bs.length = if b then 1 else 0 := by
  rw [polynomial, coeff_add, coeff_eq_zero_of_degree_lt (degree_polynomial bs), add_zero]
  cases b <;> simp

theorem polynomial_injective {bs cs : List Bool} (same : bs.length = cs.length)
    (h : polynomial bs = polynomial cs) : bs = cs := by
  induction bs generalizing cs with
  | nil => exact (List.length_eq_zero_iff.mp same.symm).symm
  | cons b bs ih =>
    obtain ⟨c, cs, rfl⟩ := List.exists_cons_of_length_eq_add_one same.symm
    have same : bs.length = cs.length := Nat.succ.inj same
    have first : b = c := by
      have highest := congrArg (·.coeff bs.length) h
      rw [show (polynomial (c :: cs)).coeff bs.length = _ from same ▸ coeff_polynomial_cons c cs] at highest
      rw [show (polynomial (b :: bs)).coeff bs.length = _ from coeff_polynomial_cons b bs] at highest
      cases b <;> cases c <;> simp_all
    rw [polynomial, polynomial, first, same] at h
    rw [first, ih same (add_left_cancel h)]

def sent {w : Nat} (x : BitVec w) : List Bool := (List.range w).map x.getLsbD

theorem length_sent {w : Nat} (x : BitVec w) : (sent x).length = w := by
  rw [sent, List.length_map, List.length_range]

theorem sent_xor {w : Nat} (x y : BitVec w) : sent (x ^^^ y) = List.zipWith (· ^^ ·) (sent x) (sent y) := by
  simp [sent, List.zipWith_map, List.zipWith_self, BitVec.getLsbD_xor]

/-- The low part of a number is sent before the high part. -/
theorem sent_split {w n : Nat} (x : BitVec (w + n)) :
    sent x = sent (x.extractLsb' 0 w) ++ sent (x.extractLsb' w n) := by
  rw [sent, sent, sent, List.range_add, List.map_append, List.map_map]
  congr 1
  · refine List.map_congr_left fun i hi => ?_
    simp [List.mem_range.mp hi]
  · refine List.map_congr_left fun i hi => ?_
    simp [List.mem_range.mp hi]

theorem sent_zero (w : Nat) : sent (0 : BitVec w) = List.replicate w false := by
  rw [sent, List.eq_replicate_iff, List.length_map, List.length_range]
  simp

/-- The lowest bit of a number is the first that is sent. -/
theorem sent_succ {w : Nat} (x : BitVec (w + 1)) : sent x = x.getLsbD 0 :: sent (x.extractLsb' 1 w) := by
  rw [sent, sent, List.range_succ_eq_map, List.map_cons, List.map_map]
  refine congrArg _ (List.map_congr_left fun i hi => ?_)
  simp [List.mem_range.mp hi, Nat.add_comm]

theorem sent_shift {w : Nat} (x : BitVec (w + 1)) : sent (x >>> 1) = sent (x.extractLsb' 1 w) ++ [false] := by
  rw [sent, sent, List.range_succ, List.map_append]
  congr 1
  · refine List.map_congr_left fun i hi => ?_
    simp [List.mem_range.mp hi]
  · simp

theorem sent_injective {w : Nat} : Function.Injective (sent (w := w)) := by
  intro x y same
  refine BitVec.eq_of_getLsbD_eq fun i hi => ?_
  exact List.map_inj_left.mp same i (List.mem_range.mpr hi)

noncomputable def reflected {w : Nat} (x : BitVec w) : (ZMod 2)[X] := polynomial (sent x)

theorem reflected_xor {w : Nat} (x y : BitVec w) : reflected (x ^^^ y) = reflected x + reflected y := by
  rw [reflected, sent_xor, polynomial_xor ((length_sent x).trans (length_sent y).symm)]
  rfl

theorem reflected_zero (w : Nat) : reflected (0 : BitVec w) = 0 := by
  rw [reflected, sent_zero, polynomial_zeros]

/-- A number of more bits is sent longer. -/
theorem reflected_setWidth {w : Nat} (x : BitVec w) (n : Nat) :
    reflected (x.setWidth (w + n)) = reflected x * X ^ n := by
  have low : (x.setWidth (w + n)).extractLsb' 0 w = x := by
    refine BitVec.eq_of_getLsbD_eq fun i hi => ?_
    simp [hi, Nat.lt_add_right n hi]
  have high : (x.setWidth (w + n)).extractLsb' w n = 0 := by
    refine BitVec.eq_of_getLsbD_eq fun i hi => ?_
    simp
  rw [reflected, sent_split, low, high, sent_zero, polynomial_append, polynomial_zeros, List.length_replicate, add_zero]
  rfl

/-- A shift multiplies, but for the bit that leaves. -/
theorem reflected_shift {w : Nat} (x : BitVec (w + 1)) :
    reflected x * X = reflected (x >>> 1) + if x.getLsbD 0 then X ^ (w + 1) else 0 := by
  rw [reflected, reflected, sent_succ, sent_shift, polynomial_append, polynomial, length_sent]
  cases x.getLsbD 0 <;> simp [polynomial, pow_succ, add_mul, add_comm]

theorem degree_reflected {w : Nat} (x : BitVec w) : (reflected x).degree < w := by
  have below := degree_polynomial (sent x)
  rwa [length_sent] at below

theorem reflected_injective {w : Nat} : Function.Injective (reflected (w := w)) := fun x y same =>
  sent_injective (polynomial_injective ((length_sent x).trans (length_sent y).symm) same)

noncomputable def generator : (ZMod 2)[X] := X ^ 16 + X ^ 15 + X ^ 2 + 1

theorem generator_monic : generator.Monic := by
  unfold generator
  monicity!

theorem degree_generator : generator.degree = 16 := by
  unfold generator
  compute_degree!

/-- Polynomials up to multiples of the generator. -/
noncomputable def residue : (ZMod 2)[X] →+* AdjoinRoot generator := AdjoinRoot.mk generator

theorem residue_eq_iff (p q : (ZMod 2)[X]) : residue p = residue q ↔ generator ∣ p - q := by
  rw [residue, AdjoinRoot.mk_eq_mk]

theorem residue_generator : residue generator = 0 := by
  rw [residue, AdjoinRoot.mk_self]

/-- A number of as few bits as a checksum is the remainder of all that has the same residue. -/
theorem reflected_eq_mod {c : BitVec 16} {p : (ZMod 2)[X]} (h : residue (reflected c) = residue p) :
    reflected c = p % generator := by
  have small : (reflected c).degree < generator.degree := by
    rw [degree_generator]
    exact_mod_cast degree_reflected c
  rw [← modByMonic_eq_mod _ generator_monic, ← modByMonic_eq_of_dvd_sub generator_monic ((residue_eq_iff _ _).mp h),
    (modByMonic_eq_self_iff generator_monic).mpr small]

theorem eq_of_residue {c d : BitVec 16} (h : residue (reflected c) = residue (reflected d)) : c = d :=
  reflected_injective ((reflected_eq_mod h).trans (reflected_eq_mod rfl).symm)

/-- One bit is a step of the division: the generator is taken away if the bit that leaves asks for it. -/
theorem reflected_checksumBit (c : BitVec 16) :
    reflected c * X = reflected (checksumBit c) + if c.getLsbD 0 then generator else 0 := by
  have taps : reflected (0xA001 : BitVec 16) = X ^ 15 + X ^ 2 + 1 := by
    have bits : sent (0xA001 : BitVec 16) =
        true :: (List.replicate 12 false ++ true :: false :: [true]) := by decide
    rw [reflected, bits, polynomial, polynomial_append, polynomial_zeros]
    simp [polynomial, add_assoc]
  have parts : generator = X ^ 15 + X ^ 2 + 1 + X ^ 16 := by
    unfold generator
    ring
  rw [reflected_shift, checksumBit]
  cases c.getLsbD 0 with
  | false => rfl
  | true =>
    simp only [if_true]
    rw [reflected_xor, taps, parts, add_assoc, CharTwo.add_cancel_left]

theorem residue_checksumBits (n : Nat) (c : BitVec 16) :
    residue (reflected (Nat.repeat checksumBit n c)) = residue (reflected c * X ^ n) := by
  induction n with
  | zero => rw [pow_zero, mul_one, Nat.repeat]
  | succ n ih =>
    have step (c : BitVec 16) : residue (reflected (checksumBit c)) = residue (reflected c) * residue X := by
      rw [← map_mul, reflected_checksumBit, map_add]
      cases c.getLsbD 0 <;> simp [residue_generator]
    rw [Nat.repeat, step, ih, ← map_mul, pow_succ, mul_assoc]

theorem residue_checksumByte (c : BitVec 16) (b : BitVec 8) :
    residue (reflected (checksumByte c b)) = residue (reflected c * X ^ 8 + reflected b * X ^ 16) := by
  have joined : reflected (c ^^^ b.setWidth 16) = reflected c + reflected b * X ^ 8 := by
    rw [reflected_xor, reflected_setWidth b 8]
  rw [checksumByte, residue_checksumBits, joined]
  exact congrArg residue (by ring)

def ofBytes (initial : BitVec 16) (bytes : List (BitVec 8)) : BitVec 16 := bytes.foldl checksumByte initial

/-- The polynomial of some bytes, sent one after the other. -/
noncomputable def message (bytes : List (BitVec 8)) : (ZMod 2)[X] := polynomial (bytes.flatMap sent)

theorem message_cons (b : BitVec 8) (bytes : List (BitVec 8)) :
    message (b :: bytes) = reflected b * X ^ (8 * bytes.length) + message bytes := by
  have length : (bytes.flatMap sent).length = 8 * bytes.length := by
    simp [List.length_flatMap, length_sent, Nat.mul_comm]
  rw [message, List.flatMap_cons, polynomial_append, length]
  rfl

theorem message_xor {bytes bytes' : List (BitVec 8)} (same : bytes.length = bytes'.length) :
    message (List.zipWith (· ^^^ ·) bytes bytes') = message bytes + message bytes' := by
  induction bytes generalizing bytes' with
  | nil =>
    obtain rfl := List.length_eq_zero_iff.mp same.symm
    simp [message, polynomial]
  | cons b bytes ih =>
    obtain ⟨b', bytes', rfl⟩ := List.exists_cons_of_length_eq_add_one same.symm
    have same : bytes.length = bytes'.length := Nat.succ.inj same
    rw [List.zipWith_cons_cons, message_cons, message_cons, message_cons, ih same, List.length_zipWith, same,
      Nat.min_self, reflected_xor]
    ring

/-- The bytes of a checksum, the low one first, are its bits as they are sent. -/
theorem message_bytes (c : BitVec 16) : message [c.extractLsb' 0 8, c.extractLsb' 8 8] = reflected c := by
  rw [reflected, sent_split (w := 8) (n := 8) c]
  simp [message]

/-- A message is divided byte by byte. -/
theorem residue_ofBytes (initial : BitVec 16) (bytes : List (BitVec 8)) :
    residue (reflected (ofBytes initial bytes)) =
      residue (reflected initial * X ^ (8 * bytes.length) + message bytes * X ^ 16) := by
  induction bytes generalizing initial with
  | nil => simp [ofBytes, message, polynomial]
  | cons b bytes ih =>
    have first := residue_checksumByte initial b
    have rest : ofBytes initial (b :: bytes) = ofBytes (checksumByte initial b) bytes := rfl
    calc residue (reflected (ofBytes initial (b :: bytes)))
        = residue (reflected (checksumByte initial b)) * residue (X ^ (8 * bytes.length)) +
            residue (message bytes * X ^ 16) := by rw [rest, ih, map_add, map_mul]
      _ = residue ((reflected initial * X ^ 8 + reflected b * X ^ 16) * X ^ (8 * bytes.length) +
            message bytes * X ^ 16) := by rw [first, ← map_mul, ← map_add]
      _ = residue (reflected initial * X ^ (8 * (b :: bytes).length) + message (b :: bytes) * X ^ 16) := by
        rw [message_cons, List.length_cons]
        exact congrArg residue (by ring)

/-- Equal changes to what is sent change the checksum alike. -/
theorem ofBytes_xor {bytes bytes' : List (BitVec 8)} (same : bytes.length = bytes'.length) (x y : BitVec 16) :
    ofBytes (x ^^^ y) (List.zipWith (· ^^^ ·) bytes bytes') = ofBytes x bytes ^^^ ofBytes y bytes' := by
  refine eq_of_residue ?_
  rw [residue_ofBytes, reflected_xor, reflected_xor, message_xor same, map_add _ (reflected (ofBytes x bytes)),
    residue_ofBytes, residue_ofBytes, List.length_zipWith, same, Nat.min_self, ← map_add]
  exact congrArg residue (by ring)

/-- A checksum behind its own message takes it back to nothing. -/
theorem ofBytes_self (c : BitVec 16) : ofBytes c [c.extractLsb' 0 8, c.extractLsb' 8 8] = 0 := by
  refine eq_of_residue ?_
  have twice : reflected c * X ^ (8 * 2) + reflected c * X ^ 16 = 0 := CharTwo.add_self_eq_zero _
  rw [residue_ofBytes, message_bytes, reflected_zero]
  exact congrArg residue twice

def readBytes (bus : Bus σ) : (count : Nat) → Address → Machine σ → List (BitVec 8) × Machine σ
  | 0, _, m => ([], m)
  | count + 1, a, m =>
    let (v, m) := bus.load .byte a m
    let (bytes, m) := readBytes bus count (a + 1) m
    (v.setWidth 8 :: bytes, m)

theorem length_readBytes (bus : Bus σ) (count : Nat) (a : Address) (m : Machine σ) :
    (readBytes bus count a m).1.length = count := by
  induction count generalizing a m with
  | zero => rfl
  | succ count ih => exact congrArg (· + 1) (ih _ _)

def readRequests : Address → List (BitVec 8) → Transcript
  | _, [] => []
  | a, b :: bytes => .get .byte a (b.setWidth 32) :: readRequests (a + 1) bytes

theorem checksumMemory_eq (bus : Bus σ) (count : Nat) (a : Address) (c : BitVec 16) (m : Machine σ) :
    checksumMemory bus count a c m = (ofBytes c (readBytes bus count a m).1, (readBytes bus count a m).2) := by
  induction count generalizing a c m with
  | zero => rfl
  | succ count ih => exact ih _ _ _

/-- Each byte is asked for once. -/
theorem readBytes_recorded (bus : Bus σ) (count : Nat) (a : Address) (m : Machine (σ × Transcript)) :
    let x := readBytes bus count a (m.seen Prod.fst)
    readBytes bus.recorded count a m = (x.1, m.noting x.2 (readRequests a x.1)) := by
  induction count generalizing a m with
  | zero => exact congrArg (Prod.mk []) m.noting_nil.symm
  | succ count ih =>
    let first := bus.load .byte a (m.seen Prod.fst)
    let rest := readBytes bus count (a + 1) first.2
    let noted := m.noting first.2 [.get .byte a first.1]
    have later : readBytes bus.recorded count (a + 1) noted =
        (rest.1, noted.noting rest.2 (readRequests (a + 1) rest.1)) := ih (a + 1) noted
    have requests : readRequests a (first.1.setWidth 8 :: rest.1) =
        [.get .byte a first.1] ++ readRequests (a + 1) rest.1 := by
      rw [readRequests, show (first.1.setWidth 8).setWidth 32 = first.1 from Width.byte.truncate_truncate _]
      rfl
    calc readBytes bus.recorded (count + 1) a m
        = (first.1.setWidth 8 :: rest.1, noted.noting rest.2 (readRequests (a + 1) rest.1)) :=
          congrArg (fun y => (first.1.setWidth 8 :: y.1, y.2)) later
      _ = (first.1.setWidth 8 :: rest.1, m.noting rest.2 (readRequests a (first.1.setWidth 8 :: rest.1))) := by
        rw [Machine.noting_noting, requests]

/-- In a memory of bytes they are those at the addresses from the first on. -/
theorem readBytes_memory {M : ByteMemory σ ι} {bus : Bus σ} (h : M.Behind bus) (count : Nat) (a : Address)
    {m : Machine σ} (sound : M.sound m.system) :
    let x := readBytes bus count a m
    x.1 = (List.range count).map (fun i => M.byte m.system (M.place (a + BitVec.ofNat 32 i))) ∧
      M.Same m.system x.2.system ∧ x.2.cpu = m.cpu := by
  induction count generalizing a m with
  | zero => exact ⟨rfl, ⟨sound, rfl⟩, rfl⟩
  | succ count ih =>
    intro x
    obtain ⟨same, cpu, value⟩ := h.load sound .byte a
    obtain ⟨rest, same', cpu'⟩ := ih (a + 1) same.sound
    have lowest : (bus.load .byte a m).1.setWidth 8 = M.byte m.system (M.place a) := by
      have byte := value 0 (by decide)
      rwa [M.unit_zero, ByteMemory.align_byte] at byte
    have next (i : Nat) : a + 1 + BitVec.ofNat 32 i = a + BitVec.ofNat 32 (i + 1) := by
      rw [BitVec.add_assoc, BitVec.ofNat_add, BitVec.add_comm 1]
      rfl
    refine ⟨?_, same.trans same', cpu'.trans cpu⟩
    rw [List.range_succ_eq_map, List.map_cons, List.map_map, BitVec.add_zero]
    refine congrArg₂ List.cons lowest (rest.trans ?_)
    rw [same.byte]
    exact List.map_congr_left fun i _ => congrArg (fun p => M.byte m.system (M.place p)) (next i)

/-- What a call comes to, once its bytes are read: their checksum is in a register. -/
def answer (r : LowRegister) (initial : BitVec 16) (x : List (BitVec 8) × Machine σ) : Machine σ :=
  (result r ((ofBytes initial x.1).setWidth 32) x.2).note .trace ("Emulated BIOS call 0x" ++ Text.hexPadded 2 0x0E)

theorem call_checksum (bus : Bus σ) (m : Machine σ) :
    call bus 0x0E m =
      .ok true (answer 0 ((m.reg 0).setWidth 16) (readBytes bus (m.reg 2).toNat (m.reg 1) m)) := by
  have run := checksumMemory_eq bus (m.reg 2).toNat (m.reg 1) ((m.reg 0).setWidth 16) m
  exact congrArg
    (fun x : BitVec 16 × Machine σ => EStateM.Result.ok true ((result 0 (x.1.setWidth 32) x.2).note _ _)) run

/-- A result can be read from its register. -/
theorem reg_result (r : LowRegister) (v : Word) (m : Machine σ) : (result r v m).reg r.wide = v := by
  have plain := Thumb.wide_ne_pc r
  show (m.cpu.regs.write r.wide v).read r.wide = v
  rw [← Registers.put_mode plain, Registers.read, (Registers.put_same _ _ _ _).2.2.2, Registers.readAs_put_self plain]

end Firmware.Checksum

open Firmware Checksum in
/-- A checksum of bytes is the remainder of what went before it, moved up by the length of the message, and the message,
moved up by the sixteen places of the checksum. It is linear, comes to nothing with its own bytes behind its message,
and can be taken in parts. A call takes it of as many bytes as are asked for, each of which is read once and in order;
in a memory these are the bytes of the addresses from the first on, and nothing but the result is written. -/
theorem checksum_remainder (bus : Bus σ) (m : Machine σ) :
    (∀ initial bytes, reflected (ofBytes initial bytes) =
      (reflected initial * X ^ (8 * bytes.length) + message bytes * X ^ 16) % generator) ∧
    (∀ x y bytes bytes', bytes.length = bytes'.length →
      ofBytes (x ^^^ y) (List.zipWith (· ^^^ ·) bytes bytes') = ofBytes x bytes ^^^ ofBytes y bytes') ∧
    (∀ initial bytes, let c := ofBytes initial bytes
      ofBytes initial (bytes ++ [c.extractLsb' 0 8, c.extractLsb' 8 8]) = 0) ∧
    (∀ initial bytes bytes', ofBytes initial (bytes ++ bytes') = ofBytes (ofBytes initial bytes) bytes') ∧
    ∃ m' bytes, bytes.length = (m.reg 2).toNat ∧ call bus 0x0E m = .ok true m' ∧
      call bus.recorded 0x0E (m.recording []) = .ok true (m'.recording (readRequests (m.reg 1) bytes)) ∧
      m'.reg 0 = (ofBytes ((m.reg 0).setWidth 16) bytes).setWidth 32 ∧
      ∀ {ι : Type} (M : ByteMemory σ ι), M.Behind bus → M.sound m.system →
        bytes = (List.range (m.reg 2).toNat).map (fun i => M.byte m.system (M.place (m.reg 1 + BitVec.ofNat 32 i))) ∧
        M.Same m.system m'.system ∧ m'.cpu = m.cpu.mapRegs (·.write 0 (m'.reg 0)) := by
  refine ⟨fun initial bytes => reflected_eq_mod (residue_ofBytes initial bytes),
    fun x y _ _ same => ofBytes_xor same x y, fun initial bytes => ?_, fun _ _ _ => List.foldl_append, ?_⟩
  · exact List.foldl_append.trans (ofBytes_self (ofBytes initial bytes))
  · let x := readBytes bus (m.reg 2).toNat (m.reg 1) m
    let initial : BitVec 16 := (m.reg 0).setWidth 16
    let v : Word := (ofBytes initial x.1).setWidth 32
    have recorded := readBytes_recorded bus (m.reg 2).toNat (m.reg 1) (m.recording [])
    have shown : (answer 0 initial x).reg 0 = v := reg_result 0 v x.2
    refine ⟨answer 0 initial x, x.1, length_readBytes .., call_checksum bus m, ?_, shown, fun M behind sound => ?_⟩
    · rw [call_checksum]
      exact congrArg (fun y => EStateM.Result.ok true (answer 0 initial y)) recorded
    · obtain ⟨bytes, same, cpu⟩ := readBytes_memory behind (m.reg 2).toNat (m.reg 1) sound
      refine ⟨bytes, same, ?_⟩
      rw [shown]
      exact congrArg (fun p : Processor => p.mapRegs (·.write 0 v)) cpu

/-- A machine about to call for the checksum of the nine digits at 0, with all ones before them. -/
def counted : Machine FlatMemory where
  cpu := (Processor.powerOn .v4).mapRegs fun f =>
    (f.write (Thumb.register 0 0).wide 0xFFFF).write (Thumb.register 2 0).wide 9
  system := { ram := ⟨#[0x31, 0x32, 0x33, 0x34, 0x35, 0x36, 0x37, 0x38, 0x39, 0, 0, 0, 0, 0, 0, 0]⟩ }
  journal := #[]

open Firmware Checksum in
/-- Their checksum, and a change to the last two of them. -/
theorem counted_sums :
    let M := FlatMemory.bytes (2 ^ 4)
    let bus := FlatMemory.evenBus .v4
    M.Behind bus ∧ M.sound counted.system ∧ (∃ m', call bus 0x0E counted = .ok true m' ∧ m'.reg 0 = 0x4B37) ∧
      [0x38#8, 0x39#8].length = [0#8, 1#8].length ∧
      ofBytes (0x1234 ^^^ 0) (List.zipWith (· ^^^ ·) [0x38, 0x39] [0, 1]) =
        ofBytes 0x1234 [0x38, 0x39] ^^^ ofBytes 0 [0, 1] := by
  intro M bus
  have behind : M.Behind bus := FlatMemory.bytes_behind (by decide) _ _
  have sound : M.sound counted.system := rfl
  obtain ⟨-, linear, -, -, m', bytes, -, run, -, shown, memory⟩ := checksum_remainder bus counted
  obtain ⟨digits, -, -⟩ := memory M behind sound
  refine ⟨behind, sound, ⟨m', run, shown.trans ?_⟩, rfl, linear 0x1234 0 _ _ rfl⟩
  rw [digits]
  decide +kernel

end Lockstep
