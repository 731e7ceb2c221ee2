import Lockstep.Proofs.Frame
import Lockstep.Proofs.Transcript
import Mathlib.Algebra.GroupWithZero.Nat

/-!
Memory moved by the firmware, as it is seen on the bus. Each unit is read and then written, upwards from the first; to
fill memory the first unit alone is read, and is written to all the places. The value to fill with is asked for before
anything else, so that a copy begins with a read of its first unit that it has no use for, and so does a move of
nothing at all.
-/

namespace Lockstep

variable {σ : Type}

theorem Width.truncate_truncate (w : Width) (v : Word) : w.truncate (w.truncate v) = w.truncate v := by
  cases w with
  | word => rfl
  | byte | half => exact congrArg (BitVec.setWidth 32) (BitVec.setWidth_setWidth_of_le _ (by decide))

namespace Firmware

structure MemoryMove where
  width : Width
  count : Nat
  filling : Bool
  src : Address
  dst : Address

namespace MemoryMove

/-- What the arguments of a call ask for. A move of blocks is one of words, and its count is rounded up to blocks of
eight. -/
def ofArguments (blocks : Bool) (src dst control : Word) : MemoryMove :=
  let width : Width := if blocks || control.getLsbD 26 then .word else .half
  { width
    count := if blocks then (control.toNat % 2 ^ 21 + 7) / 8 * 8 else control.toNat % 2 ^ 21
    filling := control.getLsbD 24
    src := width.align src
    dst := width.align dst }

variable (t : MemoryMove)

def source (i : Nat) : Address := t.src + BitVec.ofNat 32 (i * t.width.bytes)

def target (i : Nat) : Address := t.dst + BitVec.ofNat 32 (i * t.width.bytes)

theorem source_succ (i : Nat) : t.source (i + 1) = t.source i + BitVec.ofNat 32 t.width.bytes := by
  rw [source, source, Nat.succ_mul, BitVec.ofNat_add, BitVec.add_assoc]

theorem target_succ (i : Nat) : t.target (i + 1) = t.target i + BitVec.ofNat 32 t.width.bytes := by
  rw [target, target, Nat.succ_mul, BitVec.ofNat_add, BitVec.add_assoc]

theorem source_zero : t.source 0 = t.src := by
  rw [source, Nat.zero_mul, BitVec.add_zero]

theorem target_zero : t.target 0 = t.dst := by
  rw [target, Nat.zero_mul, BitVec.add_zero]

end MemoryMove

def moveNumber (blocks : Bool) : BitVec 8 := if blocks then 0x0C else 0x0B

theorem unitCount_eq (control : Word) : unitCount control = control.toNat % 2 ^ 21 := by
  rw [unitCount, BitVec.extractLsb'_toNat, Nat.shiftRight_zero]

theorem moveMemory_eq (bus : Bus σ) (m : Machine σ) :
    let t := MemoryMove.ofArguments false (m.reg 0) (m.reg 1) (m.reg 2)
    moveMemory bus m = moveUnits bus t.width t.count t.filling m := by
  rw [moveMemory, unitCount_eq]
  rfl

theorem moveBlocks_eq (bus : Bus σ) (m : Machine σ) :
    let t := MemoryMove.ofArguments true (m.reg 0) (m.reg 1) (m.reg 2)
    moveBlocks bus m = moveUnits bus t.width t.count t.filling m := by
  rw [moveBlocks, unitCount_eq, Nat.mul_comm 8]
  rfl

/-- A call to move memory is carried out. -/
theorem call_move (bus : Bus σ) (blocks : Bool) (m : Machine σ) :
    let t := MemoryMove.ofArguments blocks (m.reg 0) (m.reg 1) (m.reg 2)
    ∃ text, call bus (moveNumber blocks) m =
      .ok true ((moveUnits bus t.width t.count t.filling m).note .trace text) := by
  cases blocks with
  | true => exact ⟨_, congrArg (fun m' : Machine σ => EStateM.Result.ok true (m'.note _ _)) (moveBlocks_eq bus m)⟩
  | false => exact ⟨_, congrArg (fun m' : Machine σ => EStateM.Result.ok true (m'.note _ _)) (moveMemory_eq bus m)⟩

/-- The unit at some place is copied before those after it. -/
theorem copyUnits_copy (bus : Bus σ) (t : MemoryMove) (n i : Nat) (m : Machine σ) :
    let x := bus.load t.width (t.source i) m
    copyUnits bus t.width none (n + 1) (t.source i) (t.target i) m =
      copyUnits bus t.width none n (t.source (i + 1)) (t.target (i + 1)) (bus.store t.width (t.target i) x.1 x.2) := by
  rw [t.source_succ, t.target_succ]
  rfl

theorem copyUnits_fill (bus : Bus σ) (t : MemoryMove) (v : Word) (n i : Nat) (m : Machine σ) :
    copyUnits bus t.width (some v) (n + 1) (t.source i) (t.target i) m =
      copyUnits bus t.width (some v) n (t.source (i + 1)) (t.target (i + 1)) (bus.store t.width (t.target i) v m) := by
  rw [t.source_succ, t.target_succ]
  rfl

namespace MemoryMove

variable (t : MemoryMove)

def copying (vs : List Word) (first : Nat) : Transcript :=
  (vs.zipIdx first).flatMap fun (v, i) => [.get t.width (t.source i) v, .set t.width (t.target i) v]

theorem length_copying (vs : List Word) (first : Nat) : (t.copying vs first).length = 2 * vs.length := by
  simp [copying, List.length_flatMap, List.map_const', Nat.mul_comm]

def storing (v : Word) (n first : Nat) : Transcript :=
  (List.range' first n).map fun i => .set t.width (t.target i) v

/-- What moves memory, and no more. -/
def Needs (r : Transcript) : Prop :=
  if t.filling then
    ∃ v, r = (if t.count = 0 then [] else [.get t.width (t.source 0) v]) ++ t.storing v t.count 0
  else ∃ vs, vs.length = t.count ∧ r = t.copying vs 0

/-- What is asked for before. It is of use only if the unit is to fill something. -/
def Strays (r : Transcript) : Prop :=
  if t.filling = true ∧ 0 < t.count then r = [] else ∃ v, r = [.get t.width (t.source 0) v]

end MemoryMove

variable (bus : Bus σ)

theorem recorded_load (w : Width) (a : Address) (m : Machine (σ × Transcript)) :
    (bus.recorded.load w a m).2.system.2 = m.system.2 ++ [.get w a (bus.recorded.load w a m).1] := rfl

theorem recorded_store (w : Width) (a : Address) (v : Word) (m : Machine (σ × Transcript)) :
    (bus.recorded.store w a v m).system.2 = m.system.2 ++ [.set w a (w.truncate v)] := rfl

/-- Copying asks for each unit once. -/
theorem copyUnits_copying (t : MemoryMove) (n i : Nat) (m : Machine (σ × Transcript)) :
    ∃ vs, vs.length = n ∧ (copyUnits bus.recorded t.width none n (t.source i) (t.target i) m).system.2 =
      m.system.2 ++ t.copying vs i := by
  induction n generalizing i m with
  | zero => exact ⟨[], rfl, (List.append_nil _).symm⟩
  | succ n ih =>
    let x := bus.recorded.load t.width (t.source i) m
    obtain ⟨vs, length, later⟩ := ih (i + 1) (bus.recorded.store t.width (t.target i) x.1 x.2)
    have kept : t.width.truncate x.1 = x.1 := t.width.truncate_truncate _
    refine ⟨x.1 :: vs, congrArg (· + 1) length, ?_⟩
    rw [copyUnits_copy, later, recorded_store, recorded_load, kept]
    simp [MemoryMove.copying, x]

/-- Filling asks for nothing but its writes. -/
theorem copyUnits_storing (t : MemoryMove) {v : Word} (kept : t.width.truncate v = v) (n i : Nat)
    (m : Machine (σ × Transcript)) :
    (copyUnits bus.recorded t.width (some v) n (t.source i) (t.target i) m).system.2 =
      m.system.2 ++ t.storing v n i := by
  induction n generalizing i m with
  | zero => exact (List.append_nil _).symm
  | succ n ih =>
    rw [copyUnits_fill, ih, recorded_store, kept, MemoryMove.storing, MemoryMove.storing, List.range'_succ]
    simp

/-- A move asks for what it needs, after a read that may be of no use. -/
theorem moveUnits_asks (blocks : Bool) (m : Machine (σ × Transcript)) :
    let t := MemoryMove.ofArguments blocks (m.reg 0) (m.reg 1) (m.reg 2)
    ∃ stray needed, t.Strays stray ∧ t.Needs needed ∧
      (moveUnits bus.recorded t.width t.count t.filling m).system.2 = m.system.2 ++ (stray ++ needed) := by
  intro t
  let x := bus.recorded.load t.width (t.source 0) m
  have kept : t.width.truncate x.1 = x.1 := t.width.truncate_truncate _
  have run : moveUnits bus.recorded t.width t.count t.filling m =
      (copyUnits bus.recorded t.width (if t.filling then some x.1 else none) t.count (t.source 0) (t.target 0) x.2).idle
        (2 * t.count) := by
    simp only [x, t.source_zero, t.target_zero]
    rfl
  have first : x.2.system.2 = m.system.2 ++ [.get t.width (t.source 0) x.1] := recorded_load ..
  rw [run]
  cases filling : t.filling with
  | false =>
    obtain ⟨vs, length, later⟩ := copyUnits_copying bus t t.count 0 x.2
    refine ⟨[.get t.width (t.source 0) x.1], t.copying vs 0, ?_, ?_, ?_⟩
    · simp [MemoryMove.Strays, filling]
    · simp only [MemoryMove.Needs, filling, Bool.false_eq_true, if_false]
      exact ⟨vs, length, rfl⟩
    · rw [← List.append_assoc, ← first]
      exact later
  | true =>
    have later := copyUnits_storing bus t kept t.count 0 x.2
    rw [first, List.append_assoc] at later
    by_cases none : t.count = 0
    · refine ⟨[.get t.width (t.source 0) x.1], t.storing x.1 t.count 0, ?_, ?_, later⟩
      · simp [MemoryMove.Strays, none]
      · simp only [MemoryMove.Needs, filling, none, if_true]
        exact ⟨x.1, rfl⟩
    · refine ⟨[], [Request.get t.width (t.source 0) x.1] ++ t.storing x.1 t.count 0, ?_, ?_, later⟩
      · simp [MemoryMove.Strays, filling, Nat.pos_of_ne_zero none]
      · simp only [MemoryMove.Needs, filling, none, if_true, if_false]
        exact ⟨x.1, rfl⟩

end Firmware

open Firmware in
/-- On every system a call to move memory asks for what moves it: in a copy the read and the write of each unit in turn,
and to fill memory one read, unless there is nothing to fill, and the writes. Before these it asks for the first unit
once more, unless that is to fill something. -/
theorem moves_seen (bus : Bus σ) (blocks : Bool) (m : Machine σ) :
    let t := MemoryMove.ofArguments blocks (m.reg 0) (m.reg 1) (m.reg 2)
    ∃ m' stray needed, call bus (moveNumber blocks) m = .ok true m' ∧
      call bus.recorded (moveNumber blocks) (m.recording []) = .ok true (m'.recording (stray ++ needed)) ∧
      t.Strays stray ∧ t.Needs needed := by
  intro t
  obtain ⟨stray, needed, strays, needs, asked⟩ := moveUnits_asks bus blocks (m.recording [])
  obtain ⟨text, run⟩ := call_move bus.recorded blocks (m.recording [])
  generalize moveUnits bus.recorded _ _ _ (m.recording []) = n at run asked
  have record : n = (n.seen Prod.fst).recording (stray ++ needed) := by
    have asked : n.system.2 = stray ++ needed := asked
    rw [← asked]
    rfl
  refine ⟨(n.note .trace text).seen Prod.fst, stray, needed, ?_, ?_, strays, needs⟩
  · exact (call_seen bus.recorded_shows _).of_recording run
  · rw [run, record]
    rfl

/-- A machine about to move some halves from 0, where 0x1234 is, to 4. -/
def moving (count : Word) : Machine FlatMemory where
  cpu := (Processor.powerOn .v4).mapRegs fun f =>
    (f.write (Thumb.register 1 0).wide 4).write (Thumb.register 2 0).wide count
  system := { ram := ⟨#[0x34, 0x12, 0, 0, 0, 0, 0, 0]⟩ }
  journal := #[]

open Firmware in
/-- A copy of one half reads it twice, and a copy of nothing reads a half as well. -/
theorem moving_strays :
    let seen (count : Word) :=
      ((call (FlatMemory.evenBus .v4).recorded (moveNumber false)).final ((moving count).recording [])).system.2
    let asked (count : Word) :=
      MemoryMove.ofArguments false ((moving count).reg 0) ((moving count).reg 1) ((moving count).reg 2)
    seen 1 = [.get .half 0 0x1234, .get .half 0 0x1234, .set .half 4 0x1234] ∧ seen 0 = [.get .half 0 0x1234] ∧
      ¬ (asked 1).Needs (seen 1) ∧ ¬ (asked 0).Needs (seen 0) := by
  intro seen asked
  have one : seen 1 = [.get .half 0 0x1234, .get .half 0 0x1234, .set .half 4 0x1234] := by decide +kernel
  have none : seen 0 = [.get .half 0 0x1234] := by decide +kernel
  have short {t : MemoryMove} {r : Transcript} (copy : t.filling = false) (needs : t.Needs r) :
      r.length = 2 * t.count := by
    simp only [MemoryMove.Needs, copy, Bool.false_eq_true, if_false] at needs
    obtain ⟨vs, length, rfl⟩ := needs
    rw [t.length_copying, length]
  refine ⟨one, none, fun needs => ?_, fun needs => ?_⟩
  · have length := short (by decide) needs
    rw [one] at length
    exact absurd length (by decide)
  · have length := short (by decide) needs
    rw [none] at length
    exact absurd length (by decide)

end Lockstep
