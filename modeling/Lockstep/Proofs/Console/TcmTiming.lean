import Lockstep.Proofs.Console.Derived

/-!
The time of the tightly coupled memories. An access of the ARM9 is timed by its address as it is, and carried
out at that address rounded down. Both come to the same: an access takes the one cycle of a tightly coupled
memory just if one of them answers it, since no window begins or ends inside a word.
-/

namespace Lockstep

-- Buffers filled with one byte tell a memory that answers from one that does not.

namespace ByteBuffer

/-- A buffer of one byte over and over, that an offset and the bytes after it lie in. -/
def filled (offset : Nat) (x : UInt8) : ByteArray := ⟨Array.replicate (2 ^ (offset + 2)) x⟩

theorem size_filled (offset : Nat) (x : UInt8) : (filled offset x).size = 2 ^ (offset + 2) := Array.size_replicate

theorem inside_filled (offset : Nat) (x : UInt8) (w : Width) : offset + w.bytes ≤ (filled offset x).size := by
  have room : offset + 4 ≤ 2 ^ (offset + 2) := by
    rw [Nat.pow_succ, Nat.pow_succ]
    have := Nat.lt_two_pow_self (n := offset)
    omega
  rw [size_filled]
  exact Nat.le_trans (Nat.add_le_add_left w.bytes_le offset) room

theorem byteAt_filled (offset : Nat) (x : UInt8) {p : Nat} (h : p < (filled offset x).size) :
    byteAt (filled offset x) p = x.toBitVec := by
  unfold byteAt
  rw [dif_pos h]
  exact congrArg UInt8.toBitVec (Array.getElem_replicate _)

theorem placeOf_filled (offset : Nat) (x : UInt8) (w : Width) : placeOf (filled offset x) offset = offset := by
  have inside := inside_filled offset x w
  have := w.bytes_pos
  unfold placeOf
  rw [size_filled] at inside ⊢
  rw [Nat.and_two_pow_sub_one_eq_mod, Nat.mod_eq_of_lt (by omega)]

theorem readRepeated_filled (offset : Nat) (x : UInt8) (w : Width) :
    (readRepeated (filled offset x) offset w).toNat % 256 = x.toNat := by
  have inside := inside_filled offset x w
  obtain ⟨n, bytes⟩ : ∃ n, w.bytes = n + 1 := ⟨w.bytes - 1, (Nat.sub_add_cancel w.bytes_pos).symm⟩
  have first := byteAt_filled offset x (p := offset) (by omega)
  unfold readRepeated read?
  rw [placeOf_filled offset x w, if_pos inside, Option.getD_some, toNat_gather _ _ w.bytes_le, bytes,
    List.range_succ_eq_map, List.map_cons, Nat.ofDigits_cons, Nat.add_zero, first, Nat.add_mul_mod_self_left]
  exact Nat.mod_eq_of_lt x.toBitVec.isLt

theorem byteAt_writeRepeated_filled (offset : Nat) (x : UInt8) (w : Width) (v : Word) :
    byteAt (writeRepeated (filled offset x) offset w v) offset = v.extractLsb' 0 8 := by
  have inside := inside_filled offset x w
  have here : offset ≤ offset ∧ offset < offset + w.bytes := ⟨Nat.le_refl _, Nat.lt_add_of_pos_right w.bytes_pos⟩
  unfold writeRepeated write
  rw [placeOf_filled offset x w, if_pos inside, byteAt_scatter inside, if_pos here, Nat.sub_self]

end ByteBuffer

namespace Console

variable {δ : Type}

/-- A tightly coupled memory answers the accesses of a width to an address: a read yields what the memory
holds at some offset and a write stores there, and nothing else happens, whatever the memory holds. -/
def Tcm.Answers (devices : Devices δ) (s : SystemControl) (write : Bool) (w : Width) (a : Address) (t : Tcm) :
    Prop :=
  ∃ offset, ∀ m : Node δ, m.system.control = s →
    if write then
      ∀ v, (Board.bus devices .arm9).set w a v m = m.mapSystem (·.mapMemory (·.write (.tcm t) offset w v))
    else (Board.bus devices .arm9).get w a m = (m.system.memory.read (.tcm t) offset w, m)

def Memory.withTcm (b : ByteArray) (m : Memory) : Memory := { m with instructionTcm := b, dataTcm := b }

theorem Memory.bytes_withTcm (b : ByteArray) (m : Memory) (t : Tcm) : (m.withTcm b).bytes (.tcm t) = b := by
  cases t <;> rfl

namespace Node

variable {devices : Devices δ}

/-- What reads as nothing does not depend on the console. -/
theorem readNothing_fst (id : ProcessorId) (w : Width) (a : Address) (m m' : Node δ) :
    (readNothing id w a m).1 = (readNothing id w a m').1 := by
  unfold readNothing
  simp only
  split <;> rfl

theorem readIo_mapMemory (id : ProcessorId) (w : Width) (a : Address) (f : Memory → Memory) (m : Node δ) :
    (readIo devices id w a (m.mapSystem (·.mapMemory f))).1 = (readIo devices id w a m).1 := by
  unfold readIo
  simp only
  cases CoreWord.ofAddress? (Lane.wordOf a) with
  | some r => cases r <;> rfl
  | none =>
    have called : (readDevice devices id (Lane.wordOf a) (m.mapSystem (·.mapMemory f))).1 =
        (readDevice devices id (Lane.wordOf a) m).1 := rfl
    revert called
    generalize readDevice devices id (Lane.wordOf a) (m.mapSystem (·.mapMemory f)) = left
    generalize readDevice devices id (Lane.wordOf a) m = right
    rcases left with ⟨_ | v, m₁⟩ <;> rcases right with ⟨_ | v', m₂⟩ <;> rintro ⟨⟩ <;> rfl

theorem readVideo_mapMemory (id : ProcessorId) (w : Width) (a : Address) (f : Memory → Memory) (m : Node δ) :
    (readVideo devices id w a (m.mapSystem (·.mapMemory f))).1 = (readVideo devices id w a m).1 := rfl

variable {p : Place} (elsewhere : ∀ t offset, p ≠ .memory (.tcm t) offset)
include elsewhere

/-- A read from elsewhere does not see the tightly coupled memories. -/
theorem readPlace_withTcm (w : Width) (a : Address) (b : ByteArray) (m : Node δ) :
    (readPlace devices .arm9 w a p (m.mapSystem (·.mapMemory (·.withTcm b)))).1 =
      (readPlace devices .arm9 w a p m).1 := by
  cases p with
  | memory r offset =>
    cases r with
    | tcm t => exact absurd rfl (elsewhere t offset)
    | main | shared | private7 => rfl
  | firmware offset =>
    have same : firmware .arm9 (m.mapSystem (·.mapMemory (·.withTcm b))) = firmware .arm9 m := rfl
    simp only [readPlace, same]
    cases ByteBuffer.read? (firmware .arm9 m) offset w with
    | some v => rfl
    | none => exact readNothing_fst ..
  | io => exact readIo_mapMemory ..
  | video =>
    have called : (readVideo devices .arm9 w a (m.mapSystem (·.mapMemory (·.withTcm b)))).1 =
        (readVideo devices .arm9 w a m).1 := readVideo_mapMemory ..
    unfold readPlace
    simp only
    revert called
    generalize readVideo devices .arm9 w a (m.mapSystem (·.mapMemory (·.withTcm b))) = left
    generalize readVideo devices .arm9 w a m = right
    rcases left with ⟨_ | v, m₁⟩ <;> rcases right with ⟨_ | v', m₂⟩ <;> rintro ⟨⟩
    · exact readNothing_fst ..
    · rfl
  | nothing => exact readNothing_fst ..

/-- A write to elsewhere leaves the tightly coupled memories alone. -/
theorem writePlace_tcm (w : Width) (a : Address) (v : Word) (t : Tcm) (m : Node δ) :
    (writePlace devices .arm9 w a v p m).system.memory.bytes (.tcm t) = m.system.memory.bytes (.tcm t) := by
  cases p with
  | memory r offset =>
    have apart : Memory.Region.tcm t ≠ r := fun same => elsewhere t offset (by rw [same])
    exact (Memory.bytes_write ..).trans (if_neg apart)
  | firmware | io | video | nothing =>
    refine congrArg (·.bytes (.tcm t)) ((io_keeps devices .arm9).calls.writePlace w a v (fun _ _ => ?_) m).1
    exact Place.noConfusion

end Node

/-- A tightly coupled memory answers just where the memory map leads to one. -/
theorem Tcm.answers_iff (devices : Devices δ) (write : Bool) (w : Width) (a : Address) (m : Node δ) :
    (∃ t, Answers devices m.system.control write w a t) ↔
      ∃ t offset, Place.of .arm9 write m.system.control (w.align a) = .memory (.tcm t) offset := by
  constructor
  · rintro ⟨t, offset, answers⟩
    by_contra none
    have elsewhere : ∀ t offset, Place.of .arm9 write m.system.control (w.align a) ≠ .memory (.tcm t) offset :=
      fun t offset place => none ⟨t, offset, place⟩
    -- the machine with its tightly coupled memories filled: they are not looked at, and nothing is stored there
    let full (x : UInt8) : Node δ := m.mapSystem (·.mapMemory (·.withTcm (ByteBuffer.filled offset x)))
    have bytes (x : UInt8) : (full x).system.memory.bytes (.tcm t) = ByteBuffer.filled offset x :=
      Memory.bytes_withTcm _ _ t
    cases write with
    | false =>
      have value (x : UInt8) : (Node.readPlace devices .arm9 w (w.align a)
          (.of .arm9 false m.system.control (w.align a)) m).1.toNat % 256 = x.toNat := by
        have read : (Board.bus devices .arm9).get w a (full x) = (_, full x) := answers (full x) rfl
        rw [← Node.readPlace_withTcm elsewhere w (w.align a) (ByteBuffer.filled offset x) m]
        have := ByteBuffer.readRepeated_filled offset x w
        rw [← bytes x] at this
        rw [bus_get] at read
        exact (congrArg (fun p => p.1.toNat % 256) read).trans this
      exact absurd ((value 0).symm.trans (value 1)) (by decide)
    | true =>
      have stored : (Board.bus devices .arm9).set w a 1 (full 0) =
          (full 0).mapSystem (·.mapMemory (·.write (.tcm t) offset w 1)) := answers (full 0) rfl 1
      have kept : ((Board.bus devices .arm9).set w a 1 (full 0)).system.memory.bytes (.tcm t) =
          ByteBuffer.filled offset 0 := by
        rw [bus_set]
        exact (Node.writePlace_tcm elsewhere ..).trans (bytes 0)
      have changed : ((Board.bus devices .arm9).set w a 1 (full 0)).system.memory.bytes (.tcm t) =
          ByteBuffer.writeRepeated (ByteBuffer.filled offset 0) offset w 1 := by
        rw [stored, ← bytes 0]
        exact (Memory.bytes_write ..).trans (if_pos rfl)
      have first := ByteBuffer.byteAt_writeRepeated_filled offset 0 w 1
      have inside := ByteBuffer.inside_filled offset 0 w
      rw [← changed, kept, ByteBuffer.byteAt_filled offset 0 (by have := w.bytes_pos; omega)] at first
      exact absurd first (by decide)
  · rintro ⟨t, offset, place⟩
    refine ⟨t, offset, ?_⟩
    rintro m' same
    cases write with
    | false =>
      rw [if_neg Bool.false_ne_true, bus_get, same, place]
      rfl
    | true =>
      intro v
      rw [bus_set, same, place]
      rfl

theorem Place.ofBus_ne_tcm (id : ProcessorId) (a : Address) (t : Tcm) (offset : Nat) :
    ofBus id a ≠ .memory (.tcm t) offset := by
  intro place
  by_cases main : a.toNat / 2 ^ 24 = 2
  · rw [ofBus_main id main] at place
    cases place
  · by_cases work : a.toNat / 2 ^ 24 = 3
    · rw [ofBus_work id work, workRegion] at place
      split_ifs at place
      all_goals cases place
    · have none := ofBus_other id main work 0
      rw [place] at none
      cases none

namespace SystemControl

variable {s : SystemControl} (h : s.moveWindows = s) (write : Bool) (w : Width) (a : Address)
include h

theorem of_tcm_iff : (∃ t offset, Place.of .arm9 write s a = .memory (.tcm t) offset) ↔
    ∃ t, s.opens write t ∧ s.Covers t a := by
  rw [Place.of_arm9 h]
  constructor
  · rintro ⟨t, offset, place⟩
    split_ifs at place with instruction data
    · exact ⟨_, instruction⟩
    · exact ⟨_, data⟩
    · exact absurd place (Place.ofBus_ne_tcm .arm9 a t offset)
  · rintro ⟨t, open_⟩
    split_ifs with instruction data
    · exact ⟨_, _, rfl⟩
    · exact ⟨_, _, rfl⟩
    · cases t
      · exact absurd open_ data
      · exact absurd open_ instruction

theorem hit_iff :
    (if write then s.writeHit? a else s.readHit? a).isSome ↔ ∃ t, s.opens write t ∧ s.Covers t a := by
  have hit : (if write then s.writeHit? a else s.readHit? a) =
      if s.opens write .instruction ∧ s.Covers .instruction a then
        some (.instruction, (a - s.start .instruction).toNat)
      else if s.opens write .data ∧ s.Covers .data a then some (.data, (a - s.start .data).toNat)
      else none := by
    cases write with
    | false =>
      show s.readHit? a = _
      unfold readHit?
      rw [hit?_eq h fun t => usable_eq h false t]
    | true =>
      show s.writeHit? a = _
      unfold writeHit?
      rw [hit?_eq h fun t => usable_eq h true t]
  rw [hit]
  constructor
  · intro found
    split_ifs at found with instruction data
    · exact ⟨_, instruction⟩
    · exact ⟨_, data⟩
    · cases found
  · rintro ⟨t, open_⟩
    split_ifs with instruction data
    · rfl
    · rfl
    · cases t
      · exact absurd open_ data
      · exact absurd open_ instruction

omit h in
/-- An address is covered just if its unit is. -/
theorem covers_align (s : SystemControl) (t : Tcm) : s.Covers t (w.align a) ↔ s.Covers t a := by
  have same := s.covers_add t (w.align_mod_add_lt a (Nat.mod_lt a.toNat w.bytes_pos))
  rwa [w.align_add, Iff.comm] at same

end SystemControl

/-- Whatever was written to the coprocessor, an access of the ARM9 takes one cycle if a tightly coupled memory
answers it, and else as long as the table says for its region and class. Under any setting of the external
memory control the table has no access of the ARM9 that takes one cycle. -/
theorem waitTime_answered (devices : Devices δ) {m : Node δ} (h : m.system.control.Reachable) (w : Width)
    (a : Address) (kind : Access) :
    let answered := ∃ t : Tcm, t.Answers devices m.system.control kind.write w a
    (answered → (Board.bus devices .arm9).waitTime w a kind m = (1, m)) ∧
      (¬ answered → (Board.bus devices .arm9).waitTime w a kind m =
        (m.system.waitstates.get .arm9 a (.of w kind), m)) ∧
      ∀ c, m.system.waitstates.Follows c →
        (((Board.bus devices .arm9).waitTime w a kind m).1 = 1 ↔ answered) := by
  intro answered
  have windows := h.upToDate
  have hit : (if kind.write then m.system.control.writeHit? a else m.system.control.readHit? a).isSome ↔ answered := by
    show _ ↔ ∃ t : Tcm, _
    rw [Tcm.answers_iff, SystemControl.of_tcm_iff windows, SystemControl.hit_iff windows]
    simp only [SystemControl.covers_align]
  have timed : (Board.bus devices .arm9).waitTime w a kind m =
      (if (if kind.write then m.system.control.writeHit? a else m.system.control.readHit? a).isSome then 1
        else m.system.waitstates.get .arm9 a (.of w kind), m) := rfl
  have fast (yes : answered) : (Board.bus devices .arm9).waitTime w a kind m = (1, m) := by
    rw [timed, if_pos (hit.mpr yes)]
  have slow (no : ¬ answered) :
      (Board.bus devices .arm9).waitTime w a kind m = (m.system.waitstates.get .arm9 a (.of w kind), m) := by
    rw [timed, if_neg (mt hit.mp no)]
  refine ⟨fast, slow, fun c follows => ⟨fun one => ?_, fun yes => by rw [fast yes]⟩⟩
  by_contra no
  have even : m.system.waitstates.get .arm9 a (.of w kind) = 2 * _ :=
    follows.arm9 (Waitstates.regionOf a) (.of w kind)
  rw [slow no] at one
  omega

/-- An ARM9 that has put the data memory into load mode. -/
def bypassing : Node Unit := (writeControl ⟨0, 1, 0, 0⟩ 0x00070000 ⟨.powerOn .v5, .powerOn {} (), #[]⟩).2

/-- In load mode writes go to the data memory, and reads to the main memory beneath it, which takes longer. -/
theorem bypassing_waits :
    (∃ t : Tcm, t.Answers .none bypassing.system.control true .word 0x027C0003) ∧
      ¬ (∃ t : Tcm, t.Answers .none bypassing.system.control false .word 0x027C0003) ∧
      (Board.bus .none .arm9).waitTime .word 0x027C0003 .nonsequential bypassing = (18, bypassing) := by
  have reachable : bypassing.system.control.Reachable := .tail .refl ⟨⟨0, 1, 0, 0⟩, 0x00070000, #[], rfl⟩
  have writes := (waitTime_answered .none reachable .word 0x027C0003 Access.nonsequential.asWrite).2.2 0
    Waitstates.initial_follows
  have reads := waitTime_answered .none reachable .word 0x027C0003 .nonsequential
  have beneath : ¬ ∃ t : Tcm, t.Answers .none bypassing.system.control false .word 0x027C0003 :=
    fun yes => absurd ((reads.2.2 0 Waitstates.initial_follows).mpr yes) (by decide +kernel)
  refine ⟨writes.mp (by decide +kernel), beneath, (reads.2.1 beneath).trans ?_⟩
  have table : bypassing.system.waitstates.get .arm9 0x027C0003 (.of .word .nonsequential) = 18 := by decide +kernel
  rw [table]

end Console

end Lockstep
