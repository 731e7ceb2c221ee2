import Lockstep.Console.MemoryMap
import Lockstep.Proofs.Bytes
import Mathlib.Logic.Relation

/-!
The cells of the memories, and which cell an address stands for. The translation is told by a table of what
lies on each bus and by the registers of the system control coprocessor. The memory map agrees with it for
whole units: the bytes of an aligned unit lie side by side in one memory, or none of them lies in any.
-/

namespace Lockstep

namespace Console

namespace Memory

def Region.size : Region → Nat
  | .main => 4 * kib * kib
  | .shared => 32 * kib
  | .private7 => 64 * kib
  | .tcm .instruction => 32 * kib
  | .tcm .data => 16 * kib

/-- Memories of the sizes that they are built with. -/
def Sized (m : Memory) : Prop := ∀ r, (m.bytes r).size = r.size

end Memory

/-- A byte of one of the memories that can be written. -/
structure Cell where
  region : Memory.Region
  index : Nat
deriving DecidableEq, Repr

def Memory.cell (m : Memory) (c : Cell) : BitVec 8 := ByteBuffer.byteAt (m.bytes c.region) c.index

namespace SystemControl

variable (s : SystemControl)

/-- A coprocessor that has been written any number of times since its reset. -/
def Reachable : Prop :=
  Relation.ReflTransGen (fun s s' => ∃ reg v journal, s' = (SystemControl.write s reg v journal).1) initial s

def enables : Tcm → Bool
  | .data => s.control.dataEnable
  | .instruction => s.control.instructionEnable

/-- Whether a tightly coupled memory is in load mode, where only writes reach it. -/
def loads : Tcm → Bool
  | .data => s.control.dataLoadMode
  | .instruction => s.control.instructionLoadMode

/-- Whether reads, or writes, go to a tightly coupled memory where it lies. -/
def opens (write : Bool) (t : Tcm) : Bool := s.enables t && (write || !s.loads t)

def start : Tcm → Address
  | .data => s.dataPlacement.base
  | .instruction => 0

/-- How far a tightly coupled memory repeats. -/
def extent : Tcm → Nat
  | .data => s.dataPlacement.size
  | .instruction => s.instructionPlacement.size

def Covers (t : Tcm) (a : Address) : Prop := (a - s.start t).toNat < s.extent t

instance (t : Tcm) (a : Address) : Decidable (s.Covers t a) := inferInstanceAs (Decidable (_ < _))

end SystemControl

namespace Cell

/-- The cell at an offset in a region, which repeats. -/
def wrap (r : Memory.Region) (offset : Nat) : Cell := ⟨r, offset % r.size⟩

/-- The memories on the bus of a processor: where each starts, and the address up to which it repeats. -/
def spans : ProcessorId → List (Memory.Region × Nat × Nat)
  | .arm7 =>
    [(.main, 0x02000000, 0x03000000), (.shared, 0x03000000, 0x03800000), (.private7, 0x03800000, 0x04000000)]
  | .arm9 => [(.main, 0x02000000, 0x03000000), (.shared, 0x03000000, 0x04000000)]

def ofBus (id : ProcessorId) (a : Address) : Option Cell :=
  (spans id).findSome? fun (r, first, limit) =>
    if first ≤ a.toNat ∧ a.toNat < limit then some (wrap r (a.toNat - first)) else none

def ofTcm (write : Bool) (s : SystemControl) (t : Tcm) (a : Address) : Option Cell :=
  if s.opens write t ∧ s.Covers t a then some (wrap (.tcm t) (a - s.start t).toNat) else none

/-- The cell that an access goes to. For the ARM9 the instruction memory lies over the data memory, and both lie
over the bus. -/
def of (id : ProcessorId) (write : Bool) (s : SystemControl) (a : Address) : Option Cell :=
  match id with
  | .arm7 => ofBus .arm7 a
  | .arm9 => ((ofTcm write s .instruction a).or (ofTcm write s .data a)).or (ofBus .arm9 a)

end Cell

namespace Place

def ofBus : ProcessorId → Address → Place
  | .arm7 => of7
  | .arm9 => of9

def of (id : ProcessorId) (write : Bool) (s : SystemControl) (a : Address) : Place :=
  match id with
  | .arm7 => of7 a
  | .arm9 => if write then write9 s a else read9 s a

/-- The cell that lies `i` bytes further than a place. -/
def cell? (i : Nat) : Place → Option Cell
  | .memory r offset => some (.wrap r (offset + i))
  | _ => none

end Place

-- Only the top byte of an address decides what lies on a bus there, and in the fourth page the middle of it.

section
variable (id : ProcessorId) {a : Address}

def workRegion (id : ProcessorId) (a : Address) : Memory.Region :=
  if id = .arm9 ∨ a.toNat < 0x03800000 then .shared else .private7

theorem toNat_top : (a >>> 24).toNat = a.toNat / 2 ^ 24 := by
  rw [BitVec.toNat_ushiftRight, Nat.shiftRight_eq_div_pow]

theorem Place.ofBus_main (h : a.toNat / 2 ^ 24 = 2) : ofBus id a = .memory .main a.toNat := by
  cases id <;> simp only [ofBus, of7, of9, toNat_top, h]

theorem Place.ofBus_work (h : a.toNat / 2 ^ 24 = 3) : ofBus id a = .memory (workRegion id a) a.toNat := by
  have low : a < 0x03800000 ↔ a.toNat < 0x03800000 := Iff.rfl
  cases id with
  | arm7 =>
    simp only [ofBus, of7, toNat_top, h, low, workRegion]
    simp
  | arm9 =>
    simp only [ofBus, of9, toNat_top, h, workRegion]
    simp

theorem Place.ofBus_other (h : a.toNat / 2 ^ 24 ≠ 2) (h' : a.toNat / 2 ^ 24 ≠ 3) (i : Nat) :
    (ofBus id a).cell? i = none := by
  cases id with
  | arm7 =>
    simp only [ofBus, of7, toNat_top]
    split
    · rfl
    · contradiction
    · contradiction
    all_goals rfl
  | arm9 =>
    simp only [ofBus, of9, toNat_top]
    split
    · contradiction
    · contradiction
    all_goals try split_ifs
    all_goals rfl

/-- A memory that starts at a multiple of its size may as well be counted from zero. -/
theorem Cell.wrap_sub (r : Memory.Region) (first : Nat) {n : Nat} (h : r.size ∣ first) (hn : first ≤ n) :
    wrap r (n - first) = wrap r n := by
  obtain ⟨k, rfl⟩ := h
  unfold wrap
  rw [Nat.sub_mul_mod hn]

theorem Cell.ofBus_main (h : a.toNat / 2 ^ 24 = 2) : ofBus id a = some (wrap .main a.toNat) := by
  have inside : 0x02000000 ≤ a.toNat ∧ a.toNat < 0x03000000 := by omega
  have counted := wrap_sub .main 0x02000000 (by decide) inside.1
  cases id <;> simp only [ofBus, spans, List.findSome?_cons, if_pos inside, counted]

theorem Cell.ofBus_work (h : a.toNat / 2 ^ 24 = 3) : ofBus id a = some (wrap (workRegion id a) a.toNat) := by
  have above : ¬ (0x02000000 ≤ a.toNat ∧ a.toNat < 0x03000000) := by omega
  have inside : 0x03000000 ≤ a.toNat ∧ a.toNat < 0x04000000 := by omega
  have shared := wrap_sub .shared 0x03000000 (by decide) inside.1
  cases id with
  | arm9 =>
    simp only [ofBus, spans, List.findSome?_cons, if_neg above, if_pos inside, shared, workRegion, true_or,
      if_true]
  | arm7 =>
    by_cases low : a.toNat < 0x03800000
    · simp only [ofBus, spans, List.findSome?_cons, if_neg above, inside.1, low, shared, workRegion, and_self,
        or_true, if_true]
    · have high : 0x03800000 ≤ a.toNat := by omega
      have private7 := wrap_sub .private7 0x03800000 (by decide) high
      simp [ofBus, spans, above, low, high, inside.2, private7, workRegion]

theorem Cell.ofBus_other (h : a.toNat / 2 ^ 24 ≠ 2) (h' : a.toNat / 2 ^ 24 ≠ 3) : ofBus id a = none := by
  cases id <;> simp only [ofBus, spans, List.findSome?_eq_none_iff] <;> simp <;> omega

end

theorem toNat_add_of_lt {a : Address} {i : Nat} (h : a.toNat % 4 + i < 4) :
    (a + BitVec.ofNat 32 i).toNat = a.toNat + i := by
  have := a.isLt
  rw [BitVec.toNat_add, BitVec.toNat_ofNat]
  omega

theorem Cell.ofBus_add (id : ProcessorId) {a : Address} {i : Nat} (h : a.toNat % 4 + i < 4) :
    ofBus id (a + BitVec.ofNat 32 i) = (Place.ofBus id a).cell? i := by
  have next := toNat_add_of_lt h
  by_cases main : a.toNat / 2 ^ 24 = 2
  · rw [Place.ofBus_main id main, Cell.ofBus_main id (by omega), next]
    rfl
  · by_cases work : a.toNat / 2 ^ 24 = 3
    · have same : workRegion id (a + BitVec.ofNat 32 i) = workRegion id a := by
        unfold workRegion
        rw [next]
        congr 2
        simp only [eq_iff_iff]
        omega
      rw [Place.ofBus_work id work, Cell.ofBus_work id (by omega), next, same]
      rfl
    · rw [Place.ofBus_other id main work, Cell.ofBus_other id (by omega) (by omega)]

namespace SystemControl

variable {s : SystemControl}

/-- The windows in force are those that the registers ask for. -/
theorem Reachable.upToDate (h : s.Reachable) : s.moveWindows = s := by
  induction h with
  | refl => rfl
  | @tail s s' _ written ih =>
    obtain ⟨reg, v, journal, rfl⟩ := written
    have stored : (s.store reg.primary reg.secondary reg.opcode2 v).moveWindows =
        s.store reg.primary reg.secondary reg.opcode2 v := by
      obtain ⟨data, instruction⟩ : dataWindow s.control s.dataPlacement = s.data ∧
        instructionWindow s.control s.instructionPlacement = s.instruction :=
          ⟨congrArg SystemControl.data ih, congrArg SystemControl.instruction ih⟩
      unfold store
      split
      all_goals simp only [moveWindows, data, instruction]
    unfold write
    split_ifs
    · exact ih
    · exact stored

theorem window_eq (h : s.moveWindows = s) (t : Tcm) :
    s.window t = ⟨tcmAccess (s.enables t) (s.loads t), s.start t, s.extent t⟩ := by
  rw [← h]
  cases t <;> rfl

theorem start_dvd (s : SystemControl) (t : Tcm) : 4 ∣ (s.start t).toNat := by
  cases t with
  | instruction => exact Nat.dvd_zero 4
  | data =>
    show 4 ∣ (s.dataPlacement &&& 0xFFFFF000).toNat
    rw [BitVec.toNat_and, Nat.dvd_iff_mod_eq_zero, show 4 = 2 ^ 2 from rfl, Nat.and_mod_two_pow]
    exact Nat.and_zero _

theorem extent_dvd (s : SystemControl) (t : Tcm) : 4 ∣ s.extent t := by
  have placed (p : TcmPlacement) : 4 ∣ p.size := by
    unfold TcmPlacement.size
    rw [Nat.shiftLeft_eq]
    exact Dvd.dvd.mul_right (by decide) _
  cases t with
  | data => exact placed _
  | instruction => exact placed _

end SystemControl

theorem SystemControl.toNat_sub_start_add (s : SystemControl) (t : Tcm) {a : Address} {i : Nat}
    (h : a.toNat % 4 + i < 4) :
    (a + BitVec.ofNat 32 i - s.start t).toNat = (a - s.start t).toNat + i := by
  have start := s.start_dvd t
  have moved : a + BitVec.ofNat 32 i - s.start t = a - s.start t + BitVec.ofNat 32 i := by
    rw [BitVec.sub_eq_add_neg, BitVec.sub_eq_add_neg, BitVec.add_assoc, BitVec.add_comm (BitVec.ofNat 32 i),
      ← BitVec.add_assoc]
  have word : (a - s.start t).toNat % 4 + i < 4 := by
    rw [BitVec.toNat_sub]
    omega
  rw [moved, toNat_add_of_lt word]

/-- A window starts and ends between words, so it holds all of a word or nothing of it. -/
theorem SystemControl.covers_add (s : SystemControl) (t : Tcm) {a : Address} {i : Nat} (h : a.toNat % 4 + i < 4) :
    s.Covers t (a + BitVec.ofNat 32 i) ↔ s.Covers t a := by
  have start := s.start_dvd t
  have extent := s.extent_dvd t
  unfold SystemControl.Covers
  rw [s.toNat_sub_start_add t h]
  rw [BitVec.toNat_sub] at *
  omega

theorem Cell.ofTcm_add (write : Bool) (s : SystemControl) (t : Tcm) {a : Address} {i : Nat}
    (h : a.toNat % 4 + i < 4) :
    ofTcm write s t (a + BitVec.ofNat 32 i) =
      if s.opens write t ∧ s.Covers t a then some (wrap (.tcm t) ((a - s.start t).toNat + i)) else none := by
  unfold ofTcm
  simp only [s.covers_add t h, s.toNat_sub_start_add t h]

namespace SystemControl

variable {s : SystemControl} (h : s.moveWindows = s)
include h

theorem usable_eq (write : Bool) (t : Tcm) :
    (if write then (s.window t).access != .disabled else (s.window t).access == .readWrite) = s.opens write t := by
  rw [window_eq h]
  unfold opens
  cases write <;> cases s.enables t <;> cases s.loads t <;> rfl

theorem hit?_eq {usable : TcmAccess → Bool} {write : Bool}
    (hu : ∀ t, usable (s.window t).access = s.opens write t) (a : Address) :
    s.hit? usable a =
      if s.opens write .instruction ∧ s.Covers .instruction a then
        some (.instruction, (a - s.start .instruction).toNat)
      else if s.opens write .data ∧ s.Covers .data a then some (.data, (a - s.start .data).toNat)
      else none := by
  have offset (t : Tcm) : (s.window t).offset? a =
      if s.Covers t a then some (a - s.start t).toNat else none := by
    rw [window_eq h]
    rfl
  unfold hit?
  simp only [hu, offset, List.findSome?_cons, List.findSome?_nil]
  split_ifs <;> simp_all

end SystemControl

/-- The ARM9 looks into the instruction memory first, then into the data memory, then onto its bus. -/
theorem Place.of_arm9 {s : SystemControl} (h : s.moveWindows = s) (write : Bool) (a : Address) :
    of .arm9 write s a =
      if s.opens write .instruction ∧ s.Covers .instruction a then
        .memory (.tcm .instruction) (a - s.start .instruction).toNat
      else if s.opens write .data ∧ s.Covers .data a then .memory (.tcm .data) (a - s.start .data).toNat
      else ofBus .arm9 a := by
  cases write with
  | false =>
    show read9 s a = _
    unfold read9 SystemControl.readHit?
    rw [SystemControl.hit?_eq h fun t => SystemControl.usable_eq h false t]
    split_ifs <;> rfl
  | true =>
    show write9 s a = _
    unfold write9 SystemControl.writeHit?
    rw [SystemControl.hit?_eq h fun t => SystemControl.usable_eq h true t]
    split_ifs <;> rfl

/-- The bytes of an aligned unit lie one after the other from where the unit lies. -/
theorem Cell.of_add (id : ProcessorId) (write : Bool) {s : SystemControl} (hs : s.moveWindows = s)
    {a : Address} {i : Nat} (h : a.toNat % 4 + i < 4) :
    of id write s (a + BitVec.ofNat 32 i) = (Place.of id write s a).cell? i := by
  cases id with
  | arm7 => exact ofBus_add .arm7 h
  | arm9 =>
    rw [Place.of_arm9 hs]
    unfold of
    simp only [ofTcm_add write s _ h, ofBus_add .arm9 h]
    split_ifs <;> rfl

theorem Place.offset_ofBus (id : ProcessorId) {a : Address} {r : Memory.Region} {offset : Nat}
    (h : ofBus id a = .memory r offset) : offset = a.toNat := by
  by_cases main : a.toNat / 2 ^ 24 = 2
  · rw [ofBus_main id main] at h
    exact (Place.memory.inj h).2.symm
  · by_cases work : a.toNat / 2 ^ 24 = 3
    · rw [ofBus_work id work] at h
      exact (Place.memory.inj h).2.symm
    · have none := ofBus_other id main work 0
      rw [h] at none
      contradiction

section
variable (id : ProcessorId) (write : Bool) {s : SystemControl} (hs : s.moveWindows = s) (w : Width) (a : Address)
include hs

/-- A unit that lies in a memory is a unit there. -/
theorem Place.bytes_dvd_offset {r : Memory.Region} {offset : Nat}
    (h : of id write s (w.align a) = .memory r offset) : w.bytes ∣ offset := by
  have unit := w.bytes_dvd_align a
  have moved (t : Tcm) : w.bytes ∣ (w.align a - s.start t).toNat := by
    have start := s.start_dvd t
    rw [BitVec.toNat_sub]
    cases w <;> simp only [Width.bytes] at unit ⊢ <;> omega
  cases id with
  | arm7 => exact offset_ofBus .arm7 h ▸ unit
  | arm9 =>
    rw [of_arm9 hs] at h
    split_ifs at h
    · exact (Place.memory.inj h).2 ▸ moved .instruction
    · exact (Place.memory.inj h).2 ▸ moved .data
    · exact offset_ofBus _ h ▸ unit

theorem Cell.map_unit :
    (w.unit a).map (of id write s) = (List.range w.bytes).map fun i => (Place.of id write s (w.align a)).cell? i := by
  unfold Width.unit
  rw [List.map_map]
  refine List.map_congr_left fun i hi => ?_
  exact of_add id write hs (w.align_mod_add_lt a (List.mem_range.mp hi))

theorem Cell.of_eq : of id write s a = (Place.of id write s (w.align a)).cell? (a.toNat % w.bytes) := by
  have inside : a.toNat % w.bytes < w.bytes := Nat.mod_lt _ w.bytes_pos
  have added := of_add id write hs (w.align_mod_add_lt a inside)
  rwa [w.align_add] at added

end

end Console

end Lockstep
