import Lockstep.Proofs.Console.Calls
import Lockstep.Proofs.Console.Cells
import Mathlib.Data.List.Basic

/-!
The memories are one store of cells. A read of either processor puts cells together, a write of either
changes the cells that it names and no others, so that a cell always holds the byte that was written to
it last, whichever processor wrote it, at whatever width, and through whichever of its addresses.
-/

namespace Lockstep.Console

variable {δ : Type} {devices : Devices δ}

namespace Memory

theorem Region.size_eq (r : Region) : ∃ k, 2 ≤ k ∧ r.size = 2 ^ k := by
  match r with
  | .main => exact ⟨22, by decide, by decide⟩
  | .shared => exact ⟨15, by decide, by decide⟩
  | .private7 => exact ⟨16, by decide, by decide⟩
  | .tcm .instruction => exact ⟨15, by decide, by decide⟩
  | .tcm .data => exact ⟨14, by decide, by decide⟩

theorem bytes_write (m : Memory) (r r' : Region) (offset : Nat) (w : Width) (v : Word) :
    (m.write r offset w v).bytes r' =
      if r' = r then ByteBuffer.writeRepeated (m.bytes r) offset w v else m.bytes r' := by
  rcases r with _ | _ | _ | ⟨_ | _⟩ <;> rcases r' with _ | _ | _ | ⟨_ | _⟩ <;> rfl

theorem Sized.initial (c : Configuration) : (Memory.initial c).Sized := by
  intro r
  rcases r with _ | _ | _ | ⟨_ | _⟩ <;> exact ByteBuffer.size_zeros _

namespace Sized

variable {m : Memory} (h : m.Sized)
include h

theorem write (r : Region) (offset : Nat) (w : Width) (v : Word) : (m.write r offset w v).Sized := by
  intro r'
  rw [bytes_write]
  split_ifs with same
  · rw [ByteBuffer.size_writeRepeated, same, h r]
  · exact h r'

theorem repeats (r : Region) : ByteBuffer.Repeats (m.bytes r) := by
  obtain ⟨k, two, size⟩ := r.size_eq
  exact ⟨k, two, (h r).trans size⟩

variable {r : Region} {offset : Nat} {w : Width} (hd : w.bytes ∣ offset)
include hd

theorem wrap_add {i : Nat} (hi : i < w.bytes) : Cell.wrap r (offset + i) = ⟨r, offset % r.size + i⟩ := by
  have inside := (h.repeats r).place_le hd
  rw [h r] at inside
  unfold Cell.wrap
  rw [← Nat.mod_add_mod, Nat.mod_eq_of_lt (by omega)]

/-- A read puts the cells of its unit together. -/
theorem toNat_read :
    (m.read r offset w).toNat =
      Nat.ofDigits 256 ((List.range w.bytes).map fun i => (m.cell (.wrap r (offset + i))).toNat) := by
  unfold read
  rw [(h.repeats r).toNat_readRepeated hd, h r]
  refine congrArg (Nat.ofDigits 256) (List.map_congr_left fun i hi => ?_)
  rw [h.wrap_add hd (List.mem_range.mp hi)]
  rfl

theorem cell_write (v : Word) (c : Cell) :
    (m.write r offset w v).cell c =
      if c.region = r ∧ offset % r.size ≤ c.index ∧ c.index < offset % r.size + w.bytes then
        v.extractLsb' (8 * (c.index - offset % r.size)) 8
      else m.cell c := by
  unfold cell
  rw [bytes_write]
  by_cases same : c.region = r
  · rw [if_pos same, (h.repeats r).byteAt_writeRepeated hd, h r, ← same]
    simp only [true_and]
  · rw [if_neg same, if_neg (by simp [same])]

/-- A write gives the cells of its unit the bytes of its value. -/
theorem cell_write_unit (v : Word) {i : Nat} (hi : i < w.bytes) :
    (m.write r offset w v).cell (.wrap r (offset + i)) = v.extractLsb' (8 * i) 8 := by
  rw [h.cell_write hd, h.wrap_add hd hi, if_pos ⟨rfl, Nat.le_add_right _ _, Nat.add_lt_add_left hi _⟩,
    Nat.add_sub_cancel_left]

/-- A write leaves all other cells alone. -/
theorem cell_write_other (v : Word) {c : Cell} (hc : ∀ i < w.bytes, c ≠ .wrap r (offset + i)) :
    (m.write r offset w v).cell c = m.cell c := by
  rw [h.cell_write hd]
  refine if_neg fun ⟨region, first, last⟩ => ?_
  have inside : c.index - offset % r.size < w.bytes := by omega
  refine hc _ inside ?_
  rw [h.wrap_add hd inside, Nat.add_sub_cancel' first, ← region]

end Sized

end Memory

/-- Hardware with memories of their sizes, and a coprocessor that has only been written by its registers. -/
structure Hardware.Mapped (h : Hardware δ) : Prop where
  sized : h.memory.Sized
  reachable : h.control.Reachable

theorem Hardware.Mapped.congr {h h' : Hardware δ} (mapped : h.Mapped) (memory : h'.memory = h.memory)
    (control : h'.control = h.control) : h'.Mapped where
  sized := memory ▸ mapped.sized
  reachable := control ▸ mapped.reachable

theorem bus_get (id : ProcessorId) (w : Width) (a : Address) (m : Node δ) :
    (Board.bus devices id).get w a m =
      Node.readPlace devices id w (w.align a) (.of id false m.system.control (w.align a)) m := by
  cases id <;> rfl

theorem bus_set (id : ProcessorId) (w : Width) (a : Address) (v : Word) (m : Node δ) :
    (Board.bus devices id).set w a v m =
      Node.writePlace devices id w (w.align a) v (.of id true m.system.control (w.align a)) m := by
  cases id <;> rfl

/-- An access outside the memories leaves them alone, and the coprocessor. -/
theorem io_keeps (devices : Devices δ) (id : ProcessorId) :
    Node.KeepsIo devices id fun m m' =>
      m'.system.memory = m.system.memory ∧ m'.system.control = m.system.control where
  own _ _ alone := alone.system ▸ ⟨rfl, rfl⟩
  trans h h' := ⟨h'.1.trans h.1, h'.2.trans h.2⟩
  core r v mask m := by
    have spared := Node.writeCore_spares id r v mask m
    exact ⟨spared.memory, spared.control⟩
  read _ _ := ⟨rfl, rfl⟩
  write _ _ _ _ := ⟨rfl, rfl⟩

namespace Cell

def row (w : Width) (r : Memory.Region) (offset : Nat) : List Cell :=
  (List.range w.bytes).map fun i => wrap r (offset + i)

section
variable {id : ProcessorId} {write : Bool} {s : SystemControl} (hs : s.moveWindows = s) {a : Address}
include hs

theorem unit_memory {w : Width} {r : Memory.Region} {offset : Nat}
    (h : Place.of id write s (w.align a) = .memory r offset) :
    (w.unit a).map (of id write s) = (row w r offset).map some := by
  rw [map_unit id write hs, h, row, List.map_map]
  rfl

/-- An address that stands for a cell lies in a unit of a memory. -/
theorem memory_of_some (w : Width) {c : Cell} (h : of id write s a = some c) :
    ∃ offset, Place.of id write s (w.align a) = .memory c.region offset ∧ w.bytes ∣ offset := by
  rw [of_eq id write hs w a] at h
  cases place : Place.of id write s (w.align a) with
  | memory r offset =>
    rw [place] at h
    obtain rfl := Option.some.inj h
    exact ⟨offset, rfl, Place.bytes_dvd_offset id write hs w a place⟩
  | firmware | io | video | nothing =>
    rw [place] at h
    contradiction

/-- Around an address that stands for no cell none does, and no access to it goes to a memory. -/
theorem of_none (w : Width) (h : of id write s a = none) :
    (∀ r offset, Place.of id write s (w.align a) ≠ .memory r offset) ∧
      ∀ b ∈ w.unit a, of id write s b = none := by
  rw [of_eq id write hs w a] at h
  have outside : ∀ i, (Place.of id write s (w.align a)).cell? i = none := by
    intro i
    cases place : Place.of id write s (w.align a) with
    | memory r offset =>
      rw [place] at h
      contradiction
    | firmware | io | video | nothing => rfl
  refine ⟨fun r offset place => ?_, fun b hb => ?_⟩
  · rw [place] at h
    contradiction
  · have looked : of id write s b ∈ (w.unit a).map (of id write s) := List.mem_map_of_mem hb
    rw [map_unit id write hs w a] at looked
    obtain ⟨i, -, found⟩ := List.mem_map.mp looked
    rw [← found, outside i]

end

/-- The bytes that a write brings to cells. -/
def stored (id : ProcessorId) (s : SystemControl) (w : Width) (a : Address) (v : Word) : List (Cell × BitVec 8) :=
  ((w.unit a).zip (w.split v)).filterMap fun (b, x) => (of id true s b).map (·, x)

theorem stored_eq {id : ProcessorId} {s : SystemControl} {w : Width} {a : Address} {cells : List Cell}
    (h : (w.unit a).map (of id true s) = cells.map some) (v : Word) :
    stored id s w a v = cells.zip (w.split v) := by
  have looked : stored id s w a v =
      (((w.unit a).map (of id true s)).zip (w.split v)).filterMap fun (c, x) => c.map (·, x) := by
    rw [List.zip_map_left, List.filterMap_map]
    rfl
  rw [looked, h, List.zip_map_left, List.filterMap_map]
  exact List.filterMap_some

theorem stored_nil {id : ProcessorId} {s : SystemControl} {w : Width} {a : Address}
    (h : ∀ b ∈ w.unit a, of id true s b = none) (v : Word) : stored id s w a v = [] := by
  refine List.filterMap_eq_nil_iff.mpr fun ⟨b, x⟩ listed => ?_
  simp only [h b (List.of_mem_zip listed).1, Option.map_none]

def beneath (s : SystemControl) (a : Address) : Tcm → Option Cell
  | .instruction => (ofTcm false s .data a).or (ofBus .arm9 a)
  | .data => ofBus .arm9 a

theorem region_ofBus {id : ProcessorId} {a : Address} {c : Cell} (h : ofBus id a = some c) (t : Tcm) :
    c.region ≠ .tcm t := by
  obtain ⟨⟨r, first, limit⟩, listed, found⟩ := List.exists_of_findSome?_eq_some h
  have bus : ∀ span ∈ spans id, span.1 ≠ .tcm t := by
    cases id <;> cases t <;> decide
  simp only [Option.ite_none_right_eq_some, Option.some.injEq] at found
  exact found.2 ▸ bus _ listed

theorem region_beneath {s : SystemControl} {a : Address} {t : Tcm} {c : Cell} (h : beneath s a t = some c) :
    c.region ≠ .tcm t := by
  cases t with
  | data => exact region_ofBus h .data
  | instruction =>
    rcases Option.or_eq_some_iff.mp h with data | ⟨-, bus⟩
    · unfold ofTcm at data
      simp only [Option.ite_none_right_eq_some, Option.some.injEq] at data
      rw [← data.2]
      simp [wrap]
    · exact region_ofBus bus .instruction

end Cell

/-- A tightly coupled memory in load mode lies at an address, and takes the writes there. -/
structure SystemControl.Loading (s : SystemControl) (t : Tcm) (a : Address) : Prop where
  enables : s.enables t
  loads : s.loads t
  covers : s.Covers t a
  /-- The instruction memory does not lie over it. -/
  top : t = .data → ¬ (s.enables .instruction ∧ s.Covers .instruction a)

/-- The memories that a processor reaches, as a store of cells. -/
structure Node.Stores (devices : Devices δ) (m : Node δ) : Prop where
  /-- A read puts the cells of its unit together and changes nothing. -/
  read : ∀ id w a c, Cell.of id false m.system.control a = some c →
    ∃ (cells : List Cell) (v : Word), (w.unit a).map (Cell.of id false m.system.control) = cells.map some ∧
      (Board.bus devices id).get w a m = (v, m) ∧
      v.toNat = Nat.ofDigits 256 (cells.map fun c => (m.system.memory.cell c).toNat)
  /-- A write gives the cells of its unit the bytes of its value and changes nothing else. -/
  write : ∀ id w a v c, Cell.of id true m.system.control a = some c →
    ∃ (cells : List Cell) (memory : Memory), (w.unit a).map (Cell.of id true m.system.control) = cells.map some ∧
      (Board.bus devices id).set w a v m = m.mapSystem (·.mapMemory fun _ => memory) ∧
      memory.Sized ∧ memory.firmware7 = m.system.memory.firmware7 ∧
      memory.firmware9 = m.system.memory.firmware9 ∧
      cells.map memory.cell = w.split v ∧ ∀ c ∉ cells, memory.cell c = m.system.memory.cell c
  /-- The ARM9 looks into the instruction memory first, then into the data memory, then onto its bus. -/
  layers : ∀ write a, Place.of .arm9 write m.system.control a =
    if m.system.control.opens write .instruction ∧ m.system.control.Covers .instruction a then
      .memory (.tcm .instruction) (a - m.system.control.start .instruction).toNat
    else if m.system.control.opens write .data ∧ m.system.control.Covers .data a then
      .memory (.tcm .data) (a - m.system.control.start .data).toNat
    else Place.ofBus .arm9 a
  /-- In load mode a write goes to the tightly coupled memory, and reads go on to see what lies beneath. -/
  loading : ∀ t w a v, m.system.control.Loading t a →
    Cell.of .arm9 true m.system.control a = some (.wrap (.tcm t) (a - m.system.control.start t).toNat) ∧
    Cell.of .arm9 false m.system.control a = Cell.beneath m.system.control a t ∧
    ∀ c, Cell.beneath m.system.control a t = some c →
      ((Board.bus devices .arm9).get w a ((Board.bus devices .arm9).set w a v m)).1 =
        ((Board.bus devices .arm9).get w a m).1

/-- A read does not see a write to another memory. -/
theorem get_set_apart {m : Node δ} {id id' : ProcessorId} {w w' : Width} {a a' : Address} {r r' : Memory.Region}
    {offset offset' : Nat} (read : Place.of id false m.system.control (w.align a) = .memory r offset)
    (written : Place.of id' true m.system.control (w'.align a') = .memory r' offset') (apart : r ≠ r') (v : Word) :
    ((Board.bus devices id).get w a ((Board.bus devices id').set w' a' v m)).1 =
      ((Board.bus devices id).get w a m).1 := by
  have set : (Board.bus devices id').set w' a' v m = m.mapSystem (·.mapMemory (·.write r' offset' w' v)) := by
    rw [bus_set, written]
    rfl
  have control : (m.mapSystem (·.mapMemory (·.write r' offset' w' v))).system.control = m.system.control := rfl
  rw [set, bus_get, bus_get, control, read]
  show (m.system.memory.write r' offset' w' v).read r offset w = m.system.memory.read r offset w
  unfold Memory.read
  rw [Memory.bytes_write, if_neg apart]

namespace SystemControl.Loading

variable {s : SystemControl} {t : Tcm} {a : Address} (h : s.Loading t a)
include h

theorem of_write : Cell.of .arm9 true s a = some (.wrap (.tcm t) (a - s.start t).toNat) := by
  obtain ⟨enables, loads, covers, top⟩ := h
  cases t with
  | instruction => simp [Cell.of, Cell.ofTcm, opens, enables, covers]
  | data =>
    have past := top rfl
    simp [Cell.of, Cell.ofTcm, opens, enables, covers, past]

theorem of_read : Cell.of .arm9 false s a = Cell.beneath s a t := by
  obtain ⟨enables, loads, covers, top⟩ := h
  cases t with
  | instruction => simp [Cell.of, Cell.ofTcm, Cell.beneath, opens, loads]
  | data =>
    have past := top rfl
    have absent : Cell.ofTcm false s .instruction a = none := by
      unfold Cell.ofTcm opens
      refine if_neg fun open_ => past ⟨?_, open_.2⟩
      simp at open_
      exact open_.1.1
    have loaded : Cell.ofTcm false s .data a = none := by simp [Cell.ofTcm, opens, loads]
    unfold Cell.of Cell.beneath
    simp only [absent, loaded, Option.none_or]

end SystemControl.Loading

theorem Hardware.Mapped.stores {m : Node δ} (h : m.system.Mapped) : m.Stores devices where
  read id w a c hc := by
    obtain ⟨offset, place, unit⟩ := Cell.memory_of_some h.reachable.upToDate w hc
    refine ⟨Cell.row w c.region offset, m.system.memory.read c.region offset w,
      Cell.unit_memory h.reachable.upToDate place, ?_, ?_⟩
    · rw [bus_get, place]
      rfl
    · rw [h.sized.toNat_read unit, Cell.row, List.map_map]
      rfl
  write id w a v c hc := by
    obtain ⟨offset, place, unit⟩ := Cell.memory_of_some h.reachable.upToDate w hc
    have firmware := m.system.memory.firmware_write c.region offset w v
    refine ⟨Cell.row w c.region offset, m.system.memory.write c.region offset w v,
      Cell.unit_memory h.reachable.upToDate place, ?_, h.sized.write c.region offset w v, firmware.1, firmware.2, ?_,
      fun other unwritten => ?_⟩
    · rw [bus_set, place]
      rfl
    · rw [Cell.row, List.map_map, Width.split]
      exact List.map_congr_left fun i hi => h.sized.cell_write_unit unit v (List.mem_range.mp hi)
    · refine h.sized.cell_write_other unit v fun i hi same => unwritten ?_
      exact List.mem_map.mpr ⟨i, List.mem_range.mpr hi, same.symm⟩
  layers write a := Place.of_arm9 h.reachable.upToDate write a
  loading t w a v loading := by
    refine ⟨loading.of_write, loading.of_read, fun c hc => ?_⟩
    obtain ⟨offset, read, -⟩ := Cell.memory_of_some h.reachable.upToDate w (loading.of_read.trans hc)
    obtain ⟨offset', written, -⟩ := Cell.memory_of_some h.reachable.upToDate w loading.of_write
    exact get_set_apart read written (Cell.region_beneath hc) v

/-- What goes on around the memories: reads and writes of the processors, writes to the coprocessor, and anything
that leaves memories and coprocessor alone. With the bytes that were written to cells, the latest first. -/
inductive Traffic (devices : Devices δ) (h : Hardware δ) : List (Cell × BitVec 8) → Hardware δ → Prop where
  | start : Traffic devices h [] h
  | read {log : List (Cell × BitVec 8)} {m : Node δ} (past : Traffic devices h log m.system) (id : ProcessorId)
      (w : Width) (a : Address) : Traffic devices h log ((Board.bus devices id).get w a m).2.system
  | write {log : List (Cell × BitVec 8)} {m : Node δ} (past : Traffic devices h log m.system) (id : ProcessorId)
      (w : Width) (a : Address) (v : Word) :
      Traffic devices h (Cell.stored id m.system.control w a v ++ log)
        ((Board.bus devices id).set w a v m).system
  | control {log : List (Cell × BitVec 8)} {m : Node δ} (past : Traffic devices h log m.system)
      (reg : ControlRegister) (v : Word) : Traffic devices h log (writeControl reg v m).2.system
  | other {log : List (Cell × BitVec 8)} {h₁ h₂ : Hardware δ} (past : Traffic devices h log h₁)
      (memory : h₂.memory = h₁.memory) (control : h₂.control = h₁.control) : Traffic devices h log h₂

theorem SystemControl.Reachable.write {s : SystemControl} (h : s.Reachable) (reg : ControlRegister) (v : Word)
    (journal : Journal) : (s.write reg v journal).1.Reachable := h.tail ⟨reg, v, journal, rfl⟩

theorem get_spares (devices : Devices δ) (id : ProcessorId) (w : Width) (a : Address) (m : Node δ) :
    ((Board.bus devices id).get w a m).2.system.memory = m.system.memory ∧
      ((Board.bus devices id).get w a m).2.system.control = m.system.control := by
  rw [bus_get]
  exact (io_keeps devices id).calls.readPlace w _ _ m

/-- After a write a cell holds the last byte that the write brought to it, or what it held before. -/
theorem Hardware.Mapped.set {m : Node δ} (h : m.system.Mapped) (id : ProcessorId) (w : Width) (a : Address)
    (v : Word) :
    ((Board.bus devices id).set w a v m).system.Mapped ∧
      ∀ c, ((Board.bus devices id).set w a v m).system.memory.cell c =
        ((Cell.stored id m.system.control w a v).lookup c).getD (m.system.memory.cell c) := by
  cases translated : Cell.of id true m.system.control a with
  | some c =>
    obtain ⟨cells, memory, unit, set, sized, -, -, bytes, others⟩ := h.stores.write id w a v c translated
    have log : Cell.stored id m.system.control w a v = cells.map fun c => (c, memory.cell c) := by
      rw [Cell.stored_eq unit, ← bytes, List.map_prod_left_eq_zip]
    rw [set, log]
    refine ⟨⟨sized, h.reachable⟩, fun c => ?_⟩
    show memory.cell c = _
    -- The log lists every cell of the unit once, with what it holds now.
    by_cases written : c ∈ cells
    · rw [List.lookup_graph _ written]
      rfl
    · have unlisted : (cells.map fun c => (c, memory.cell c)).lookup c = none := by
        rw [List.lookup_eq_none_iff]
        simp only [List.mem_map, forall_exists_index, and_imp, forall_apply_eq_imp_iff₂, bne_iff_ne]
        exact fun c' listed same => written (same ▸ listed)
      rw [unlisted]
      exact others c written
  | none =>
    obtain ⟨outside, unit⟩ := Cell.of_none h.reachable.upToDate w translated
    rw [bus_set, Cell.stored_nil unit]
    obtain ⟨memory, control⟩ := (io_keeps devices id).calls.writePlace w (w.align a) v outside m
    exact ⟨h.congr memory control, fun c => congrArg (Memory.cell · c) memory⟩

/-- Whatever goes on, a cell holds the byte that was written to it last. -/
theorem Traffic.last {h h' : Hardware δ} {log : List (Cell × BitVec 8)} (traffic : Traffic devices h log h')
    (mapped : h.Mapped) : h'.Mapped ∧ ∀ c, h'.memory.cell c = (log.lookup c).getD (h.memory.cell c) := by
  induction traffic with
  | start => exact ⟨mapped, fun _ => rfl⟩
  | @read log m past id w a ih =>
    obtain ⟨memory, control⟩ := get_spares devices id w a m
    exact ⟨ih.1.congr memory control, memory ▸ ih.2⟩
  | write past id w a v ih =>
    obtain ⟨mapped', written⟩ := ih.1.set id w a v
    refine ⟨mapped', fun c => ?_⟩
    rw [written c, ih.2 c, List.lookup_append, Option.getD_or]
  | control past reg v ih =>
    exact ⟨⟨ih.1.sized, ih.1.reachable.write reg v _⟩, ih.2⟩
  | other past memory control ih => exact ⟨ih.1.congr memory control, memory ▸ ih.2⟩

/-- No access makes memories of other sizes, or changes the coprocessor but by its registers. -/
theorem Hardware.mapped_keeps (devices : Devices δ) : Hardware.Keeps devices fun h h' => h.Mapped → h'.Mapped :=
  fun id => {
    own := fun _ _ alone => alone.system ▸ fun mapped => mapped
    trans := fun h h' => h' ∘ h
    memory := fun r offset w v m mapped => ⟨mapped.sized.write r offset w v, mapped.reachable⟩
    core := fun r v mask m mapped => by
      have spared := Node.writeCore_spares id r v mask m
      exact mapped.congr spared.memory spared.control
    read := fun _ _ mapped => mapped.congr rfl rfl
    write := fun _ _ _ _ mapped => mapped.congr rfl rfl
    control := fun _ reg v _ mapped => ⟨mapped.sized, mapped.reachable.write reg v _⟩ }

theorem Board.Reachable.mapped {s : Board δ} (h : s.Reachable devices) : s.hardware.Mapped := by
  obtain ⟨config, d, run⟩ := h
  induction run with
  | refl => exact ⟨Memory.Sized.initial config, .refl⟩
  | tail _ called ih =>
    rcases called with called | rfl
    · exact called.kept (Hardware.mapped_keeps devices)
        (fun rests mapped => mapped.congr rests.memory rests.control) ih
    · exact ⟨ih.sized, .refl⟩

/-- The memory map is a store of cells that both processors share. -/
theorem memory_is_store (devices : Devices δ) :
    (∀ s : Board δ, s.Reachable devices → s.hardware.Mapped) ∧
      ∀ {h : Hardware δ} {log : List (Cell × BitVec 8)} {m : Node δ}, h.Mapped →
        Traffic devices h log m.system →
        Node.Stores devices m ∧ (∀ c, m.system.memory.cell c = (log.lookup c).getD (h.memory.cell c)) ∧
          ∀ id w a c, Cell.of id false m.system.control a = some c →
            ∃ cells : List Cell, (w.unit a).map (Cell.of id false m.system.control) = cells.map some ∧
              ((Board.bus devices id).get w a m).1.toNat =
                Nat.ofDigits 256 (cells.map fun c => ((log.lookup c).getD (h.memory.cell c)).toNat) := by
  refine ⟨fun s reachable => reachable.mapped, fun {h log m} mapped traffic => ?_⟩
  obtain ⟨mapped', last⟩ := traffic.last mapped
  have stores : Node.Stores devices m := mapped'.stores
  refine ⟨stores, last, fun id w a c hc => ?_⟩
  obtain ⟨cells, v, unit, get, value⟩ := stores.read id w a c hc
  refine ⟨cells, unit, ?_⟩
  rw [get, value]
  simp only [last]

/-- The ARM9 writes a word, and the ARM7 reads half of it through another address of the same memory. -/
theorem written_word_read_back :
    let h : Hardware Unit := .powerOn {} ()
    let m : Node Unit := ⟨.powerOn .v5, h, #[]⟩
    let m' := (Board.bus .none .arm9).set .word 0x02000001 0x11223344 m
    h.Mapped ∧ Traffic .none h (Cell.stored .arm9 h.control .word 0x02000001 0x11223344 ++ []) m'.system ∧
      ((Board.bus .none .arm7).get .half 0x02400003 m').1 = 0x1122 := by
  intro h m m'
  have mapped : h.Mapped := ⟨Memory.Sized.initial {}, .refl⟩
  have traffic : Traffic .none h (Cell.stored .arm9 h.control .word 0x02000001 0x11223344 ++ []) m'.system :=
    .write (m := m) .start .arm9 .word 0x02000001 0x11223344
  refine ⟨mapped, traffic, ?_⟩
  obtain ⟨cells, unit, value⟩ :=
    ((memory_is_store Devices.none).2 mapped traffic).2.2 .arm7 .half 0x02400003 ⟨.main, 3⟩ (by decide)
  have row : cells = [⟨.main, 2⟩, ⟨.main, 3⟩] := by
    refine List.map_injective_iff.mpr (Option.some_injective Cell) (unit.symm.trans ?_)
    decide
  let log := Cell.stored .arm9 h.control .word 0x02000001 0x11223344 ++ []
  have low : log.lookup (⟨.main, 2⟩ : Cell) = some 0x22 := by decide
  have high : log.lookup (⟨.main, 3⟩ : Cell) = some 0x11 := by decide
  apply BitVec.eq_of_toNat_eq
  rw [value, row, List.map_cons, List.map_singleton, low, high]
  rfl

end Lockstep.Console
