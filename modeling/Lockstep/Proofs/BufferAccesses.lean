import Lockstep.Proofs.Bytes

/-!
What a store does to every later access of a buffer. A number is stored if each of its bytes has a place, and
what is read afterwards has the bytes of the store where the two overlap and those from before elsewhere. In a
buffer that repeats, an access is the one at the remainder of its address, and one that runs past the end from
there reads zero and stores nothing.
-/

namespace Lockstep

def Width.number (w : Width) (byte : Nat → BitVec 8) : Nat :=
  Nat.ofDigits 256 ((List.range w.bytes).map fun i => (byte i).toNat)

namespace ByteBuffer

/-- Every byte of a number has its place in the buffer. -/
def Inside (buf : ByteArray) (addr : Nat) (w : Width) : Prop := ∀ i < w.bytes, addr + i < buf.size

instance (buf : ByteArray) (addr : Nat) (w : Width) : Decidable (Inside buf addr w) :=
  inferInstanceAs (Decidable (∀ i < w.bytes, addr + i < buf.size))

def replaced (buf : ByteArray) (addr : Nat) (w : Width) (v : Word) (p : Nat) : BitVec 8 :=
  if addr ≤ p ∧ p < addr + w.bytes then v.extractLsb' (8 * (p - addr)) 8 else byteAt buf p

/-- The address after a number, none if there are not enough bits for it. -/
def endOf? (addr : BitVec 64) (w : Width) : Option (BitVec 64) :=
  if addr.uaddOverflow (BitVec.ofNat 64 w.bytes) then none else some (addr + BitVec.ofNat 64 w.bytes)

section
variable {buf : ByteArray} {addr : Nat} {w : Width}

theorem inside_iff : Inside buf addr w ↔ addr + w.bytes ≤ buf.size := by
  have some_byte := w.bytes_pos
  constructor
  · intro inside
    have last := inside (w.bytes - 1) (by omega)
    omega
  · intro room i hi
    omega

theorem endOf?_eq_some {a e : BitVec 64} :
    endOf? a w = some e ↔ a.toNat + w.bytes < 2 ^ 64 ∧ e.toNat = a.toNat + w.bytes := by
  have few := w.bytes_le
  have width : (BitVec.ofNat 64 w.bytes).toNat = w.bytes := Nat.mod_eq_of_lt (by omega)
  rw [endOf?, BitVec.uaddOverflow, width]
  by_cases room : a.toNat + w.bytes < 2 ^ 64
  · have fits : ¬ a.toNat + w.bytes ≥ 2 ^ 64 := by omega
    have sum : (a + BitVec.ofNat 64 w.bytes).toNat = a.toNat + w.bytes := by
      rw [BitVec.toNat_add, width, Nat.mod_eq_of_lt room]
    simp only [fits, decide_false, Bool.false_eq_true, if_false, Option.some.injEq, room, true_and]
    rw [BitVec.toNat_eq, sum, eq_comm]
  · have exceeds : a.toNat + w.bytes ≥ 2 ^ 64 := by omega
    simp only [exceeds, decide_true, if_true, reduceCtorEq, room, false_and]

/-- The bounds can be checked in machine addresses. An end that does not fit into these is past every buffer. -/
theorem inside_iff_end {a : BitVec 64} (ha : a.toNat = addr) (fits : buf.size < 2 ^ 64) :
    Inside buf addr w ↔ ∃ e, endOf? a w = some e ∧ e.toNat ≤ buf.size := by
  subst ha
  rw [inside_iff]
  constructor
  · intro room
    have small : a.toNat + w.bytes < 2 ^ 64 := by omega
    have sum : (BitVec.ofNat 64 (a.toNat + w.bytes)).toNat = a.toNat + w.bytes := Nat.mod_eq_of_lt small
    exact ⟨BitVec.ofNat 64 (a.toNat + w.bytes), endOf?_eq_some.mpr ⟨small, sum⟩, sum.trans_le room⟩
  · rintro ⟨e, found, room⟩
    rwa [(endOf?_eq_some.mp found).2] at room

theorem write_of_inside (inside : Inside buf addr w) (v : Word) :
    write buf addr w v = (scatter buf addr v w.bytes, true) := if_pos (inside_iff.mp inside)

theorem write_of_not_inside (outside : ¬ Inside buf addr w) (v : Word) : write buf addr w v = (buf, false) :=
  if_neg (mt inside_iff.mpr outside)

theorem read?_of_not_inside (outside : ¬ Inside buf addr w) : read? buf addr w = none :=
  if_neg (mt inside_iff.mpr outside)

theorem toNat_read? (buf : ByteArray) (addr : Nat) (w : Width) :
    (read? buf addr w).map BitVec.toNat =
      if Inside buf addr w then some (w.number fun i => byteAt buf (addr + i)) else none := by
  by_cases inside : Inside buf addr w
  · rw [if_pos inside, read?, if_pos (inside_iff.mp inside), Option.map_some, toNat_gather buf addr w.bytes_le]
    rfl
  · rw [if_neg inside, read?_of_not_inside inside, Option.map_none]

theorem write_succeeds_iff (v : Word) : (write buf addr w v).2 = true ↔ Inside buf addr w := by
  by_cases inside : Inside buf addr w
  · simp [write_of_inside inside, inside]
  · simp [write_of_not_inside inside, inside]

/-- A store does not change where a buffer ends. -/
theorem inside_write (v : Word) (p : Nat) (u : Width) : Inside (write buf addr w v).1 p u ↔ Inside buf p u := by
  by_cases inside : Inside buf addr w
  · rw [write_of_inside inside, Inside, Inside, size_scatter]
  · rw [write_of_not_inside inside]

theorem byteAt_write (inside : Inside buf addr w) (v : Word) :
    byteAt (write buf addr w v).1 = replaced buf addr w v := by
  funext p
  rw [write_of_inside inside]
  exact byteAt_scatter (inside_iff.mp inside) v p

/-- What is read after a store, also of another width and at a place that overlaps in part. -/
theorem toNat_read?_write (inside : Inside buf addr w) (v : Word) (p : Nat) (u : Width) :
    (read? (write buf addr w v).1 p u).map BitVec.toNat =
      if Inside buf p u then some (u.number fun i => replaced buf addr w v (p + i)) else none := by
  rw [toNat_read?, byteAt_write inside]
  simp only [inside_write]

theorem readRepeated_of_not_inside (outside : ¬ Inside buf (placeOf buf addr) w) : readRepeated buf addr w = 0 := by
  rw [readRepeated, read?_of_not_inside outside, Option.getD_none]

theorem writeRepeated_of_not_inside (outside : ¬ Inside buf (placeOf buf addr) w) (v : Word) :
    writeRepeated buf addr w v = buf := by
  rw [writeRepeated, write_of_not_inside outside]

theorem readRepeated_eq_mod {k : Nat} (size : buf.size = 2 ^ k) (addr : Nat) (w : Width) :
    readRepeated buf addr w = (read? buf (addr % buf.size) w).getD 0 := by
  rw [readRepeated, placeOf_eq_mod size]

theorem writeRepeated_eq_mod {k : Nat} (size : buf.size = 2 ^ k) (addr : Nat) (w : Width) (v : Word) :
    writeRepeated buf addr w v = (write buf (addr % buf.size) w v).1 := by
  rw [writeRepeated, placeOf_eq_mod size]

theorem not_inside_empty (empty : buf.size = 0) (p : Nat) (w : Width) : ¬ Inside buf p w := by
  have some_byte := w.bytes_pos
  rw [inside_iff]
  omega

end

/-- Accesses by their bytes. A store is carried out if all its bytes have a place, and this is the bounds check
on machine addresses. A read afterwards, of any width and at any address, has the bytes that were stored and
otherwise the old ones; a store that is refused changes nothing, and there is nothing to read in its place. A
buffer whose size is a power of two answers for the remainder of an address, hence alike for all addresses of
one remainder. What would run past the end from there, or is asked of an empty buffer, reads zero and stores
nothing, and at a multiple of a width that the buffer has room for this does not happen. -/
theorem accesses_by_byte (buf : ByteArray) (addr : Nat) (w : Width) (v : Word) :
    ((write buf addr w v).2 = true ↔ Inside buf addr w) ∧
    (∀ a : BitVec 64, a.toNat = addr → buf.size < 2 ^ 64 →
      (Inside buf addr w ↔ ∃ e, endOf? a w = some e ∧ e.toNat ≤ buf.size)) ∧
    (Inside buf addr w → ∀ p u,
      (read? (write buf addr w v).1 p u).map BitVec.toNat =
        if Inside buf p u then some (u.number fun i => replaced buf addr w v (p + i)) else none) ∧
    (¬ Inside buf addr w → write buf addr w v = (buf, false) ∧ read? buf addr w = none) ∧
    (∀ k, buf.size = 2 ^ k →
      readRepeated buf addr w = (read? buf (addr % buf.size) w).getD 0 ∧
      writeRepeated buf addr w v = (write buf (addr % buf.size) w v).1 ∧
      (∀ p, p % buf.size = addr % buf.size →
        readRepeated buf p w = readRepeated buf addr w ∧ writeRepeated buf p w v = writeRepeated buf addr w v) ∧
      (¬ Inside buf (addr % buf.size) w → readRepeated buf addr w = 0 ∧ writeRepeated buf addr w v = buf) ∧
      (w.bytes ∣ addr → w.bytes ≤ buf.size → Inside buf (addr % buf.size) w)) ∧
    (buf.size = 0 → readRepeated buf addr w = 0 ∧ writeRepeated buf addr w v = buf) := by
  refine ⟨write_succeeds_iff v, fun a ha fits => inside_iff_end ha fits,
    fun inside p u => toNat_read?_write inside v p u,
    fun outside => ⟨write_of_not_inside outside v, read?_of_not_inside outside⟩, ?_, ?_⟩
  · intro k size
    have place := placeOf_eq_mod size
    refine ⟨readRepeated_eq_mod size addr w, writeRepeated_eq_mod size addr w v, ?_, ?_, ?_⟩
    · intro p same
      rw [readRepeated_eq_mod size, readRepeated_eq_mod size, writeRepeated_eq_mod size,
        writeRepeated_eq_mod size, same]
      exact ⟨rfl, rfl⟩
    · intro outside
      rw [← place] at outside
      exact ⟨readRepeated_of_not_inside outside, writeRepeated_of_not_inside outside v⟩
    · intro aligned room
      exact inside_iff.mpr (mod_add_le_of_dvd size (size ▸ room) aligned)
  · intro empty
    have outside := not_inside_empty empty (placeOf buf addr) w
    exact ⟨readRepeated_of_not_inside outside, writeRepeated_of_not_inside outside v⟩

/-- Four zeros, of which two are overwritten. -/
theorem half_in_four_bytes :
    (write (zeros 4) 2 .half 0xBEEF).2 = true ∧
    (∃ e, endOf? 2 .half = some e ∧ e.toNat ≤ 4) ∧
    (read? (write (zeros 4) 2 .half 0xBEEF).1 0 .word).map BitVec.toNat = some 0xBEEF0000 ∧
    write (zeros 4) (2 ^ 64 - 1) .half 0xBEEF = (zeros 4, false) ∧
    readRepeated (zeros 4) 6 .half = readRepeated (zeros 4) 2 .half ∧
    writeRepeated (zeros 4) 3 .half 0xBEEF = zeros 4 ∧
    Inside (zeros 4) (6 % 4) .half ∧
    readRepeated (zeros 0) 6 .half = 0 := by
  have four : (zeros 4).size = 2 ^ 2 := size_zeros 4
  have none : (zeros 0).size = 0 := size_zeros 0
  have inside : Inside (zeros 4) 2 .half := by decide
  obtain ⟨succeeds, machine, later, -, repeated, -⟩ := accesses_by_byte (zeros 4) 2 .half 0xBEEF
  obtain ⟨-, -, same, -, -⟩ := repeated 2 four
  obtain ⟨-, -, -, refused, -, -⟩ := accesses_by_byte (zeros 4) (2 ^ 64 - 1) .half 0xBEEF
  obtain ⟨-, -, -, past, -⟩ := (accesses_by_byte (zeros 4) 3 .half 0xBEEF).2.2.2.2.1 2 four
  obtain ⟨-, -, -, -, aligned⟩ := (accesses_by_byte (zeros 4) 6 .half 0xBEEF).2.2.2.2.1 2 four
  obtain ⟨-, -, -, -, -, empty⟩ := accesses_by_byte (zeros 0) 6 .half 0xBEEF
  have outside : ¬ Inside (zeros 4) (2 ^ 64 - 1) .half := by decide
  refine ⟨succeeds.mpr inside, (machine 2 rfl (by decide)).mp inside, (later inside 0 .word).trans (by decide),
    (refused outside).1, (same 6 (by decide)).1, (past (by decide)).2, aligned (by decide) (by decide),
    (empty none).1⟩

end ByteBuffer

end Lockstep
