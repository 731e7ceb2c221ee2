import Lockstep.FlatMemory
import Lockstep.Proofs.BlockTransfers
import Lockstep.Proofs.Bytes

/-!
Buses with nothing but bytes behind them. Accesses are rounded down to their width, and numbers are little-endian. A
byte can be visible at several addresses. A word that is written reads back, and the bytes at other places stay.
-/

namespace Lockstep

variable {σ ι : Type}

def Word.ofBytes (byte : Nat → BitVec 8) : Word :=
  (byte 0).setWidth 32 ||| (byte 1).setWidth 32 <<< 8 ||| (byte 2).setWidth 32 <<< 16 |||
    (byte 3).setWidth 32 <<< 24

theorem Word.extract_ofBytes (byte : Nat → BitVec 8) {i : Nat} (h : i < 4) :
    (ofBytes byte).extractLsb' (8 * i) 8 = byte i := by
  refine BitVec.eq_of_getLsbD_eq fun j hj => ?_
  interval_cases i <;> simp [ofBytes, hj] <;> grind

theorem Word.eq_of_extract {v v' : Word} (h : ∀ i < 4, v.extractLsb' (8 * i) 8 = v'.extractLsb' (8 * i) 8) :
    v = v' := by
  refine BitVec.eq_of_getLsbD_eq fun j hj => ?_
  have bit := congrArg (·.getLsbD (j % 8)) (h (j / 8) (by omega))
  simpa [Nat.mod_lt j (by decide : 8 > 0), Nat.div_add_mod] using bit

/-- The bytes that a system keeps. -/
structure ByteMemory (σ ι : Type) where
  /-- The states of the system in which it is a memory. -/
  sound : σ → Prop
  /-- Where the byte at an address is kept. -/
  place : Address → ι
  byte : σ → ι → BitVec 8

namespace ByteMemory

variable (M : ByteMemory σ ι)

/-- Where the bytes are kept of the unit that contains an address, lowest first. -/
def unit (w : Width) (a : Address) (i : Nat) : ι := M.place (w.align a + BitVec.ofNat 32 i)

def word (s : σ) (a : Address) : Word := Word.ofBytes fun i => M.byte s (M.unit .word a i)

/-- The system may have changed, but not what is in memory. -/
structure Same (s s' : σ) : Prop where
  sound : M.sound s'
  byte : M.byte s' = M.byte s

structure Stored (w : Width) (a : Address) (v : Word) (s s' : σ) : Prop where
  sound : M.sound s'
  holds : ∀ i < w.bytes, M.byte s' (M.unit w a i) = v.extractLsb' (8 * i) 8
  others : ∀ p, (∀ i < w.bytes, p ≠ M.unit w a i) → M.byte s' p = M.byte s p

/-- A bus that leads to these bytes, and has no way to the processor. -/
structure Behind (bus : Bus σ) : Prop where
  waitTime_cpu : ∀ w a k m, (bus.waitTime w a k m).2.cpu = m.cpu
  get_cpu : ∀ w a m, (bus.get w a m).2.cpu = m.cpu
  set_cpu : ∀ w a v m, (bus.set w a v m).cpu = m.cpu
  waitTime : ∀ w a k m, M.sound m.system → M.Same m.system (bus.waitTime w a k m).2.system
  get : ∀ w a m, M.sound m.system → M.Same m.system (bus.get w a m).2.system
  value : ∀ w a m, M.sound m.system → ∀ i < w.bytes,
    (bus.get w a m).1.extractLsb' (8 * i) 8 = M.byte m.system (M.unit w a i)
  set : ∀ w a v m, M.sound m.system → M.Stored w a v m.system (bus.set w a v m).system

variable {M}

theorem extract_word (s : σ) (a : Address) {i : Nat} (h : i < 4) :
    (M.word s a).extractLsb' (8 * i) 8 = M.byte s (M.unit .word a i) :=
  Word.extract_ofBytes _ h

theorem Same.word {s s' : σ} (h : M.Same s s') (a : Address) : M.word s' a = M.word s a := by
  rw [ByteMemory.word, ByteMemory.word, h.byte]

theorem Same.trans {s₁ s₂ s₃ : σ} (h : M.Same s₁ s₂) (h' : M.Same s₂ s₃) : M.Same s₁ s₃ :=
  ⟨h'.sound, h'.byte.trans h.byte⟩

theorem Stored.word {a : Address} {v : Word} {s s' : σ} (h : M.Stored .word a v s s') : M.word s' a = v :=
  Word.eq_of_extract fun i hi => (extract_word s' a hi).trans (h.holds i hi)

def Apart (M : ByteMemory σ ι) (a b : Address) : Prop := ∀ i < 4, ∀ j < 4, M.unit .word a i ≠ M.unit .word b j

theorem Apart.symm {a b : Address} (h : M.Apart a b) : M.Apart b a := fun i hi j hj => (h j hj i hi).symm

namespace Behind

variable {bus : Bus σ} (h : M.Behind bus)
include h

theorem keepsRegisters : bus.KeepsRegisters where
  get w a m := congrArg Processor.regs (h.get_cpu w a m)
  set w a v m := congrArg Processor.regs (h.set_cpu w a v m)
  waitTime w a k m := congrArg Processor.regs (h.waitTime_cpu w a k m)

variable {m : Machine σ} (sound : M.sound m.system)
include sound

/-- A read gives the word. -/
theorem read (a : Address) (k : Access) :
    (bus.read .word a k m).1 = M.word m.system a ∧ M.Same m.system (bus.read .word a k m).2.system := by
  have waited : M.Same m.system (bus.wait .word a k m).system := h.waitTime .word a k m sound
  have got := h.get .word a _ waited.sound
  have value := h.value .word a _ waited.sound
  refine ⟨?_, waited.trans got⟩
  have plain : (bus.read .word a k m).1 = (bus.get .word a (bus.wait .word a k m)).1 := by
    simp [Bus.read, Bus.load, Width.truncate]
  rw [plain, ← waited.word]
  exact Word.eq_of_extract fun i hi => (value i hi).trans (extract_word _ a hi).symm

/-- A write stores the word. -/
theorem write (a : Address) (v : Word) (k : Access) :
    M.Stored .word a v m.system (bus.write .word a v k m).system := by
  have waited : M.Same m.system (bus.wait .word a k.asWrite m).system := h.waitTime .word a k.asWrite m sound
  have stored := h.set .word a v _ waited.sound
  exact ⟨stored.sound, stored.holds, fun p other => (stored.others p other).trans (congrFun waited.byte p)⟩

/-- A jump only waits. -/
theorem jump (a : Address) : M.Same m.system (bus.jump a m).system :=
  have first := h.waitTime _ _ _ m sound
  first.trans (h.waitTime _ _ _ _ first.sound)

omit sound

/-- A write takes the time of the wait for it. -/
theorem write_cpu (a : Address) (v : Word) (k : Access) (m : Machine σ) :
    (bus.write .word a v k m).cpu = m.cpu.idle (bus.waitTime .word a k.asWrite m).1 :=
  (h.set_cpu .word a v _).trans
    (congrArg (fun p : Processor => p.idle (bus.waitTime .word a k.asWrite m).1) (h.waitTime_cpu .word a k.asWrite m))

end Behind

end ByteMemory

namespace FlatMemory

/-- A memory of a size that is a power of two. -/
def bytes (size : Nat) : ByteMemory FlatMemory Nat where
  sound s := s.ram.size = size
  place a := a.toNat % size
  byte s := ByteBuffer.byteAt s.ram

theorem bytes_behind {k : Nat} (hk : 2 ≤ k) (architecture : Architecture)
    (timing : Width → Address → Access → Nat) : (bytes (2 ^ k)).Behind (bus architecture timing) where
  waitTime_cpu _ _ _ _ := rfl
  get_cpu _ _ _ := rfl
  set_cpu _ _ _ _ := rfl
  waitTime _ _ _ _ sound := ⟨sound, rfl⟩
  get _ _ _ sound := ⟨sound, rfl⟩
  value w a m sound i hi := by
    have repeats : ByteBuffer.Repeats m.system.ram := ⟨k, hk, sound⟩
    have size : m.system.ram.size = 2 ^ k := sound
    refine (repeats.extract_readRepeated (w.bytes_dvd_align a) hi).trans ?_
    rw [← repeats.place_add (w.bytes_dvd_align a) hi, ← w.toNat_align_add a hi, size]
    rfl
  set w a v m sound := by
    have repeats : ByteBuffer.Repeats m.system.ram := ⟨k, hk, sound⟩
    have size : m.system.ram.size = 2 ^ k := sound
    have place {i : Nat} (hi : i < w.bytes) :
        (bytes (2 ^ k)).unit w a i = (w.align a).toNat % m.system.ram.size + i := by
      rw [← repeats.place_add (w.bytes_dvd_align a) hi, ← w.toNat_align_add a hi, size]
      rfl
    have byteAt := repeats.byteAt_writeRepeated (w.bytes_dvd_align a) v
    refine ⟨(ByteBuffer.size_writeRepeated _ _ _ _).trans sound, fun i hi => ?_, fun p other => ?_⟩
    · rw [place hi]
      refine (byteAt _).trans ?_
      rw [if_pos ⟨Nat.le_add_right _ _, Nat.add_lt_add_left hi _⟩, Nat.add_sub_cancel_left]
    · refine (byteAt p).trans (if_neg fun inside => ?_)
      have hi : p - (w.align a).toNat % m.system.ram.size < w.bytes := by omega
      refine other _ hi ?_
      rw [place hi]
      omega

/-- Words in a row do not overlap, if all of them together fit into the memory. -/
theorem bytes_apart {k n i j : Nat} (hk : 2 ≤ k) (room : 4 * n ≤ 2 ^ k) (few : 4 * n ≤ 2 ^ 32) (hi : i < n) (hj : j < n)
    (other : i ≠ j) (a : Address) :
    (bytes (2 ^ k)).Apart (a + BitVec.ofNat 32 (4 * i)) (a + BitVec.ofNat 32 (4 * j)) := by
  intro x hx y hy same
  have start (i : Nat) :
      (Width.word.align (a + BitVec.ofNat 32 (4 * i))).toNat = (a.toNat / 4 * 4 + 4 * i) % 2 ^ 32 := by
    rw [Width.toNat_align, BitVec.toNat_add, BitVec.toNat_ofNat, Width.bytes]
    omega
  have places : (a.toNat / 4 * 4 + 4 * i) % 2 ^ 32 + x ≡ (a.toNat / 4 * 4 + 4 * j) % 2 ^ 32 + y [MOD 2 ^ k] := by
    rw [← start, ← start, ← Width.toNat_align_add .word _ hx, ← Width.toNat_align_add .word _ hy]
    exact same
  obtain rfl : x = y := by
    have quarter := places.of_dvd (Nat.pow_dvd_pow 2 hk)
    have unit (i : Nat) : (a.toNat / 4 * 4 + 4 * i) % 2 ^ 32 % 2 ^ 2 = 0 := by omega
    unfold Nat.ModEq at quarter
    omega
  -- Only the lower of the two sizes, of the memory and of the addresses, matters.
  have wrapped (i : Nat) : (a.toNat / 4 * 4 + 4 * i) % 2 ^ 32 ≡ a.toNat / 4 * 4 + 4 * i [MOD 2 ^ min k 32] :=
    (Nat.mod_modEq _ _).of_dvd (Nat.pow_dvd_pow 2 (Nat.min_le_right k 32))
  have rows : a.toNat / 4 * 4 + 4 * i ≡ a.toNat / 4 * 4 + 4 * j [MOD 2 ^ min k 32] :=
    ((wrapped i).symm.trans ((Nat.ModEq.add_right_cancel' x places).of_dvd
      (Nat.pow_dvd_pow 2 (Nat.min_le_left k 32)))).trans (wrapped j)
  have bound : 4 * n ≤ 2 ^ min k 32 := by
    rcases Nat.le_total k 32 with h | h
    · rwa [Nat.min_eq_left h]
    · rwa [Nat.min_eq_right h]
  have := (Nat.ModEq.add_left_cancel' _ rows).eq_of_lt_of_lt (by omega) (by omega)
  omega

end FlatMemory

end Lockstep
