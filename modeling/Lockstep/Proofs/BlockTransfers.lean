import Lockstep.Proofs.Failures
import Lockstep.Proofs.InstructionsSeen
import Lockstep.Proofs.Kinds
import Lockstep.Proofs.SoftwareCalls
import Lockstep.Proofs.Transcript
import Lockstep.Proofs.UserMode
import Mathlib.Data.List.Basic

/-!
Transfers of several registers. They ask the system for one word after the other, and each register of the list
has its word. Where the system leaves the registers alone, it is as if all of them moved at once, but for the base.
-/

namespace Lockstep

variable {σ : Type} {bus : Bus σ}

theorem Register.middle_lt (i : Fin 5) : 8 + i.val < 16 := by omega

def Slot.number : Slot → Register
  | .low i => LowRegister.wide i
  | .high i | .fast i => ⟨8 + i.val, Register.middle_lt i⟩
  | .stack _ => Register.sp
  | .link _ => Register.lr

theorem Mode.number_slot {k : Mode} {r : Register} {s : Slot} : k.slot? r = some s → s.number = r := by
  have all : ∀ r, ∀ s ∈ k.slot? r, s.number = r := by cases k <;> decide
  exact all r s

theorem Register.mem_ofList {list : BitVec 16} {r : Register} : r ∈ ofList list ↔ list.getLsbD r.val = true := by
  rw [← ofList_contains, List.contains_iff_mem]

theorem Register.ofList_nodup (list : BitVec 16) : (ofList list).Nodup := (List.nodup_finRange 16).filter _

theorem Register.ofList_ne_nil {list : BitVec 16} (h : list ≠ 0) : ofList list ≠ [] := by
  intro none
  refine h (BitVec.eq_of_getLsbD_eq fun i hi => ?_)
  have absent : (⟨i, hi⟩ : Register) ∉ ofList list := none ▸ List.not_mem_nil
  rw [mem_ofList, Bool.not_eq_true] at absent
  exact absent.trans BitVec.getLsbD_zero.symm

namespace Registers

structure Filled (k : Mode) (rs : List Register) (value : Register → Word) (f f' : Registers) : Prop where
  loaded : ∀ r ∈ rs, r ≠ Register.pc → f'.readAs k r = value r
  others : ∀ s, (∀ r ∈ rs, k.slot? r ≠ some s) → f'.cell s = f.cell s
  saved : f'.saved = f.saved
  pc : f'.pc = f.pc
  cpsr : f'.cpsr = f.cpsr
  mode : f'.mode = f.mode

/-- Write a register as seen from a mode. The program counter is not written. -/
def put (k : Mode) (r : Register) (v : Word) (f : Registers) : Registers :=
  match k.slot? r with
  | some s => f.setCell s v
  | none => f

theorem put_mode {r : Register} (h : r ≠ Register.pc) (v : Word) (f : Registers) : f.put f.mode r v = f.write r v := by
  unfold put write
  cases named : f.mode.slot? r with
  | some s => rfl
  | none => exact absurd ((Mode.slot?_eq_none _ _).mp named) h

theorem put_pc (k : Mode) (v : Word) (f : Registers) : f.put k Register.pc v = f := by
  rw [put, (Mode.slot?_eq_none k _).mpr rfl]

theorem put_same (k : Mode) (r : Register) (v : Word) (f : Registers) :
    (f.put k r v).saved = f.saved ∧ (f.put k r v).pc = f.pc ∧ (f.put k r v).cpsr = f.cpsr ∧
      (f.put k r v).mode = f.mode := by
  unfold put
  cases k.slot? r <;> exact ⟨rfl, rfl, rfl, rfl⟩

theorem readAs_eq {f : Registers} {k : Mode} {r : Register} {s : Slot} (h : k.slot? r = some s) :
    f.readAs k r = f.cell s := by
  rw [readAs, h]

/-- A write to another register does not show, whatever the modes. -/
theorem readAs_setCell {f : Registers} {k : Mode} {r : Register} {s : Slot} (other : s.number ≠ r) (v : Word) :
    (f.setCell s v).readAs k r = f.readAs k r := by
  unfold readAs
  cases named : k.slot? r with
  | none => rfl
  | some t =>
    have apart : t ≠ s := by
      rintro rfl
      exact other (Mode.number_slot named)
    exact (f.cell_setCell s t v).trans (if_neg apart)

theorem readAs_put {f : Registers} {k k' : Mode} {r r' : Register} (other : r' ≠ r) (v : Word) :
    (f.put k r v).readAs k' r' = f.readAs k' r' := by
  unfold put
  cases named : k.slot? r with
  | none => rfl
  | some s => exact readAs_setCell (by rwa [Mode.number_slot named, ne_comm]) v

theorem readAs_put_self {f : Registers} {k : Mode} {r : Register} (h : r ≠ Register.pc) (v : Word) :
    (f.put k r v).readAs k r = v := by
  unfold put
  cases named : k.slot? r with
  | none => exact absurd ((Mode.slot?_eq_none k r).mp named) h
  | some s => rw [readAs_eq named, f.cell_setCell, if_pos rfl]

theorem put_put (k : Mode) (r : Register) (v v' : Word) (f : Registers) : (f.put k r v).put k r v' = f.put k r v' := by
  unfold put
  cases k.slot? r with
  | none => rfl
  | some s => simp only [setCell, Vector.set_set]

theorem cell_put {f : Registers} {k : Mode} {r : Register} {s : Slot} (other : k.slot? r ≠ some s) (v : Word) :
    (f.put k r v).cell s = f.cell s := by
  unfold put
  cases named : k.slot? r with
  | none => rfl
  | some t =>
    have apart : s ≠ t := by
      rintro rfl
      exact other named
    exact (f.cell_setCell t s v).trans (if_neg apart)

namespace Filled

variable {k : Mode} {rs : List Register} {value : Register → Word} {f f' : Registers} {r : Register}

theorem refl (k : Mode) (value : Register → Word) (f : Registers) : Filled k [] value f f :=
  ⟨fun _ none => absurd none List.not_mem_nil, fun _ _ => rfl, rfl, rfl, rfl, rfl⟩

theorem cons (fresh : r ∉ rs) (h : Filled k rs value (f.put k r (value r)) f') : Filled k (r :: rs) value f f' := by
  obtain ⟨saved, pc, cpsr, mode⟩ := f.put_same k r (value r)
  cases named : k.slot? r with
  | none =>
    obtain rfl := (Mode.slot?_eq_none k r).mp named
    rw [put_pc] at h
    refine ⟨fun r mem ne => ?_, fun t apart => ?_, h.saved, h.pc, h.cpsr, h.mode⟩
    · exact h.loaded r ((List.mem_cons.mp mem).resolve_left ne) ne
    · exact h.others t (List.forall_mem_cons.mp apart).2
  | some s =>
    have kept (t : Slot) (apart : ∀ r' ∈ rs, k.slot? r' ≠ some t) :
        f'.cell t = if t = s then value r else f.cell t := by
      rw [h.others t apart, put, named]
      exact f.cell_setCell s t _
    refine ⟨fun r' mem ne => ?_, fun t apart => ?_, h.saved.trans saved, h.pc.trans pc, h.cpsr.trans cpsr,
      h.mode.trans mode⟩
    · rcases List.mem_cons.mp mem with rfl | later
      · have once : ∀ r'' ∈ rs, k.slot? r'' ≠ some s := by
          rintro r'' mem same
          exact fresh ((Mode.number_slot same).symm.trans (Mode.number_slot named) ▸ mem)
        rw [readAs_eq named, kept s once, if_pos rfl]
      · exact h.loaded r' later ne
    · rw [List.forall_mem_cons] at apart
      rw [kept t apart.2, if_neg]
      rintro rfl
      exact apart.1 named

theorem congr {value' : Register → Word} (h : Filled k rs value f f') (same : ∀ r ∈ rs, value r = value' r) :
    Filled k rs value' f f' :=
  ⟨fun r mem ne => (h.loaded r mem ne).trans (same r mem), h.others, h.saved, h.pc, h.cpsr, h.mode⟩

end Filled

end Registers

/-- Accesses to memory and the waits for them leave the registers alone. -/
structure Bus.KeepsRegisters (bus : Bus σ) : Prop extends bus.AccessesApart where
  waitTime : ∀ w a k m, (bus.waitTime w a k m).2.cpu.regs = m.cpu.regs

namespace Bus.KeepsRegisters

variable (h : bus.KeepsRegisters)
include h

theorem recorded : bus.recorded.KeepsRegisters where
  get w a m := h.get w a (m.seen Prod.fst)
  set w a v m := h.set w a v (m.seen Prod.fst)
  waitTime w a k m := h.waitTime w a k (m.seen Prod.fst)

theorem read (w : Width) (a : Address) (k : Access) (m : Machine σ) : (bus.read w a k m).2.cpu.regs = m.cpu.regs :=
  (h.get w a _).trans (h.waitTime w a k m)

theorem write (w : Width) (a : Address) (v : Word) (k : Access) (m : Machine σ) :
    (bus.write w a v k m).cpu.regs = m.cpu.regs :=
  (h.set w a _ _).trans (h.waitTime w a k.asWrite m)

theorem jump (a : Address) (m : Machine σ) :
    (bus.jump a m).cpu.regs =
      { m.cpu.regs with pc := landing m.cpu.regs a + m.cpu.regs.instructionSize } := by
  have kept : bus.KeepsWaiting fun m m' => m'.cpu.regs = m.cpu.regs := h.waitTime
  obtain ⟨m', n, same, jumped⟩ := jump_keeps kept (fun same same' => same'.trans same) a m
  rw [jumped, ← same]
  rfl

end Bus.KeepsRegisters

def Request.move (load : Bool) (a : Address) (k : Access) (cycles : Nat) (v : Word) : Transcript :=
  if load then [.wait .word a k cycles, .get .word a v] else [.wait .word a k.asWrite cycles, .set .word a v]

def Request.isFetch : Request → Bool
  | .wait _ _ k _ => k.code
  | _ => false

theorem Bus.recorded_isV5 (bus : Bus σ) : bus.recorded.isV5 = bus.isV5 := rfl

theorem Bus.recorded_read (bus : Bus σ) (a : Address) (k : Access) (m : Machine (σ × Transcript)) :
    ∃ n, (bus.recorded.read .word a k m).2.system.2 =
      m.system.2 ++ Request.move true a k n (bus.recorded.read .word a k m).1 := by
  have plain : (bus.recorded.read .word a k m).1 = (bus.recorded.load .word a (bus.recorded.wait .word a k m)).1 := by
    simp [read]
  rw [plain]
  exact ⟨_, List.append_assoc ..⟩

theorem Bus.recorded_write (bus : Bus σ) (a : Address) (v : Word) (k : Access) (m : Machine (σ × Transcript)) :
    ∃ n, (bus.recorded.write .word a v k m).system.2 = m.system.2 ++ Request.move false a k n v :=
  ⟨_, List.append_assoc ..⟩

theorem Bus.recorded_jump (bus : Bus σ) (a : Address) (m : Machine (σ × Transcript)) :
    ∃ t : Transcript, (bus.recorded.jump a m).system.2 = m.system.2 ++ t ∧ ∀ q ∈ t, q.isFetch = true :=
  ⟨_, List.append_assoc .., by simp [Request.isFetch, Access.asCode]⟩

namespace Arm

/-- How the word behind another is accessed, and how the first is. -/
def wordKind (i : Nat) : Access := if i = 0 then .nonsequential else .sequel

def wordRequests (load : Bool) (start : Address) (cycles : Register → Nat) (value : Register → Word)
    (rs : List (Register × Nat)) : Transcript :=
  rs.flatMap fun (r, i) =>
    Request.move load (start + BitVec.ofNat 32 (4 * i)) (wordKind i) (cycles r) (value r)

section
variable {load : Bool} {start : Address} {cycles : Register → Nat} {value : Register → Word}

/-- The word of a first register, and those of the registers behind it. -/
theorem wordRequests_cons {r : Register} {rs : List Register} (fresh : r ∉ rs) {j n : Nat} {v : Word}
    {before between after : Transcript}
    (first : between = before ++ Request.move load (start + BitVec.ofNat 32 (4 * j)) (wordKind j) n v)
    (rest : after = between ++ wordRequests load start cycles value (rs.zipIdx (j + 1))) :
    after = before ++
      wordRequests load start (Function.update cycles r n) (Function.update value r v) ((r :: rs).zipIdx j) := by
  have later : wordRequests load start (Function.update cycles r n) (Function.update value r v) (rs.zipIdx (j + 1)) =
      wordRequests load start cycles value (rs.zipIdx (j + 1)) := by
    refine List.flatMap_congr fun p mem => ?_
    obtain ⟨r', i⟩ := p
    have other : r' ≠ r := ne_of_mem_of_not_mem (List.fst_mem_of_mem_zipIdx mem) fresh
    simp only [Function.update_of_ne other]
  rw [rest, first, List.append_assoc, ← later]
  simp only [List.zipIdx_cons, wordRequests, List.flatMap_cons, Function.update_self]

theorem next_word (start : Address) (j : Nat) :
    start + BitVec.ofNat 32 (4 * j) + 4 = start + BitVec.ofNat 32 (4 * (j + 1)) := by
  rw [Nat.mul_add, BitVec.ofNat_add, ← BitVec.add_assoc]
  rfl

end

section
variable (bus)

def bankOf (user : Bool) (f : Registers) : Mode := if user then .user else f.mode

theorem bankOf_put (user : Bool) (k : Mode) (r : Register) (v : Word) (f : Registers) :
    bankOf user (f.put k r v) = bankOf user f := by
  rw [bankOf, (f.put_same k r v).2.2.2, ← bankOf]

theorem loadEach_cons (user : Bool) (pc : Option Word) (r : Register) (rs : List Register) (a : Address) (k : Access)
    (m : Machine σ) :
    loadEach bus user pc (r :: rs) a k m =
      loadEach bus user (if user = false ∧ r = Register.pc then some (bus.read .word a k m).1 else pc) rs (a + 4)
        .sequel ((bus.read .word a k m).2.mapRegs fun f => f.put (bankOf user f) r (bus.read .word a k m).1) := by
  rw [loadEach]
  generalize bus.read .word a k m = x
  unfold bankOf
  cases user with
  | true => rfl
  | false =>
    by_cases counter : r = Register.pc
    · subst counter
      simp [Registers.put_pc]
      rfl
    · simp [counter, Registers.put_mode]

/-- Loading asks for the words of the registers, and puts them where they belong. -/
theorem loadEach_moves_words (user : Bool) (start : Address) {rs : List Register} (distinct : rs.Nodup)
    (pc : Option Word) (j : Nat) (m : Machine (σ × Transcript)) :
    let x := loadEach bus.recorded user pc rs (start + BitVec.ofNat 32 (4 * j)) (wordKind j) m
    ∃ cycles value,
      x.2.system.2 = m.system.2 ++ wordRequests true start cycles value (rs.zipIdx j) ∧
      x.1 = (if user = false ∧ rs.contains Register.pc then some (value Register.pc) else pc) ∧
      (bus.KeepsRegisters → Registers.Filled (bankOf user m.cpu.regs) rs value m.cpu.regs x.2.cpu.regs) := by
  induction rs generalizing pc j m with
  | nil => exact ⟨fun _ => 0, fun _ => 0, (List.append_nil _).symm, by simp [loadEach], fun _ => .refl _ _ _⟩
  | cons r rs ih =>
    obtain ⟨fresh, distinct⟩ := List.nodup_cons.mp distinct
    obtain ⟨n, asked⟩ := bus.recorded_read (start + BitVec.ofNat 32 (4 * j)) (wordKind j) m
    rw [loadEach_cons, next_word]
    have kept (h : bus.KeepsRegisters) := h.recorded.read .word (start + BitVec.ofNat 32 (4 * j)) (wordKind j) m
    revert asked kept
    generalize bus.recorded.read .word (start + BitVec.ofNat 32 (4 * j)) (wordKind j) m = x
    obtain ⟨v, m₁⟩ := x
    intro asked kept
    obtain ⟨cycles, value, requests, counter, filled⟩ := ih distinct
      (if user = false ∧ r = Register.pc then some v else pc) (j + 1) (m₁.mapRegs fun f => f.put (bankOf user f) r v)
    refine ⟨Function.update cycles r n, Function.update value r v, ?_, ?_, fun h => ?_⟩
    · exact wordRequests_cons fresh asked requests
    · refine counter.trans ?_
      by_cases here : r = Register.pc
      · subst here
        simp [fresh, Function.update_self]
      · simp [here, Ne.symm here]
    · have same : ∀ r' ∈ rs, value r' = Function.update value r v r' := by
        rintro r' mem
        rw [Function.update_of_ne (ne_of_mem_of_not_mem mem fresh)]
      have rest := (filled h).congr same
      change Registers.Filled (bankOf user (m₁.cpu.regs.put _ r v)) _ _ _ _ at rest
      rw [bankOf_put] at rest
      rw [← show m₁.cpu.regs = m.cpu.regs from kept h]
      refine .cons fresh ?_
      rw [Function.update_self]
      exact rest

/-- What is stored for a register: for the program counter the address of the instruction and twelve. -/
def stored (user : Bool) (f : Registers) (r : Register) : Word :=
  if r = Register.pc then f.pc + 4 else f.readAs (bankOf user f) r

theorem stored_put {user : Bool} {k : Mode} {r r' : Register} (other : r' ≠ r) (v : Word) (f : Registers) :
    stored user (f.put k r v) r' = stored user f r' := by
  rw [stored, stored, bankOf_put, Registers.readAs_put other, (f.put_same k r v).2.1]

/-- On the older architecture the base is written before it is stored. -/
def writeEarly (early : Register → Bool) (final : Word) (r : Register) (f : Registers) : Registers :=
  if early r then f.put f.mode r final else f

theorem stored_writeEarly {user : Bool} {early : Register → Bool} {r : Register}
    (own : early r = true → r ≠ Register.pc ∧ user = false) (final : Word) (f : Registers) :
    stored user (writeEarly early final r f) r = if early r then final else stored user f r := by
  unfold writeEarly
  split_ifs with written
  · obtain ⟨counter, unmarked⟩ := own written
    rw [stored, if_neg counter, bankOf_put, unmarked, bankOf, if_neg Bool.false_ne_true,
      Registers.readAs_put_self counter]
  · rfl

theorem stored_writeEarly_of_ne {user : Bool} {early : Register → Bool} {r r' : Register} (other : r' ≠ r)
    (final : Word) (f : Registers) : stored user (writeEarly early final r f) r' = stored user f r' := by
  unfold writeEarly
  split_ifs
  · exact stored_put other final f
  · rfl

theorem storeEach_cons (user : Bool) {early : Register → Bool} {r : Register} (named : early r = true → r ≠ Register.pc)
    (final : Word) (rs : List Register) (a : Address) (k : Access) (m : Machine σ) :
    storeEach bus user early final (r :: rs) a k m =
      storeEach bus user early final rs (a + 4) .sequel (bus.write .word a
        (stored user (writeEarly early final r m.cpu.regs) r) k (m.mapRegs (writeEarly early final r))) := by
  have written : (if early r then bus.setReg r final m else m) = m.mapRegs (writeEarly early final r) := by
    unfold writeEarly
    split_ifs with now
    · rw [Bus.setReg, if_neg (named now)]
      simp only [Registers.put_mode (named now)]
    · rfl
  have word (n : Machine σ) : (if r = Register.pc then n.regLate r else
      if user then n.cpu.regs.readUser r else n.reg r) = stored user n.cpu.regs r := by
    unfold stored bankOf
    split_ifs with counter
    · exact if_pos counter
    · rfl
    · rfl
  rw [storeEach]
  simp only [written, word]
  rfl

/-- Storing asks for the words of the registers, of which one may have been written before. -/
theorem storeEach_moves_words (user : Bool) {early : Register → Bool} {n : Register}
    (only : ∀ r, early r = true → r = n ∧ r ≠ Register.pc) (final : Word) (start : Address) {rs : List Register}
    (distinct : rs.Nodup) (j : Nat) (m : Machine (σ × Transcript)) :
    let m' := storeEach bus.recorded user early final rs (start + BitVec.ofNat 32 (4 * j)) (wordKind j) m
    ∃ cycles value,
      m'.system.2 = m.system.2 ++ wordRequests false start cycles value (rs.zipIdx j) ∧
      (bus.KeepsRegisters → (early n = true → user = false) →
        (∀ r ∈ rs, value r = if early r then final else stored user m.cpu.regs r) ∧
        m'.cpu.regs = if rs.contains n then writeEarly early final n m.cpu.regs else m.cpu.regs) := by
  induction rs generalizing j m with
  | nil =>
    refine ⟨fun _ => 0, fun _ => 0, (List.append_nil _).symm, fun _ _ =>
      ⟨fun _ none => absurd none List.not_mem_nil, ?_⟩⟩
    exact (if_neg Bool.false_ne_true).symm
  | cons r rs ih =>
    obtain ⟨fresh, distinct⟩ := List.nodup_cons.mp distinct
    rw [storeEach_cons bus.recorded user fun now => (only r now).2, next_word]
    obtain ⟨c, asked⟩ := bus.recorded_write (start + BitVec.ofNat 32 (4 * j))
      (stored user (writeEarly early final r m.cpu.regs) r) (wordKind j) (m.mapRegs (writeEarly early final r))
    have kept (h : bus.KeepsRegisters) := h.recorded.write .word (start + BitVec.ofNat 32 (4 * j))
      (stored user (writeEarly early final r m.cpu.regs) r) (wordKind j) (m.mapRegs (writeEarly early final r))
    revert asked kept
    generalize bus.recorded.write .word (start + BitVec.ofNat 32 (4 * j)) _ (wordKind j) _ = m₁
    intro asked kept
    obtain ⟨cycles, value, requests, moved⟩ := ih distinct (j + 1) m₁
    refine ⟨Function.update cycles r c, Function.update value r _, wordRequests_cons fresh asked requests,
      fun h own => ?_⟩
    obtain ⟨values, regs⟩ := moved h own
    have same : m₁.cpu.regs = writeEarly early final r m.cpu.regs := kept h
    rw [same] at values regs
    refine ⟨fun r' mem => ?_, regs.trans ?_⟩
    · rcases List.mem_cons.mp mem with rfl | later
      · rw [Function.update_self]
        exact stored_writeEarly (fun now => ⟨(only r' now).2, own ((only r' now).1 ▸ now)⟩) final _
      · have other := ne_of_mem_of_not_mem later fresh
        rw [Function.update_of_ne other, values r' later, stored_writeEarly_of_ne other]
    · by_cases here : r = n
      · subst here
        rw [if_neg fun mem => fresh (List.contains_iff_mem.mp mem),
          if_pos (List.contains_iff_mem.mpr List.mem_cons_self)]
      · have untouched : writeEarly early final r m.cpu.regs = m.cpu.regs := if_neg fun now => here (only r now).1
        rw [untouched, List.contains_cons, beq_eq_false_iff_ne.mpr (Ne.symm here), Bool.false_or]

end

structure Block where
  load : Bool
  n : Register
  list : BitVec 16
  /-- The mark for the user bank. -/
  user : Bool
  i : Indexing

namespace Block

def ofWord (w : Word) : Block where
  load := w.getLsbD 20
  n := register w 16
  list := w.extractLsb' 0 16
  user := w.getLsbD 22
  i := { before := w.getLsbD 24, up := w.getLsbD 23, writeback := w.getLsbD 21 }

variable (b : Block)

def instruction : Instruction := .blockTransfer b.load b.n b.list b.user b.i

def registers : List Register := Register.ofList b.list

/-- Where the lowest register has its word. -/
def start (f : Registers) : Address := blockAddress (f.read b.n) b.registers.length b.i

def final (f : Registers) : Word := Word.offset (f.read b.n) (BitVec.ofNat 32 (4 * b.registers.length)) b.i.up

def Loads (r : Register) : Prop := b.load = true ∧ r ∈ b.registers

def Jumps : Prop := b.Loads Register.pc

/-- Whether the base ends up moved. If it is loaded itself it does so only on the newer architecture, and there
if it is the only register or not the highest. -/
def MovesBase (v5 : Bool) : Prop :=
  b.i.writeback = true ∧
    (b.Loads b.n → v5 = true ∧ (b.registers = [b.n] ∨ b.registers.getLast? ≠ some b.n))

/-- Whether a register is stored as the moved base: on the older architecture the base is, unless it is the lowest. -/
def StoresMoved (v5 : Bool) (r : Register) : Prop :=
  v5 = false ∧ b.i.writeback = true ∧ r = b.n ∧ b.registers.head? ≠ some r

/-- Whether it is not marked for the user bank, or just moves registers of User mode and leaves the base. -/
def Plain : Prop := b.user = false ∨ b.i.writeback = false ∧ ¬ b.Jumps

instance (r : Register) : Decidable (b.Loads r) := inferInstanceAs (Decidable (_ ∧ _))

instance : Decidable b.Jumps := inferInstanceAs (Decidable (b.Loads _))

instance (v5 : Bool) : Decidable (b.MovesBase v5) := inferInstanceAs (Decidable (_ ∧ (_ → _)))

instance (v5 : Bool) (r : Register) : Decidable (b.StoresMoved v5 r) := inferInstanceAs (Decidable (_ ∧ _))

/-- What a transfer comes to, if `value` says what is transferred for each register. -/
structure Moved (v5 : Bool) (value : Register → Word) (p p' : Processor) : Prop where
  /-- What is stored is from before the transfer. -/
  stored : b.load = false → ∀ r ∈ b.registers, value r =
    if b.StoresMoved v5 r then b.final p.regs
    else if r = Register.pc then p.currentAddress + 12
    else p.regs.readAs (bankOf b.user p.regs) r
  /-- What is loaded ends up in its register, unless that is the base and moves. -/
  loaded : ∀ r, b.Loads r → r ≠ Register.pc → ¬ (b.MovesBase v5 ∧ r = b.n) →
    p'.regs.readAs (bankOf b.user p.regs) r = value r
  base : p'.regs.read b.n =
    if b.MovesBase v5 then b.final p.regs
    else if b.Loads b.n ∧ (bankOf b.user p.regs).slot? b.n = p.regs.mode.slot? b.n then value b.n
    else p.regs.read b.n
  /-- No other cell changes. -/
  others : ∀ s, (∀ r, b.Loads r → (bankOf b.user p.regs).slot? r ≠ some s) →
    (b.MovesBase v5 → p.regs.mode.slot? b.n ≠ some s) → p'.regs.cell s = p.regs.cell s
  privileged : b.user = true → ∀ s, s.isPrivileged = true → p'.regs.cell s = p.regs.cell s
  saved : p'.regs.saved = p.regs.saved
  mode : p'.regs.mode = p.regs.mode
  /-- A loaded program counter is a jump, which on the newer architecture chooses the instruction set. -/
  jump : b.Jumps →
    p'.regs.cpsr = (if v5 then p.regs.setFlag .thumb ((value Register.pc).getLsbD 0) else p.regs).cpsr ∧
    p'.nextAddress = Word.alignDown (value Register.pc) p'.regs.instructionSize
  stay : ¬ b.Jumps → p'.regs.cpsr = p.regs.cpsr ∧ p'.regs.pc = p.regs.pc

theorem decode_ofWord (v5 : Bool) {w : Word} (h : w.extractLsb' 25 3 = 0b100) :
    decode v5 w = (ofWord w).instruction := by
  have cls : (classOf w).kind? w = some .blockTransfer := Kind.kind?_of_fits h
  have named : classOf w = .blockTransfer := by
    revert cls
    cases classOf w <;> unfold Class.kind? <;> (try split_ifs) <;> simp
  rw [decode, named]
  rfl

theorem moves_iff (v5 : Bool) :
    (b.i.writeback && !(b.load && keepsBase v5 b.registers b.n)) = true ↔ b.MovesBase v5 := by
  unfold MovesBase keepsBase Loads
  have single : b.n ∈ b.registers → (b.registers.length = 1 ↔ b.registers = [b.n]) := by
    intro mem
    constructor
    · intro one
      obtain ⟨r, only⟩ := List.length_eq_one_iff.mp one
      rw [only, List.mem_singleton] at mem
      rw [only, mem]
    · intro only
      rw [only, List.length_singleton]
  by_cases mem : b.n ∈ b.registers
  · cases b.load <;> simp [mem, single mem]
  · simp [mem]

theorem storesFinal_iff (v5 : Bool) (r : Register) :
    storesFinal v5 b.i.writeback b.n b.registers r = true ↔ b.StoresMoved v5 r := by
  unfold storesFinal StoresMoved
  simp only [Bool.and_eq_true, beq_iff_eq, bne_iff_ne, Bool.not_eq_true']
  tauto

variable {b} {v5 : Bool} {value : Register → Word} {p p' : Processor} {g h : Registers}

def loads (b : Block) : List Register := if b.load then b.registers else []

theorem mem_loads {r : Register} : r ∈ b.loads ↔ b.Loads r := by
  unfold loads Loads
  cases b.load <;> simp

/-- If the base moves it is written after the registers that are loaded. -/
def settle (b : Block) (v5 : Bool) (base : Word) (f : Registers) : Registers :=
  if b.MovesBase v5 then f.put f.mode b.n base else f

theorem settle_same (v5 : Bool) (base : Word) (f : Registers) :
    (b.settle v5 base f).saved = f.saved ∧ (b.settle v5 base f).pc = f.pc ∧ (b.settle v5 base f).cpsr = f.cpsr ∧
      (b.settle v5 base f).mode = f.mode := by
  unfold settle
  split_ifs
  · exact f.put_same _ _ _
  · exact ⟨rfl, rfl, rfl, rfl⟩

def resumed (b : Block) (v5 : Bool) (target : Word) (f : Registers) : Registers :=
  if b.Jumps then
    let g := if v5 then f.setFlag .thumb (target.getLsbD 0) else f
    { g with pc := Bus.landing g target + g.instructionSize }
  else f

theorem resumed_same (v5 : Bool) (target : Word) (f : Registers) :
    (b.resumed v5 target f).cell = f.cell ∧ (b.resumed v5 target f).saved = f.saved ∧
      (b.resumed v5 target f).mode = f.mode := by
  unfold resumed
  split_ifs <;> exact ⟨rfl, rfl, rfl⟩

theorem resumed_jumps (v5 : Bool) (jumps : b.Jumps) (target : Word) (f : Registers) :
    let f' := b.resumed v5 target f
    f'.cpsr = (if v5 then f.setFlag .thumb (target.getLsbD 0) else f).cpsr ∧
      f'.pc - f'.instructionSize = Word.alignDown target f'.instructionSize := by
  rw [resumed, if_pos jumps]
  exact ⟨rfl, BitVec.add_sub_cancel _ _⟩

/-- Loading, then writing the base and then jumping comes to what is said. -/
theorem Moved.of_filled (based : b.n ≠ Register.pc) (plain : b.Plain)
    (stored : b.load = false → ∀ r ∈ b.registers, value r =
      if b.StoresMoved v5 r then b.final p.regs
      else if r = Register.pc then p.currentAddress + 12
      else p.regs.readAs (bankOf b.user p.regs) r)
    (filled : Registers.Filled (bankOf b.user p.regs) b.loads value p.regs g)
    (ended : p'.regs = b.resumed v5 (value Register.pc) (b.settle v5 (b.final p.regs) g)) :
    b.Moved v5 value p p' := by
  obtain ⟨cells, saved, mode⟩ := b.resumed_same v5 (value Register.pc) (b.settle v5 (b.final p.regs) g)
  obtain ⟨saved', pc', cpsr', mode'⟩ := b.settle_same v5 (b.final p.regs) g
  rw [← ended] at cells saved mode
  have kept : p'.regs.mode = p.regs.mode := (mode.trans mode').trans filled.mode
  have reads (k : Mode) {r : Register} (counter : r ≠ Register.pc) :
      p'.regs.readAs k r = (b.settle v5 (b.final p.regs) g).readAs k r := by
    obtain ⟨s, named⟩ := Option.ne_none_iff_exists'.mp (counter ∘ (Mode.slot?_eq_none k r).mp)
    rw [Registers.readAs_eq named, Registers.readAs_eq named, cells]
  have others (s : Slot) (unlisted : ∀ r ∈ b.loads, (bankOf b.user p.regs).slot? r ≠ some s)
      (apart : b.MovesBase v5 → p.regs.mode.slot? b.n ≠ some s) : p'.regs.cell s = p.regs.cell s := by
    rw [cells, settle]
    split_ifs with moves
    · rw [filled.mode, Registers.cell_put (apart moves), filled.others s unlisted]
    · exact filled.others s unlisted
  refine
    { stored, saved := (saved.trans saved').trans filled.saved, mode := kept
      loaded := fun r listed counter free => ?_
      base := ?_
      others := fun s unlisted => others s fun r mem => unlisted r (mem_loads.mp mem)
      privileged := fun user s above => ?_
      jump := fun jumps => ?_
      stay := fun stays => ?_ }
  · rw [reads _ counter, settle, ← filled.loaded r (mem_loads.mpr listed) counter]
    split_ifs with moves
    · exact Registers.readAs_put (fun same => free ⟨moves, same⟩) _
    · rfl
  · rw [Registers.read, kept, reads _ based, settle]
    split_ifs with moves direct
    · rw [filled.mode, Registers.readAs_put_self based]
    · obtain ⟨listed, named⟩ := direct
      rw [← filled.loaded b.n (mem_loads.mpr listed) based]
      unfold Registers.readAs
      rw [named]
    · obtain ⟨s, named⟩ := Option.ne_none_iff_exists'.mp (based ∘ (Mode.slot?_eq_none p.regs.mode b.n).mp)
      rw [Registers.read, Registers.readAs_eq named, Registers.readAs_eq named]
      refine filled.others s fun r mem same => direct ?_
      obtain rfl : r = b.n := (Mode.number_slot same).symm.trans (Mode.number_slot named)
      exact ⟨mem_loads.mp mem, same.trans named.symm⟩
  · have fixed : b.i.writeback = false := (plain.resolve_left (by simp [user])).1
    refine others s (fun r mem same => ?_) fun moves => absurd moves.1 (by simp [fixed])
    rw [bankOf, if_pos user] at same
    exact absurd above (by simp [Mode.owns_user ⟨r, .inl same⟩])
  · obtain ⟨status, next⟩ := resumed_jumps v5 jumps (value Register.pc) (b.settle v5 (b.final p.regs) g)
    rw [← ended] at status next
    refine ⟨status.trans ?_, next⟩
    split_ifs
    · exact congrArg (Bits.put · _ _) (cpsr'.trans filled.cpsr)
    · exact cpsr'.trans filled.cpsr
  · rw [ended, resumed, if_neg stays]
    exact ⟨cpsr'.trans filled.cpsr, pc'.trans filled.pc⟩

theorem jumps_iff : b.Jumps ↔ (b.load && b.list.getLsbD 15) = true := by
  rw [Jumps, Loads, registers, Register.mem_ofList, Bool.and_eq_true]
  rfl

def marked (b : Block) : Bool := b.user && !(b.user && b.load && b.list.getLsbD 15)

theorem marked_of_jumps (jumps : b.Jumps) : b.marked = false := by
  have returns := jumps_iff.mp jumps
  rw [marked, Bool.and_assoc, returns, Bool.and_true, Bool.and_not_self]

/-- The status is not restored. -/
theorem plain_returns (plain : b.Plain) : (b.user && b.load && b.list.getLsbD 15) = false := by
  rcases plain with own | ⟨-, stays⟩
  · rw [own, Bool.false_and, Bool.false_and]
  · rw [jumps_iff, Bool.not_eq_true] at stays
    rw [Bool.and_assoc, stays, Bool.and_false]

theorem marked_of_plain (plain : b.Plain) : b.marked = b.user := by
  rw [marked, plain_returns plain, Bool.not_false, Bool.and_true]

section
variable (bus : Bus σ)

theorem moveBlock_load (load : b.load = true) (m : Machine σ) :
    moveBlock bus b.load b.n b.list b.user b.i m =
      loadEach bus b.marked none b.registers (b.start m.cpu.regs + BitVec.ofNat 32 (4 * 0)) (wordKind 0) m := by
  rw [moveBlock, if_pos load, Nat.mul_zero, BitVec.add_zero]
  rfl

theorem moveBlock_store (load : b.load = false) (m : Machine σ) :
    moveBlock bus b.load b.n b.list b.user b.i m =
      (none, storeEach bus b.marked (storesFinal bus.isV5 b.i.writeback b.n b.registers) (b.final m.cpu.regs)
        b.registers (b.start m.cpu.regs + BitVec.ofNat 32 (4 * 0)) (wordKind 0) m) := by
  rw [moveBlock, load, if_neg Bool.false_ne_true, Nat.mul_zero, BitVec.add_zero]
  rw [marked, load]
  rfl

/-- The registers move; after that, if the base moves, it is as if it did from a file into which they were loaded. -/
theorem moveBlock_words (based : b.n ≠ Register.pc) (m : Machine (σ × Transcript)) :
    let x := moveBlock bus.recorded b.load b.n b.list b.user b.i m
    ∃ cycles value,
      x.2.system.2 = m.system.2 ++ wordRequests b.load (b.start m.cpu.regs) cycles value b.registers.zipIdx ∧
      x.1 = (if b.Jumps then some (value Register.pc) else none) ∧
      (bus.KeepsRegisters → b.Plain →
        (b.load = false → ∀ r ∈ b.registers, value r =
          if b.StoresMoved bus.isV5 r then b.final m.cpu.regs else Arm.stored b.user m.cpu.regs r) ∧
        ∃ g, Registers.Filled (bankOf b.user m.cpu.regs) b.loads value m.cpu.regs g ∧
          b.settle bus.isV5 (b.final m.cpu.regs) x.2.cpu.regs = b.settle bus.isV5 (b.final m.cpu.regs) g) := by
  have distinct : b.registers.Nodup := Register.ofList_nodup b.list
  cases load : b.load with
  | true =>
    obtain ⟨cycles, value, requests, counter, filled⟩ :=
      loadEach_moves_words bus b.marked (b.start m.cpu.regs) distinct none 0 m
    have run := moveBlock_load bus.recorded load m
    rw [load] at run
    rw [run]
    refine ⟨cycles, value, requests, counter.trans ?_, fun h plain =>
      ⟨fun store => absurd store Bool.noConfusion, _, ?_, rfl⟩⟩
    · have jumps : (b.marked = false ∧ b.registers.contains Register.pc = true) = b.Jumps := by
        rw [List.contains_iff_mem]
        exact propext ⟨fun both => ⟨load, both.2⟩, fun jumps => ⟨marked_of_jumps jumps, jumps.2⟩⟩
      simp only [jumps]
    · have all : b.loads = b.registers := if_pos load
      rw [all, ← marked_of_plain plain]
      exact filled h
  | false =>
    have only : ∀ r, storesFinal bus.isV5 b.i.writeback b.n b.registers r = true → r = b.n ∧ r ≠ Register.pc := by
      intro r early
      obtain ⟨-, -, rfl, -⟩ := (storesFinal_iff b bus.isV5 r).mp early
      exact ⟨rfl, based⟩
    obtain ⟨cycles, value, requests, moved⟩ :=
      storeEach_moves_words bus b.marked only (b.final m.cpu.regs) (b.start m.cpu.regs) distinct 0 m
    have run := moveBlock_store bus.recorded load m
    rw [load, Bus.recorded_isV5] at run
    rw [run]
    have stays : ¬ b.Jumps := fun jumps => Bool.false_ne_true (load.symm.trans jumps.1)
    refine ⟨cycles, value, requests, (if_neg stays).symm, fun h plain => ?_⟩
    have mark := marked_of_plain plain
    have unloaded : b.loads = [] := if_neg (by simp [load])
    have own : storesFinal bus.isV5 b.i.writeback b.n b.registers b.n = true → b.marked = false := by
      intro early
      have writes := ((storesFinal_iff b bus.isV5 b.n).mp early).2.1
      rw [mark]
      exact plain.resolve_right fun fixed => Bool.false_ne_true (fixed.1.symm.trans writes)
    obtain ⟨values, regs⟩ := moved h own
    refine ⟨fun _ r mem => ?_, m.cpu.regs, unloaded ▸ .refl _ _ _, ?_⟩
    · rw [values r mem, mark]
      simp only [storesFinal_iff]
    · rw [regs]
      by_cases early : storesFinal bus.isV5 b.i.writeback b.n b.registers b.n = true
      · have moves : b.MovesBase bus.isV5 := ⟨((storesFinal_iff b bus.isV5 b.n).mp early).2.1, by simp [Loads, load]⟩
        rw [writeEarly, if_pos early, settle, settle, if_pos moves, if_pos moves]
        split_ifs
        · rw [(m.cpu.regs.put_same _ _ _).2.2.2, Registers.put_put]
        · rfl
      · rw [writeEarly, if_neg early, ite_self]

theorem continueAt_asks (returns : Bool) (pc : Option Word) (m : Machine (σ × Transcript)) :
    ∃ t : Transcript, ((continueAt bus.recorded returns pc).final m).system.2 = m.system.2 ++ t ∧
      (∀ q ∈ t, q.isFetch = true) ∧ (pc = none → t = []) := by
  cases pc with
  | none => exact ⟨[], (List.append_nil _).symm, by simp, fun _ => rfl⟩
  | some target =>
    have asks : ∃ t : Transcript,
        ((continueAt bus.recorded returns (some target)).final m).system.2 = m.system.2 ++ t ∧
          ∀ q ∈ t, q.isFetch = true := by
      simp only [continueAt, Exec.final_bind, Exec.get_eq]
      split_ifs
      · rw [Exec.final_bind, Exec.setCpsr_eq]
        cases m.cpu.regs.setCpsr m.cpu.regs.spsr with
        | ok f => exact bus.recorded_jump target (m.mapRegs fun _ => f)
        | error e => exact ⟨[], (List.append_nil _).symm, by simp⟩
      · show ∃ t : Transcript, (bus.recorded.setRegLoaded Register.pc target m).system.2 = m.system.2 ++ t ∧ _
        rw [Bus.setRegLoaded, if_pos rfl]
        split_ifs
        · exact bus.recorded_jump target (m.setFlag .thumb (target.getLsbD 0))
        · exact bus.recorded_jump target m
    obtain ⟨t, asked, fetches⟩ := asks
    exact ⟨t, asked, fetches, fun none => absurd none (by simp)⟩

theorem setRegLoaded_pc (h : bus.KeepsRegisters) (target : Word) (m : Machine σ) :
    let f := if bus.isV5 then m.cpu.regs.setFlag .thumb (target.getLsbD 0) else m.cpu.regs
    (bus.setRegLoaded Register.pc target m).cpu.regs =
      { f with pc := Bus.landing f target + f.instructionSize } := by
  rw [Bus.setRegLoaded, if_pos rfl]
  split_ifs
  · exact h.jump target (m.setFlag .thumb (target.getLsbD 0))
  · exact h.jump target m

theorem finishBlock_same (listed : b.list ≠ 0) (m : Machine σ) :
    (finishBlock bus b.load b.n b.list b.i m).system = m.system ∧
      (finishBlock bus b.load b.n b.list b.i m).cpu.regs = m.cpu.regs := by
  have some : (Register.ofList b.list).isEmpty = false := by
    rw [List.isEmpty_eq_false_iff]
    exact Register.ofList_ne_nil listed
  unfold finishBlock
  rw [some]
  cases b.load <;> exact ⟨rfl, rfl⟩

def rest (b : Block) (bus : Bus σ) (pc : Option Word) : Exec σ Unit := do
  continueAt bus (b.user && b.load && b.list.getLsbD 15) pc
  modify (finishBlock bus b.load b.n b.list b.i)

theorem blockTransfer_parts (based : b.n ≠ Register.pc) (m : Machine σ) :
    let x := moveBlock bus b.load b.n b.list b.user b.i m
    blockTransfer bus b.load b.n b.list b.user b.i m =
      b.rest bus x.1 (x.2.mapRegs (b.settle bus.isV5 (b.final m.cpu.regs))) := by
  have written (base : Word) (m : Machine σ) : (if b.MovesBase bus.isV5 then bus.setReg b.n base m else m) =
      m.mapRegs (b.settle bus.isV5 base) := by
    unfold settle
    split_ifs
    · rw [Bus.setReg, if_neg based]
      simp only [Registers.put_mode based]
    · rfl
  rw [blockTransfer_eq]
  simp only [← written, ← moves_iff]
  rfl

theorem rest_asks (listed : b.list ≠ 0) (pc : Option Word) (m : Machine (σ × Transcript)) :
    ∃ t : Transcript, ((b.rest bus.recorded pc).final m).system.2 = m.system.2 ++ t ∧
      (∀ q ∈ t, q.isFetch = true) ∧ (pc = none → t = []) := by
  obtain ⟨t, asked, fetches, stay⟩ := continueAt_asks bus (b.user && b.load && b.list.getLsbD 15) pc m
  refine ⟨t, Eq.trans ?_ asked, fetches, stay⟩
  rw [rest, Exec.final_bind, Exec.final]
  cases continueAt bus.recorded (b.user && b.load && b.list.getLsbD 15) pc m with
  | ok _ m₁ => exact congrArg Prod.snd (finishBlock_same bus.recorded listed m₁).1
  | error _ m₁ => rfl

theorem rest_resumes (h : bus.KeepsRegisters) (plain : b.Plain) (listed : b.list ≠ 0) {pc : Option Word}
    {target : Word} (counter : pc = if b.Jumps then some target else none) (m : Machine σ) :
    ∃ m', b.rest bus pc m = .ok () m' ∧ m'.cpu.regs = b.resumed bus.isV5 target m.cpu.regs := by
  let m₁ := pc.elim m fun target => bus.setRegLoaded Register.pc target m
  have run : b.rest bus pc m = .ok () (finishBlock bus b.load b.n b.list b.i m₁) := by
    rw [rest, plain_returns plain]
    cases pc <;> rfl
  refine ⟨_, run, (finishBlock_same bus listed m₁).2.trans ?_⟩
  by_cases jumps : b.Jumps
  · obtain rfl := counter.trans (if_pos jumps)
    exact (setRegLoaded_pc bus h target m).trans (if_pos jumps).symm
  · obtain rfl := counter.trans (if_neg jumps)
    exact (if_neg jumps).symm

/-- The program counter is stored as the address of the instruction and twelve. -/
theorem stored_eq {p : Processor} (arm : p.isThumb = false) (user : Bool) (r : Register) :
    Arm.stored user p.regs r =
      if r = Register.pc then p.currentAddress + 12 else p.regs.readAs (bankOf user p.regs) r := by
  have ahead : p.regs.pc + 4 = p.currentAddress + 12 := by
    have size : p.regs.instructionSize = 4 := Registers.instructionSize_of_clear arm
    rw [Processor.currentAddress, size]
    bv_omega
  rw [Arm.stored, ahead]

/-- What a transfer asks for, and what it comes to. -/
theorem runs (based : b.n ≠ Register.pc) (listed : b.list ≠ 0) (m : Machine (σ × Transcript)) :
    let run := blockTransfer bus.recorded b.load b.n b.list b.user b.i
    ∃ cycles value refill,
      (run.final m).system.2 = m.system.2 ++
        (wordRequests b.load (b.start m.cpu.regs) cycles value b.registers.zipIdx ++ refill) ∧
      (∀ q ∈ refill, q.isFetch = true) ∧ (¬ b.Jumps → refill = []) ∧
      (bus.KeepsRegisters → b.Plain → m.cpu.isThumb = false →
        run.succeeds m = true ∧ b.Moved bus.isV5 value m.cpu (run.final m).cpu) := by
  intro run
  obtain ⟨cycles, value, words, counter, moved⟩ := moveBlock_words bus based m
  obtain ⟨pc, m₀, x⟩ : ∃ pc m₀, moveBlock bus.recorded b.load b.n b.list b.user b.i m = (pc, m₀) := ⟨_, _, rfl⟩
  have parts : run m = _ := blockTransfer_parts bus.recorded based m
  rw [x, Bus.recorded_isV5] at parts
  rw [x] at words counter moved
  obtain ⟨refill, asked, fetches, stay⟩ :=
    rest_asks bus listed pc (m₀.mapRegs (b.settle bus.isV5 (b.final m.cpu.regs)))
  have last : run.final m = (b.rest bus.recorded pc).final (m₀.mapRegs (b.settle bus.isV5 (b.final m.cpu.regs))) := by
    rw [Exec.final, parts, Exec.final]
  refine ⟨cycles, value, refill, ?_, fetches, fun stays => stay (counter.trans (if_neg stays)), fun h plain arm => ?_⟩
  · rw [last, asked, ← List.append_assoc]
    exact congrArg (· ++ refill) words
  · obtain ⟨values, g, filled, settled⟩ := moved h plain
    obtain ⟨m', done, ended⟩ := rest_resumes bus.recorded h.recorded plain listed counter
      (m₀.mapRegs (b.settle bus.isV5 (b.final m.cpu.regs)))
    rw [← parts] at done
    refine ⟨by rw [Exec.succeeds, done], ?_⟩
    rw [Exec.final, done]
    refine .of_filled based plain (fun store r mem => ?_) filled (ended.trans (congrArg _ settled))
    rw [values store r mem, stored_eq arm]

end

end Block

/-- A transfer of several registers asks for one word after the other, the first out of sequence, each at its place
from where the lowest register has its word, and besides at most fetches for a refill of the pipeline. Where the
system leaves the registers alone, a transfer without the mark for the user bank never fails, and neither does a
marked one that leaves the base and does not load the program counter; then `Block.Moved` says which values go
where, and what becomes of the base. -/
theorem block_transfers (bus : Bus σ) {w : Word} {m : Machine σ} (block : w.extractLsb' 25 3 = 0b100)
    (passes : executes bus.isV5 m.cpu.regs w = true) (arm : m.cpu.isThumb = false)
    (listed : w.extractLsb' 0 16 ≠ 0) (based : register w 16 ≠ Register.pc) :
    let b := Block.ofWord w
    ∃ m' cycles value refill,
      (execute bus w).final m = m' ∧
      (execute bus.recorded w).final (m.recording []) = m'.recording
        (wordRequests b.load (b.start m.cpu.regs) cycles value b.registers.zipIdx ++ refill) ∧
      (∀ q ∈ refill, q.isFetch = true) ∧ (¬ b.Jumps → refill = []) ∧
      (bus.KeepsRegisters → b.Plain → execute bus w m = .ok () m' ∧ b.Moved bus.isV5 value m.cpu m'.cpu) := by
  intro b
  have shows := execute_seen bus.recorded_shows w
  have recorded : executes bus.recorded.isV5 (m.recording []).cpu.regs w = true := passes
  have run : execute bus.recorded w (m.recording []) =
      blockTransfer bus.recorded b.load b.n b.list b.user b.i (m.recording []) := by
    rw [execute_eq, if_pos recorded, Block.decode_ofWord _ block]
    rfl
  obtain ⟨cycles, value, refill, asked, fetches, stay, moved⟩ :=
    Block.runs (b := b) bus based listed (m.recording [])
  have final : (execute bus.recorded w).final (m.recording []) =
      (blockTransfer bus.recorded b.load b.n b.list b.user b.i).final (m.recording []) := by
    rw [Exec.final, run, Exec.final]
  rw [← final] at asked moved
  refine ⟨_, cycles, value, refill, shows.final (m.recording []), ?_, fetches, stay, fun h plain => ?_⟩
  · have record : ((execute bus.recorded w).final (m.recording [])).system.2 =
        wordRequests b.load (b.start m.cpu.regs) cycles value b.registers.zipIdx ++ refill := asked
    rw [← record]
    rfl
  · obtain ⟨succeeds, outcome⟩ := moved h plain arm
    have done : execute bus.recorded w (m.recording []) = .ok () ((execute bus.recorded w).final (m.recording [])) := by
      rw [final, run]
      exact Exec.eq_ok_of_succeeds succeeds
    exact ⟨shows.of_recording done, outcome⟩

end Arm

theorem FlatMemory.bus_keepsRegisters (a : Architecture) (timing : Width → Address → Access → Nat) :
    (FlatMemory.bus a timing).KeepsRegisters := ⟨bus_accessesApart a timing, fun _ _ _ _ => rfl⟩

/-- A machine that is about to store registers from r1 on. -/
def spilling : Machine FlatMemory where
  cpu := (Processor.powerOn .v4).mapRegs fun f =>
    { (f.write (Arm.register 0 0) 3).write (Arm.register 1 0) 0x208 with pc := 0x8008 }
  system := { ram := ⟨#[]⟩ }
  journal := #[]

/-- `STMIA r1!, {r0, r1, pc}` stores r1 as it will be, and the program counter as if it were one word further. -/
theorem Arm.spilling_stores :
    let w : Word := 0xE8A18003
    let bus := FlatMemory.evenBus .v4
    w.extractLsb' 25 3 = 0b100 ∧ Arm.executes bus.isV5 spilling.cpu.regs w = true ∧ spilling.cpu.isThumb = false ∧
      w.extractLsb' 0 16 ≠ 0 ∧ Arm.register w 16 ≠ Register.pc ∧ bus.KeepsRegisters ∧ (Arm.Block.ofWord w).Plain ∧
      ∃ m' cycles value, Arm.execute bus w spilling = .ok () m' ∧
        (Arm.execute bus.recorded w).final (spilling.recording []) =
          m'.recording (Arm.wordRequests false 0x208 cycles value [(0, 0), (1, 1), (15, 2)]) ∧
        value 0 = 3 ∧ value 1 = 0x214 ∧ value 15 = 0x800C ∧ m'.cpu.regs.read 1 = 0x214 := by
  intro w bus
  have block : w.extractLsb' 25 3 = 0b100 := by decide
  have passes : Arm.executes bus.isV5 spilling.cpu.regs w = true := by decide +kernel
  have arm : spilling.cpu.isThumb = false := by decide +kernel
  have listed : w.extractLsb' 0 16 ≠ 0 := by decide
  have based : Arm.register w 16 ≠ Register.pc := by decide
  have keeps : bus.KeepsRegisters := FlatMemory.bus_keepsRegisters _ _
  have plain : (Arm.Block.ofWord w).Plain := .inl (by decide)
  obtain ⟨m', cycles, value, refill, -, asked, -, stay, moved⟩ :=
    Arm.block_transfers bus block passes arm listed based
  obtain ⟨run, outcome⟩ := moved keeps plain
  have store : (Arm.Block.ofWord w).load = false := by decide
  have values := outcome.stored store
  refine ⟨block, passes, arm, listed, based, keeps, plain, m', cycles, value, run, ?_, ?_, ?_, ?_, ?_⟩
  · have start : (Arm.Block.ofWord w).start spilling.cpu.regs = 0x208 := by decide +kernel
    have places : (Arm.Block.ofWord w).registers.zipIdx = [(0, 0), (1, 1), (15, 2)] := by decide
    rw [stay (by decide), List.append_nil, store, start, places] at asked
    exact asked
  · exact (values 0 (by decide)).trans (by decide +kernel)
  · exact (values 1 (by decide)).trans (by decide +kernel)
  · exact (values 15 (by decide)).trans (by decide +kernel)
  · have final : (Arm.Block.ofWord w).final spilling.cpu.regs = 0x214 := by decide +kernel
    have named : 1 = (Arm.Block.ofWord w).n := by decide
    rw [named]
    exact outcome.base.trans ((if_pos (by decide)).trans final)

end Lockstep
