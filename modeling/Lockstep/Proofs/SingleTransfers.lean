import Lockstep.Proofs.BlockTransfers
import Lockstep.Proofs.Extension

/-!
Transfers of one register, or of a pair of them. Each asks for one unit of memory, or for two words in a row, at the
base or at its offset from it. A load puts what it got into its registers, and the base is written after them, but not
if it was loaded first; so a pair that ends with its base loses what was loaded for the base.
-/

namespace Lockstep

variable {σ : Type} {bus : Bus σ}

def Bus.unit (bus : Bus σ) (w : Width) (a : Address) (k : Access) (m : Machine σ) : Word × Machine σ :=
  bus.load w a (bus.wait w a k m)

/-- The old architecture looks at the address of halves only. -/
theorem Bus.read_eq_unit (bus : Bus σ) {w : Width} (other : w ≠ .half) (a : Address) (k : Access) (m : Machine σ) :
    bus.read w a k m = bus.unit w a k m := by
  have plain : (w == Width.half) = false := beq_eq_false_iff_ne.mpr other
  simp only [read, plain, Bool.and_false, Bool.false_and, Bool.false_eq_true, if_false]
  rfl

theorem Bus.read_half (bus : Bus σ) (a : Address) (k : Access) (m : Machine σ) :
    bus.read .half a k m =
      let x := bus.unit .half a k m
      (if !bus.isV5 && a.getLsbD 0 then x.1.rotateRight 8 else x.1, x.2) := by
  simp only [read, beq_self_eq_true, Bool.and_true]
  rfl

theorem Bus.KeepsRegisters.unit (h : bus.KeepsRegisters) (w : Width) (a : Address) (k : Access) (m : Machine σ) :
    (bus.unit w a k m).2.cpu.regs = m.cpu.regs :=
  (h.get w a _).trans (h.waitTime w a k m)

def Request.access (load : Bool) (w : Width) (a : Address) (k : Access) (cycles : Nat) (v : Word) : Transcript :=
  if load then [.wait w a k cycles, .get w a v] else [.wait w a k.asWrite cycles, .set w a (w.truncate v)]

theorem Bus.recorded_unit (bus : Bus σ) (w : Width) (a : Address) (k : Access) (m : Machine (σ × Transcript)) :
    ∃ n, (bus.recorded.unit w a k m).2.system.2 =
      m.system.2 ++ Request.access true w a k n (bus.recorded.unit w a k m).1 :=
  ⟨_, List.append_assoc ..⟩

theorem Bus.recorded_store (bus : Bus σ) (w : Width) (a : Address) (v : Word) (k : Access)
    (m : Machine (σ × Transcript)) :
    ∃ n, (bus.recorded.write w a v k m).system.2 = m.system.2 ++ Request.access false w a k n v :=
  ⟨_, List.append_assoc ..⟩

theorem Bus.setReg_regs (bus : Bus σ) {r : Register} (other : r ≠ Register.pc) (v : Word) (m : Machine σ) :
    (bus.setReg r v m).cpu.regs = m.cpu.regs.put m.cpu.regs.mode r v := by
  rw [Bus.setReg, if_neg other, Registers.put_mode other]
  rfl

namespace Arm

namespace TransferKind

def width : TransferKind → Width
  | .loadByte | .loadSignedByte | .storeByte => .byte
  | .loadHalf | .loadSignedHalf | .storeHalf => .half
  | .loadWord | .loadDouble | .storeWord | .storeDouble => .word

def isDouble : TransferKind → Bool
  | .loadDouble | .storeDouble => true
  | _ => false

/-- Where a unit is asked for. Only the load of a single word rounds the address down by itself. -/
def place (kind : TransferKind) (a : Address) : Address := if kind = .loadWord then Word.alignDown a 4 else a

def shown (kind : TransferKind) (v5 : Bool) (a : Address) (v : Word) : Word :=
  match kind with
  | .loadWord => v.rotateRight (8 * (a.toNat % 4))
  | .loadHalf => if !v5 && a.getLsbD 0 then v.rotateRight 8 else v
  | .loadSignedHalf => if !v5 && a.getLsbD 0 then Word.extend (v.extractLsb' 8 8) else Word.extend (v.setWidth 16)
  | .loadSignedByte => Word.extend (v.setWidth 8)
  | _ => v

end TransferKind

/-- A load of one register gets a unit and then writes what it makes of it. -/
theorem loadInto_eq {kind : TransferKind} (load : kind.isLoad = true) (single : kind.isDouble = false) (d : Register)
    (a : Address) (m : Machine σ) :
    loadInto bus kind d a m =
      let x := bus.unit kind.width (kind.place a) .nonsequential m
      if kind = .loadWord then bus.setRegLoaded d (kind.shown bus.isV5 a x.1) x.2
      else bus.setReg d (kind.shown bus.isV5 a x.1) x.2 := by
  cases kind with
  | loadWord =>
    have word := bus.read_eq_unit (by decide : Width.word ≠ .half) (Word.alignDown a 4) .nonsequential m
    rw [loadInto, Bus.readRotated, word]
    rfl
  | loadByte | loadSignedByte =>
    have byte := bus.read_eq_unit (by decide : Width.byte ≠ .half) a .nonsequential m
    rw [loadInto, byte]
    rfl
  | loadHalf =>
    rw [loadInto, Bus.read_half]
    rfl
  | loadSignedHalf => rfl
  | loadDouble => cases single
  | storeByte | storeHalf | storeWord | storeDouble => cases load

theorem loadInto_double (d : Register) (a : Address) (m : Machine σ) :
    loadInto bus .loadDouble d a m =
      let x := bus.unit .word a .nonsequential m
      let y := bus.unit .word (a + 4) .sequel x.2
      bus.setReg d.next y.1 (bus.setReg d x.1 y.2) := by
  have word := bus.read_eq_unit (by decide : Width.word ≠ .half)
  simp only [loadInto, word]

theorem storeFrom_eq {kind : TransferKind} (store : kind.isLoad = false) (single : kind.isDouble = false) (d : Register)
    (a : Address) (m : Machine σ) :
    storeFrom bus kind d a m = bus.write kind.width a (m.regLate d) .nonsequential m := by
  cases kind with
  | storeByte | storeHalf | storeWord => rfl
  | storeDouble => cases single
  | loadByte | loadSignedByte | loadHalf | loadSignedHalf | loadWord | loadDouble => cases store

structure Single where
  kind : TransferKind
  n : Register
  d : Register
  offset : Offset
  i : Indexing

namespace Single

/-- What a word moves. Bit 26 tells the transfers of words and bytes from the others; bit 20 stands for loads. -/
def kindOf (w : Word) : TransferKind :=
  if w.getLsbD 26 then
    if w.getLsbD 20 then if w.getLsbD 22 then .loadByte else .loadWord
    else if w.getLsbD 22 then .storeByte else .storeWord
  else if w.getLsbD 20 then
    if w.getLsbD 6 then if w.getLsbD 5 then .loadSignedHalf else .loadSignedByte
    else .loadHalf
  else if w.getLsbD 6 then if w.getLsbD 5 then .storeDouble else .loadDouble
  else .storeHalf

/-- The distance from the base: twelve bits or a shifted register, and for the others eight bits or a register. -/
def offsetOf (w : Word) : Offset :=
  if w.getLsbD 26 then
    if w.getLsbD 25 then .shifted (register w 0) (.ofBits (w.extractLsb' 5 2)) (w.extractLsb' 7 5).toNat
    else .immediate ((w.extractLsb' 0 12).setWidth 32)
  else if w.getLsbD 22 then .immediate ((w.extractLsb' 8 4 ++ w.extractLsb' 0 4).setWidth 32)
  else .register (register w 0)

def ofWord (w : Word) : Single where
  kind := kindOf w
  n := register w 16
  d := register w 12
  offset := offsetOf w
  i := { before := w.getLsbD 24, up := w.getLsbD 23, writeback := w.getLsbD 21 || !w.getLsbD 24 }

variable (t : Single)

def instruction : Instruction := .transfer t.kind t.n t.d t.offset t.i

def registers : List Register := if t.kind.isDouble then [t.d, t.d.next] else [t.d]

/-- The base, moved by the offset, which is from before the transfer. -/
def moved (m : Machine σ) : Address := Word.offset (m.reg t.n) (t.offset.distance m) t.i.up

def address (m : Machine σ) : Address := if t.i.before then t.moved m else m.reg t.n

def requests (a : Address) (cycles : Register → Nat) (value : Register → Word) : Transcript :=
  t.registers.zipIdx.flatMap fun (r, i) =>
    Request.access t.kind.isLoad t.kind.width (t.kind.place a + BitVec.ofNat 32 (4 * i)) (wordKind i) (cycles r)
      (value r)

/-- Whether the base is the second register of a pair that is loaded, and is written after it all the same. -/
def LosesLast : Prop := t.kind = .loadDouble ∧ t.i.writeback = true ∧ t.n = t.d.next

def Loads (r : Register) : Prop := t.kind.isLoad = true ∧ r ∈ t.registers

instance : Decidable t.LosesLast := inferInstanceAs (Decidable (_ ∧ _ ∧ _))

instance (r : Register) : Decidable (t.Loads r) := inferInstanceAs (Decidable (_ ∧ _))

/-- What a transfer comes to, if `value` says which unit is transferred for each register. -/
structure Moved (v5 : Bool) (value : Register → Word) (m m' : Machine σ) : Prop where
  /-- What is stored is from before the transfer. -/
  stored : t.kind.isLoad = false → ∀ r ∈ t.registers, value r = m.reg r
  /-- What is loaded ends up in its register, even if that is the base. -/
  loaded : ∀ r, t.Loads r → ¬ (t.LosesLast ∧ r = t.n) → m'.reg r = t.kind.shown v5 (t.address m) (value r)
  /-- A base that is not loaded moves if it is written back. -/
  base : ¬ t.Loads t.n ∨ t.LosesLast → m'.reg t.n = if t.i.writeback then t.moved m else m.reg t.n
  /-- Nothing else changes. -/
  others : ∀ s, (∀ r, t.Loads r → m.cpu.regs.mode.slot? r ≠ some s) →
    (t.i.writeback = true → m.cpu.regs.mode.slot? t.n ≠ some s) → m'.cpu.regs.cell s = m.cpu.regs.cell s
  saved : m'.cpu.regs.saved = m.cpu.regs.saved
  pc : m'.cpu.regs.pc = m.cpu.regs.pc
  cpsr : m'.cpu.regs.cpsr = m.cpu.regs.cpsr
  mode : m'.cpu.regs.mode = m.cpu.regs.mode

end Single

/-- The class of a transfer of one register. -/
theorem classOf_single {w : Word} (fits : Kind.transfer.Fits w) :
    classOf w =
      if w.getLsbD 26 then if w.getLsbD 25 then .transferRegister else .transferImmediate else .halfTransfer := by
  simp only [Class.classOf_eq, patterns, Class.first_cons, Class.first_nil, Pattern.fits_code,
    Nat.forall_lt_succ_right, Nat.not_lt_zero, false_implies, implies_true, true_and, and_true, Nat.reduceLT,
    Nat.reduceAdd, BitVec.reduceGetLsb, reduceIte, Bool.and_true, Bool.and_false]
  simp only [Kind.Fits, extract_eq_iff, Nat.forall_lt_succ_right, Nat.not_lt_zero, false_implies, implies_true,
    true_and, Nat.reduceAdd, BitVec.reduceGetLsb, not_and_or, Bool.not_eq_true, Bool.not_eq_false] at fits
  rcases fits with ⟨single, h | h⟩ | ⟨data, h7, h4, h | h⟩
  case inl.inr => cases register : w.getLsbD 25 <;> simp_all
  case inr.inl => cases word : w.getLsbD 6 <;> simp_all
  all_goals simp_all

theorem halfTransferKind?_kindOf {v5 : Bool} {w : Word} (half : w.getLsbD 26 = false)
    (marked : ¬ w.extractLsb' 5 2 = 0b00) (known : (Single.kindOf w).isDouble = true → v5 = true) :
    halfTransferKind? v5 w = some (Single.kindOf w) := by
  have bits : w.extractLsb' 5 2 = BitVec.ofBool (w.getLsbD 6) ++ BitVec.ofBool (w.getLsbD 5) := by
    rw [extract_eq_iff]
    intro i hi
    interval_cases i <;> cases w.getLsbD 6 <;> cases w.getLsbD 5 <;> rfl
  revert marked known
  unfold halfTransferKind? Single.kindOf
  rw [bits, half, if_neg Bool.false_ne_true]
  cases v5 <;> cases w.getLsbD 20 <;> cases w.getLsbD 6 <;> cases w.getLsbD 5 <;>
    simp [TransferKind.isDouble]

namespace Single

theorem decode_ofWord {v5 : Bool} {w : Word} (fits : Kind.transfer.Fits w)
    (known : (kindOf w).isDouble = true → v5 = true) : decode v5 w = (ofWord w).instruction := by
  rw [decode, classOf_single fits]
  cases half : w.getLsbD 26 with
  | true =>
    simp only [instruction, ofWord, kindOf, offsetOf, half, if_true]
    cases w.getLsbD 25 <;> cases load : w.getLsbD 20 <;> cases byte : w.getLsbD 22 <;>
      simp only [transferKind, indexing, shiftKind, load, byte, Bool.false_eq_true, if_false, if_true]
  | false =>
    have marked : ¬ w.extractLsb' 5 2 = 0b00 := by
      rcases fits with ⟨single, -⟩ | ⟨-, -, -, marked⟩
      · have bit := (extract_eq_iff w 26 0b01#2).mp single 0 (by decide)
        rw [half] at bit
        cases bit
      · exact marked
    simp only [Bool.false_eq_true, if_false, halfTransferKind?_kindOf half marked known]
    simp only [instruction, ofWord, offsetOf, splitOffset, indexing, half, Bool.false_eq_true, if_false]

variable {t : Single} {v5 : Bool} {value : Register → Word}

theorem next_ne (r : Register) : r.next ≠ r := by
  revert r
  decide

theorem mem_registers {r : Register} : r ∈ t.registers ↔ r = t.d ∨ t.kind.isDouble = true ∧ r = t.d.next := by
  unfold registers
  cases t.kind.isDouble <;> simp

theorem requests_single (single : t.kind.isDouble = false) (a : Address) (cycles : Register → Nat)
    (value : Register → Word) :
    t.requests a cycles value =
      Request.access t.kind.isLoad t.kind.width (t.kind.place a) .nonsequential (cycles t.d) (value t.d) := by
  simp [requests, registers, single, wordKind]

theorem requests_double (double : t.kind.isDouble = true) (a : Address) (cycles : Register → Nat)
    (value : Register → Word) :
    t.requests a cycles value =
      Request.access t.kind.isLoad t.kind.width (t.kind.place a) .nonsequential (cycles t.d) (value t.d) ++
        Request.access t.kind.isLoad t.kind.width (t.kind.place a + 4) .sequel (cycles t.d.next) (value t.d.next) := by
  simp [requests, registers, double, wordKind]

def pair {α : Type} (t : Single) (first second : α) (r : Register) : α := if r = t.d then first else second

theorem pair_first {α : Type} (x y : α) : t.pair x y t.d = x := if_pos rfl

theorem pair_second {α : Type} (x y : α) : t.pair x y t.d.next = y := if_neg (next_ne t.d)

section
variable (plain : ∀ r ∈ t.registers, r ≠ Register.pc)
include plain

/-- Loading asks for the units of the registers, and puts what is shown of them where it belongs. -/
theorem load_moves (h : bus.KeepsRegisters) (load : t.kind.isLoad = true) (a : Address)
    (m : Machine (σ × Transcript)) :
    let m' := loadInto bus.recorded t.kind t.d a m
    ∃ cycles value, m'.system.2 = m.system.2 ++ t.requests a cycles value ∧
      Registers.Filled m.cpu.regs.mode t.registers (fun r => t.kind.shown bus.isV5 a (value r)) m.cpu.regs
        m'.cpu.regs := by
  have first : t.d ≠ Register.pc := plain _ (mem_registers.mpr (.inl rfl))
  cases double : t.kind.isDouble with
  | false =>
    obtain ⟨n, asked⟩ := bus.recorded_unit t.kind.width (t.kind.place a) .nonsequential m
    have kept := h.recorded.unit t.kind.width (t.kind.place a) .nonsequential m
    rw [loadInto_eq load double]
    revert asked kept
    generalize bus.recorded.unit t.kind.width (t.kind.place a) .nonsequential m = x
    obtain ⟨v, m₁⟩ := x
    intro asked kept
    have written : (if t.kind = .loadWord then bus.recorded.setRegLoaded t.d (t.kind.shown bus.recorded.isV5 a v) m₁
        else bus.recorded.setReg t.d (t.kind.shown bus.recorded.isV5 a v) m₁) =
          m₁.mapRegs (·.write t.d (t.kind.shown bus.isV5 a v)) := by
      rw [Bus.setRegLoaded, Bus.setReg, if_neg first, if_neg first, ite_self]
      rfl
    refine ⟨fun _ => n, fun _ => v, ?_, ?_⟩
    · rw [requests_single double, load]
      exact (congrArg (·.system.2) written).trans asked
    · have only : t.registers = [t.d] := if_neg (by rw [double]; exact Bool.false_ne_true)
      simp only [only, written, ← show m₁.cpu.regs = m.cpu.regs from kept]
      refine .cons List.not_mem_nil ?_
      rw [Registers.put_mode first]
      exact .refl _ _ _
  | true =>
    have kind : t.kind = .loadDouble := by
      revert load double
      cases t.kind <;> simp [TransferKind.isLoad, TransferKind.isDouble]
    have second : t.d.next ≠ Register.pc := plain _ (mem_registers.mpr (.inr ⟨double, rfl⟩))
    obtain ⟨n, asked⟩ := bus.recorded_unit .word a .nonsequential m
    have kept := h.recorded.unit .word a .nonsequential m
    rw [kind, loadInto_double]
    revert asked kept
    generalize bus.recorded.unit .word a .nonsequential m = x
    obtain ⟨lo, m₁⟩ := x
    intro asked kept
    obtain ⟨n', asked'⟩ := bus.recorded_unit .word (a + 4) .sequel m₁
    have kept' := h.recorded.unit .word (a + 4) .sequel m₁
    simp only
    revert asked' kept'
    generalize bus.recorded.unit .word (a + 4) .sequel m₁ = y
    obtain ⟨hi, m₂⟩ := y
    intro asked' kept'
    have same : m₂.cpu.regs = m.cpu.regs := Eq.trans kept' kept
    refine ⟨t.pair n n', t.pair lo hi, ?_, ?_⟩
    · rw [requests_double double, pair_first, pair_first, pair_second, pair_second, kind, ← List.append_assoc]
      have unwritten : (bus.recorded.setReg t.d.next hi (bus.recorded.setReg t.d lo m₂)).system.2 = m₂.system.2 := by
        rw [Bus.setReg, Bus.setReg, if_neg first, if_neg second]
        rfl
      exact (unwritten.trans asked').trans (congrArg (· ++ _) asked)
    · have both : t.registers = [t.d, t.d.next] := if_pos double
      rw [both, Bus.setReg_regs _ second, Bus.setReg_regs _ first, same, (m.cpu.regs.put_same _ _ _).2.2.2]
      refine .cons (by simpa using (next_ne t.d).symm) (.cons List.not_mem_nil ?_)
      simp only [pair_first, pair_second, TransferKind.shown]
      exact .refl _ _ _

/-- Storing asks for the units of the registers. -/
theorem store_moves (h : bus.KeepsRegisters) (store : t.kind.isLoad = false) (a : Address)
    (m : Machine (σ × Transcript)) :
    let m' := storeFrom bus.recorded t.kind t.d a m
    ∃ cycles value, m'.system.2 = m.system.2 ++ t.requests a cycles value ∧
      (∀ r ∈ t.registers, value r = m.reg r) ∧ m'.cpu.regs = m.cpu.regs := by
  have late : ∀ r ∈ t.registers, m.regLate r = m.reg r := fun r mem => if_neg (plain r mem)
  have first : m.regLate t.d = m.reg t.d := late _ (mem_registers.mpr (.inl rfl))
  cases double : t.kind.isDouble with
  | false =>
    have place : t.kind.place a = a := if_neg fun word => by
      rw [word] at store
      cases store
    obtain ⟨n, asked⟩ := bus.recorded_store t.kind.width a (m.reg t.d) .nonsequential m
    refine ⟨fun _ => n, m.reg, ?_, fun _ _ => rfl, ?_⟩
    · rw [storeFrom_eq store double, requests_single double, store, place, first]
      exact asked
    · rw [storeFrom_eq store double]
      exact h.recorded.write ..
  | true =>
    have kind : t.kind = .storeDouble := by
      revert store double
      cases t.kind <;> simp [TransferKind.isLoad, TransferKind.isDouble]
    have second : m.regLate t.d.next = m.reg t.d.next := late _ (mem_registers.mpr (.inr ⟨double, rfl⟩))
    obtain ⟨n, asked⟩ := bus.recorded_store .word a (m.reg t.d) .nonsequential m
    obtain ⟨n', asked'⟩ := bus.recorded_store .word (a + 4) (m.reg t.d.next) .sequel
      (bus.recorded.write .word a (m.reg t.d) .nonsequential m)
    refine ⟨t.pair n n', m.reg, ?_, fun _ _ => rfl, ?_⟩
    · rw [requests_double double, pair_first, pair_second, kind, ← List.append_assoc, storeFrom, first, second]
      exact asked'.trans (congrArg (· ++ _) asked)
    · rw [kind, storeFrom]
      exact (h.recorded.write ..).trans (h.recorded.write ..)

end

def Writes (t : Single) : Prop := t.i.writeback = true ∧ (t.kind.isLoad = true → t.n ≠ t.d)

instance : Decidable t.Writes := inferInstanceAs (Decidable (_ ∧ (_ → _)))

def loads (t : Single) : List Register := if t.kind.isLoad then t.registers else []

theorem mem_loads {r : Register} : r ∈ t.loads ↔ t.Loads r := by
  unfold loads Loads
  cases t.kind.isLoad <;> simp

/-- Only the second register of a pair can be the base and still be overwritten. -/
theorem losesLast_of_loads (writes : t.Writes) (listed : t.Loads t.n) : t.LosesLast := by
  obtain ⟨load, mem⟩ := listed
  rcases mem_registers.mp mem with same | ⟨double, same⟩
  · exact absurd same (writes.2 load)
  · refine ⟨?_, writes.1, same⟩
    revert load double
    cases t.kind <;> simp [TransferKind.isLoad, TransferKind.isDouble]

/-- Loading and then writing the base comes to what is said. -/
theorem Moved.of_filled {m m' : Machine σ} {g : Registers} (based : t.n ≠ Register.pc)
    (plain : ∀ r ∈ t.registers, r ≠ Register.pc)
    (stored : t.kind.isLoad = false → ∀ r ∈ t.registers, value r = m.reg r)
    (filled : Registers.Filled m.cpu.regs.mode t.loads (fun r => t.kind.shown v5 (t.address m) (value r)) m.cpu.regs g)
    (ended : m'.cpu.regs = if t.Writes then g.put g.mode t.n (t.moved m) else g) : t.Moved v5 value m m' := by
  obtain ⟨saved, pc, cpsr, mode⟩ : m'.cpu.regs.saved = g.saved ∧ m'.cpu.regs.pc = g.pc ∧
      m'.cpu.regs.cpsr = g.cpsr ∧ m'.cpu.regs.mode = g.mode := by
    rw [ended]
    split_ifs
    · exact g.put_same _ _ _
    · exact ⟨rfl, rfl, rfl, rfl⟩
  have kept : m'.cpu.regs.mode = m.cpu.regs.mode := mode.trans filled.mode
  have others (s : Slot) (unlisted : ∀ r ∈ t.loads, m.cpu.regs.mode.slot? r ≠ some s)
      (apart : t.i.writeback = true → m.cpu.regs.mode.slot? t.n ≠ some s) : m'.cpu.regs.cell s = m.cpu.regs.cell s := by
    rw [ended]
    split_ifs with writes
    · rw [filled.mode, Registers.cell_put (apart writes.1), filled.others s unlisted]
    · exact filled.others s unlisted
  refine
    { stored, saved := saved.trans filled.saved, pc := pc.trans filled.pc, cpsr := cpsr.trans filled.cpsr, mode := kept
      loaded := fun r listed free => ?_
      base := fun unloaded => ?_
      others := fun s unlisted => others s fun r mem => unlisted r (mem_loads.mp mem) }
  · have value := filled.loaded r (mem_loads.mpr listed) (plain r listed.2)
    rw [Machine.reg, Registers.read, kept, ← value, ended]
    split_ifs with writes
    · have other : r ≠ t.n := by
        rintro rfl
        exact free ⟨losesLast_of_loads writes listed, rfl⟩
      exact Registers.readAs_put other _
    · rfl
  · rw [Machine.reg, Registers.read, kept]
    split_ifs with back
    · have writes : t.Writes := by
        refine ⟨back, fun load same => ?_⟩
        rcases unloaded with unlisted | ⟨-, -, last⟩
        · exact unlisted ⟨load, mem_registers.mpr (.inl same)⟩
        · exact next_ne t.d (last.symm.trans same)
      rw [ended, if_pos writes, filled.mode, Registers.readAs_put_self based]
    · obtain ⟨s, named⟩ := Option.ne_none_iff_exists'.mp (based ∘ (Mode.slot?_eq_none m.cpu.regs.mode t.n).mp)
      have unlisted : ¬ t.Loads t.n := unloaded.resolve_right fun loses => back loses.2.1
      rw [Machine.reg, Registers.read, Registers.readAs_eq named, Registers.readAs_eq named]
      refine others s (fun r mem same => unlisted ?_) (absurd · back)
      rw [(Mode.number_slot named).symm.trans (Mode.number_slot same)]
      exact mem_loads.mp mem

def finish (t : Single) (bus : Bus σ) (base : Address) (m : Machine σ) : Machine σ :=
  let m := (if t.Writes then bus.setReg t.n base m else m).setFetchKind .nonsequential
  if t.kind.isLoad then m.idle 1 else m

theorem finish_same (bus : Bus σ) (based : t.n ≠ Register.pc) (base : Address) (m : Machine σ) :
    (t.finish bus base m).system = m.system ∧
      (t.finish bus base m).cpu.regs =
        if t.Writes then m.cpu.regs.put m.cpu.regs.mode t.n base else m.cpu.regs := by
  have written := bus.setReg_regs based base m
  unfold finish
  rw [Bus.setReg, if_neg based] at *
  split_ifs <;> first | exact ⟨rfl, written⟩ | exact ⟨rfl, rfl⟩

theorem transfer_eq (bus : Bus σ) (m : Machine σ) :
    transfer bus t.kind t.n t.d t.offset t.i m =
      t.finish bus (t.moved m) (if t.kind.isLoad then loadInto bus t.kind t.d (t.address m) m
        else storeFrom bus t.kind t.d (t.address m) m) := by
  have writes : (t.i.writeback && (!t.kind.isLoad || t.n != t.d)) = true ↔ t.Writes := by
    rw [Writes, Bool.and_eq_true, Bool.or_eq_true, Bool.not_eq_true', bne_iff_ne]
    cases t.kind.isLoad <;> simp
  simp only [finish, ← writes]
  rfl

/-- What a transfer asks for, and what it comes to. -/
theorem runs (h : bus.KeepsRegisters) (based : t.n ≠ Register.pc) (plain : ∀ r ∈ t.registers, r ≠ Register.pc)
    (m : Machine (σ × Transcript)) :
    let m' := transfer bus.recorded t.kind t.n t.d t.offset t.i m
    ∃ cycles value, m'.system.2 = m.system.2 ++ t.requests (t.address m) cycles value ∧
      t.Moved bus.isV5 value m m' := by
  let x := if t.kind.isLoad then loadInto bus.recorded t.kind t.d (t.address m) m
    else storeFrom bus.recorded t.kind t.d (t.address m) m
  obtain ⟨cycles, value, asked, stored, filled⟩ : ∃ cycles value,
      x.system.2 = m.system.2 ++ t.requests (t.address m) cycles value ∧
      (t.kind.isLoad = false → ∀ r ∈ t.registers, value r = m.reg r) ∧
      Registers.Filled m.cpu.regs.mode t.loads (fun r => t.kind.shown bus.isV5 (t.address m) (value r)) m.cpu.regs
        x.cpu.regs := by
    cases load : t.kind.isLoad with
    | true =>
      have loaded : x = loadInto bus.recorded t.kind t.d (t.address m) m := if_pos load
      have all : t.loads = t.registers := if_pos load
      obtain ⟨cycles, value, asked, filled⟩ := load_moves plain h load (t.address m) m
      rw [loaded, all]
      exact ⟨cycles, value, asked, fun store => absurd store Bool.noConfusion, filled⟩
    | false =>
      have stored : x = storeFrom bus.recorded t.kind t.d (t.address m) m := if_neg (by simp [load])
      have none : t.loads = [] := if_neg (by simp [load])
      obtain ⟨cycles, value, asked, values, same⟩ := store_moves plain h load (t.address m) m
      rw [stored, none, same]
      exact ⟨cycles, value, asked, fun _ => values, .refl _ _ _⟩
  intro m'
  have ended : m' = t.finish bus.recorded (t.moved m) x := transfer_eq bus.recorded m
  obtain ⟨system, regs⟩ := t.finish_same bus.recorded based (t.moved m) x
  rw [← ended] at system regs
  exact ⟨cycles, value, (congrArg Prod.snd system).trans asked, .of_filled based plain stored filled regs⟩

end Single

/-- A transfer of one register or of a pair asks for its unit of memory, or for its two words, at the base or at the
offset from it, and for nothing else. A store writes what the registers held before. A load puts what it got into its
registers, and a base that is not among them moves if it is written back. The exception is a pair that ends with its
base: if this is written back it moves as well, and what was loaded for it is lost. -/
theorem single_transfers (h : bus.KeepsRegisters) {w : Word} {m : Machine σ} (fits : Kind.transfer.Fits w)
    (known : (Single.kindOf w).isDouble = true → bus.isV5 = true) (passes : executes bus.isV5 m.cpu.regs w = true)
    (based : register w 16 ≠ Register.pc) (plain : ∀ r ∈ (Single.ofWord w).registers, r ≠ Register.pc) :
    let t := Single.ofWord w
    ∃ m' cycles value,
      execute bus w m = .ok () m' ∧
      execute bus.recorded w (m.recording []) =
        .ok () (m'.recording (t.requests (t.address m) cycles value)) ∧
      t.Moved bus.isV5 value m m' := by
  intro t
  have recorded : executes bus.recorded.isV5 (m.recording []).cpu.regs w = true := passes
  have run : execute bus.recorded w (m.recording []) =
      .ok () (transfer bus.recorded t.kind t.n t.d t.offset t.i (m.recording [])) := by
    have known' : (Single.kindOf w).isDouble = true → bus.recorded.isV5 = true := known
    rw [execute_eq, if_pos recorded, Single.decode_ofWord fits known']
    rfl
  obtain ⟨cycles, value, asked, moved⟩ := Single.runs (t := t) h based plain (m.recording [])
  -- a recorded machine has the registers of the machine itself
  have distance : t.offset.distance (m.recording []) = t.offset.distance m :=
    (distance_seen (φ := .of Prod.fst) (m := m.recording []) t.offset).symm
  have base : t.moved (m.recording []) = t.moved m := by
    rw [Single.moved, distance]
    rfl
  have address : t.address (m.recording []) = t.address m := by
    rw [Single.address, base]
    rfl
  generalize transfer bus.recorded t.kind t.n t.d t.offset t.i (m.recording []) = n at run asked moved
  have record : n = (n.seen Prod.fst).recording (t.requests (t.address m) cycles value) := by
    have asked : n.system.2 = t.requests (t.address m) cycles value := address ▸ asked
    rw [← asked]
    rfl
  refine ⟨n.seen Prod.fst, cycles, value, ?_, record ▸ run, ?_⟩
  · exact (execute_seen bus.recorded_shows w).of_recording run
  · refine ⟨moved.stored, fun r listed free => ?_, fun unloaded => ?_, moved.others, moved.saved, moved.pc, moved.cpsr,
      moved.mode⟩
    · rw [← address]
      exact moved.loaded r listed free
    · rw [← base]
      exact moved.base unloaded

/-- A machine with the words 11 and 22 at 8. -/
def pairing : Machine FlatMemory where
  cpu := Processor.powerOn .v5
  system := { ram := ⟨Array.replicate 8 0 ++ #[11, 0, 0, 0, 22, 0, 0, 0]⟩ }
  journal := #[]

/-- `LDRD r2, [r2, #8]!` loads its base, which stays as it was loaded. -/
theorem pairing_loads :
    let w : Word := 0xE1E220D8
    let t := Single.ofWord w
    let bus := FlatMemory.evenBus .v5
    bus.KeepsRegisters ∧ Kind.transfer.Fits w ∧ ((Single.kindOf w).isDouble = true → bus.isV5 = true) ∧
      executes bus.isV5 pairing.cpu.regs w = true ∧ register w 16 ≠ Register.pc ∧
      (∀ r ∈ t.registers, r ≠ Register.pc) ∧
      ∃ m', execute bus w pairing = .ok () m' ∧ m'.reg 2 = 11 ∧ m'.reg 3 = 22 := by
  intro w t bus
  have keeps : bus.KeepsRegisters := FlatMemory.bus_keepsRegisters _ _
  have fits : Kind.transfer.Fits w := .inr (by decide)
  have known : (Single.kindOf w).isDouble = true → bus.isV5 = true := fun _ => rfl
  have passes : executes bus.isV5 pairing.cpu.regs w = true := by decide +kernel
  have based : register w 16 ≠ Register.pc := by decide
  have plain : ∀ r ∈ t.registers, r ≠ Register.pc := by decide
  obtain ⟨m', cycles, value, run, asked, moved⟩ := single_transfers keeps fits known passes based plain
  refine ⟨keeps, fits, known, passes, based, plain, m', run, ?_⟩
  have transcript : ((execute bus.recorded w).final (pairing.recording [])).system.2 =
      [.wait .word 8 .nonsequential 1, .get .word 8 11, .wait .word 12 .sequel 1, .get .word 12 22] := by
    decide +kernel
  have place : t.address pairing = 8 := by decide +kernel
  have first : t.d = 2 := by decide
  have second : t.d.next = 3 := by decide
  have requests := Single.requests_double (t := t) (by decide) 8 cycles value
  rw [Exec.final, asked] at transcript
  change t.requests (t.address pairing) cycles value = _ at transcript
  rw [place, requests, second, first] at transcript
  have whole : t.kind = .loadDouble := by decide
  simp only [Request.access, whole, TransferKind.isLoad, if_true, List.cons_append, List.nil_append, List.cons.injEq,
    Request.get.injEq] at transcript
  obtain ⟨-, ⟨-, -, lo⟩, -, ⟨-, -, hi⟩, -⟩ := transcript
  have keepsLast : ¬ t.LosesLast := by decide
  have loaded (r : Register) (listed : t.Loads r) : m'.reg r = value r := by
    refine (moved.loaded r listed fun both => keepsLast both.1).trans ?_
    show t.kind.shown _ _ _ = _
    rw [whole]
    rfl
  exact ⟨(loaded 2 (by decide)).trans lo, (loaded 3 (by decide)).trans hi⟩

/-- `LDRD r1, [r2, #8]!` loses what it loads for r2. -/
theorem pairing_loses :
    let w : Word := 0xE1E210D8
    let t := Single.ofWord w
    let m' := (execute (FlatMemory.evenBus .v5) w).final pairing
    Kind.transfer.Fits w ∧ t.Loads 2 ∧ t.n = 2 ∧ m'.reg 1 = 11 ∧ m'.reg 2 = 8 ∧
      FlatMemory.get pairing.system .word 12 = 22 := by
  intro w t m'
  exact ⟨.inr (by decide), by decide, by decide, by decide +kernel, by decide +kernel, by decide +kernel⟩

end Arm

end Lockstep
