import Lockstep.Proofs.ByteMemory
import Lockstep.Proofs.ThumbTransfers

/-!
The stack of THUMB code. Pushed registers lie in ascending order below the old top of the stack, and what is popped
from there is what was pushed.
-/

namespace Lockstep

variable {σ ι : Type} {bus : Bus σ}

/-- There are sixteen registers. -/
theorem Register.length_le {rs : List Register} (distinct : rs.Nodup) : rs.length ≤ 16 := by
  simpa using distinct.length_le_card

/-- Where the word of a register lies, in a row of words from an address upwards. -/
def slotOf (a : Address) (rs : List Register) (r : Register) : Address := a + BitVec.ofNat 32 (4 * rs.idxOf r)

section
variable (a : Address) {rs : List Register} {r s : Register}

theorem slotOf_head (rs : List Register) (r : Register) : slotOf a (r :: rs) r = a := by
  simp [slotOf]

theorem slotOf_tail (other : s ≠ r) : slotOf a (r :: rs) s = slotOf (a + 4) rs s := by
  unfold slotOf
  rw [List.idxOf_cons_ne _ other.symm, Nat.mul_succ, Nat.add_comm, BitVec.ofNat_add, BitVec.add_assoc]
  rfl

theorem slotOf_append (mem : s ∈ rs) (rest : List Register) : slotOf a (rs ++ rest) s = slotOf a rs s := by
  unfold slotOf
  rw [List.idxOf_append_of_mem mem]

theorem slotOf_last (fresh : r ∉ rs) : slotOf a (rs ++ [r]) r = a + BitVec.ofNat 32 (4 * rs.length) := by
  unfold slotOf
  rw [List.idxOf_append_of_notMem fresh, List.idxOf_cons_self, Nat.add_zero]

/-- A row is too short to come back to its beginning. -/
theorem slotOf_inj (distinct : rs.Nodup) (hr : r ∈ rs) (hs : s ∈ rs) (same : slotOf a rs r = slotOf a rs s) :
    r = s := by
  have few := Register.length_le distinct
  have first := List.idxOf_lt_length_of_mem hr
  have second := List.idxOf_lt_length_of_mem hs
  have numbers := congrArg BitVec.toNat (BitVec.add_right_inj _ |>.mp same)
  rw [BitVec.toNat_ofNat, BitVec.toNat_ofNat, Nat.mod_eq_of_lt (by omega), Nat.mod_eq_of_lt (by omega)] at numbers
  exact (List.idxOf_inj hr).mp (Nat.eq_of_mul_eq_mul_left (by decide) numbers)

end

def Registers.row (f : Registers) (a : Address) (rs : List Register) : List (Address × Word) :=
  rs.map fun r => (slotOf a rs r, f.read r)

theorem Registers.row_cons (f : Registers) (a : Address) {r : Register} {rs : List Register} (fresh : r ∉ rs) :
    f.row a (r :: rs) = (a, f.read r) :: f.row (a + 4) rs := by
  unfold row
  rw [List.map_cons, slotOf_head]
  refine congrArg _ (List.map_congr_left fun s mem => ?_)
  rw [slotOf_tail a (ne_of_mem_of_not_mem mem fresh)]

theorem Registers.row_concat (f : Registers) (a : Address) {r : Register} {rs : List Register} (fresh : r ∉ rs) :
    f.row a (rs ++ [r]) = f.row a rs ++ [(a + BitVec.ofNat 32 (4 * rs.length), f.read r)] := by
  unfold row
  rw [List.map_append, List.map_singleton, slotOf_last a fresh]
  refine congrArg (· ++ _) (List.map_congr_left fun s mem => ?_)
  rw [slotOf_append a mem]

theorem Registers.row_apart {M : ByteMemory σ ι} (f : Registers) {a : Address} {rs : List Register}
    (distinct : rs.Nodup)
    (apart : ∀ r ∈ rs, ∀ s ∈ rs, r ≠ s → M.Apart (slotOf a rs r) (slotOf a rs s)) :
    (f.row a rs).Pairwise fun w w' => M.Apart w.1 w'.1 :=
  List.pairwise_map.mpr (distinct.imp_of_mem fun hr hs other => apart _ hr _ hs other)

namespace Bus

variable (bus) in
def storeAll : List (Address × Word) → Access → Machine σ → Machine σ
  | [], _, m => m
  | (a, v) :: ws, k, m => storeAll ws .sequel (bus.write .word a v k m)

theorem KeepsRegisters.storeAll (h : bus.KeepsRegisters) (ws : List (Address × Word)) (k : Access) (m : Machine σ) :
    (bus.storeAll ws k m).cpu.regs = m.cpu.regs := by
  induction ws generalizing k m with
  | nil => rfl
  | cons w ws ih => exact (ih _ _).trans (h.write .word w.1 w.2 k m)

variable (bus) in
def stackAll (ws : List (Address × Word)) (sp : Address) (m : Machine σ) : Machine σ :=
  ((bus.storeAll ws .nonsequential m).mapRegs (·.setSp sp)).setFetchKind .nonsequential

theorem KeepsRegisters.stackAll (h : bus.KeepsRegisters) (ws : List (Address × Word)) (sp : Address) (m : Machine σ) :
    (bus.stackAll ws sp m).cpu.regs = m.cpu.regs.setSp sp :=
  congrArg (·.setSp sp) (h.storeAll ws .nonsequential m)

end Bus

namespace ByteMemory

variable {M : ByteMemory σ ι}

/-- The words of a row were stored, and nothing else. -/
structure StoredAll (M : ByteMemory σ ι) (ws : List (Address × Word)) (s s' : σ) : Prop where
  sound : M.sound s'
  holds : ∀ w ∈ ws, M.word s' w.1 = w.2
  others : ∀ p, (∀ w ∈ ws, ∀ i < 4, p ≠ M.unit .word w.1 i) → M.byte s' p = M.byte s p

theorem Behind.storeAll (h : M.Behind bus) {ws : List (Address × Word)}
    (apart : ws.Pairwise fun w w' => M.Apart w.1 w'.1) (k : Access) {m : Machine σ} (sound : M.sound m.system) :
    M.StoredAll ws m.system (bus.storeAll ws k m).system := by
  induction ws generalizing k m with
  | nil => exact ⟨sound, by simp, fun _ _ => rfl⟩
  | cons w ws ih =>
    obtain ⟨first, rest⟩ := List.pairwise_cons.mp apart
    have stored := h.write sound w.1 w.2 k
    have after := ih rest .sequel stored.sound
    refine ⟨after.sound, List.forall_mem_cons.mpr ⟨?_, after.holds⟩, fun p other => ?_⟩
    · rw [← stored.word]
      exact Word.eq_of_extract fun i hi => by
        rw [extract_word _ _ hi, extract_word _ _ hi]
        exact after.others _ fun w' mem j hj => first w' mem i hi j hj
    · rw [List.forall_mem_cons] at other
      exact (after.others p other.2).trans (stored.others p other.1)

theorem Behind.stackAll (h : M.Behind bus) {ws : List (Address × Word)}
    (apart : ws.Pairwise fun w w' => M.Apart w.1 w'.1) (sp : Address) {m : Machine σ} (sound : M.sound m.system) :
    M.StoredAll ws m.system (bus.stackAll ws sp m).system :=
  h.storeAll apart .nonsequential sound

end ByteMemory

namespace Thumb

def stacked (list : BitVec 8) (link : Bool) : List Register :=
  (LowRegister.ofList list).map LowRegister.wide ++ if link then [Register.lr] else []

theorem notMem_lows {r : Register} (high : 8 ≤ r.val) (list : BitVec 8) :
    r ∉ (LowRegister.ofList list).map LowRegister.wide := by
  intro mem
  obtain ⟨i, -, rfl⟩ := List.mem_map.mp mem
  exact absurd i.isLt (Nat.not_lt.mpr high)

theorem notMem_stacked {r : Register} (high : 8 ≤ r.val) (other : r ≠ Register.lr) (list : BitVec 8) (link : Bool) :
    r ∉ stacked list link := by
  rw [stacked, List.mem_append, not_or]
  refine ⟨notMem_lows high list, ?_⟩
  cases link <;> simp [other]

theorem stacked_ne_nil {list : BitVec 8} {link : Bool} (listed : list ≠ 0 ∨ link = true) : stacked list link ≠ [] := by
  rw [stacked, ne_eq, List.append_eq_nil_iff, not_and_or]
  refine listed.imp (fun listed => ?_) fun link => ?_
  · exact List.isEmpty_eq_false_iff.mp (ofList_isEmpty listed)
  · simp [link]

theorem stacked_nodup (list : BitVec 8) (link : Bool) : (stacked list link).Nodup := by
  have lows : ((LowRegister.ofList list).map LowRegister.wide).Nodup :=
    (ofList_nodup list).map fun _ _ => wide_inj.mp
  cases link with
  | false => rwa [stacked, if_neg Bool.false_ne_true, List.append_nil]
  | true =>
    rw [stacked, if_pos rfl, ← List.concat_eq_append, List.nodup_concat]
    exact ⟨notMem_lows (by decide) list, lows⟩

/-- The top of the stack after registers were pushed, where their row begins. -/
def bottom (list : BitVec 8) (link : Bool) (m : Machine σ) : Address :=
  m.cpu.regs.sp - BitVec.ofNat 32 (4 * (stacked list link).length)

def stackSlot (list : BitVec 8) (link : Bool) (m : Machine σ) (r : Register) : Address :=
  slotOf (bottom list link m) (stacked list link) r

section
variable (h : bus.KeepsRegisters)
include h

/-- Registers are pushed from the end of their row, against the order of their places. -/
theorem pushEach_eq {rs : List Register} (distinct : rs.Nodup) (top : Address) (k : Access) (m : Machine σ) :
    pushEach bus rs.reverse top k m =
      let bottom := top - BitVec.ofNat 32 (4 * rs.length)
      (bottom, bus.storeAll (m.cpu.regs.row bottom rs).reverse k m) := by
  induction rs using List.reverseRecOn generalizing top k m with
  | nil => simp [pushEach, Registers.row, Bus.storeAll]
  | append_singleton rs r ih =>
    have fresh : r ∉ rs := by grind
    have bottom : top - BitVec.ofNat 32 (4 * (rs ++ [r]).length) = top - 4 - BitVec.ofNat 32 (4 * rs.length) := by
      rw [List.length_append, List.length_singleton, Nat.mul_add, BitVec.ofNat_add]
      bv_omega
    have last : top - 4 - BitVec.ofNat 32 (4 * rs.length) + BitVec.ofNat 32 (4 * rs.length) = top - 4 := by bv_omega
    simp only [bottom, Registers.row_concat _ _ fresh, last, List.reverse_append, List.reverse_singleton,
      List.singleton_append, pushEach, Bus.storeAll]
    rw [ih (List.Nodup.of_append_left distinct), h.write]
    rfl

theorem push_eq (list : BitVec 8) (link : Bool) (m : Machine σ) :
    push bus list link m =
      bus.stackAll (m.cpu.regs.row (bottom list link m) (stacked list link)).reverse (bottom list link m) m := by
  have order : (if link then [Register.lr] else []) ++ ((LowRegister.ofList list).map LowRegister.wide).reverse =
      (stacked list link).reverse := by
    cases link <;> simp [stacked]
  unfold push
  dsimp only
  rw [order, pushEach_eq h (stacked_nodup list link)]
  rfl

end

/-- Popping loads each register from its place in the row, and leaves memory alone. -/
theorem loadEach_filled {M : ByteMemory σ ι} (h : M.Behind bus) {rs : List LowRegister} (distinct : rs.Nodup)
    (a : Address) (k : Access) {m : Machine σ} (sound : M.sound m.system) :
    let x := loadEach bus rs a k m
    M.Same m.system x.2.system ∧
      Registers.Filled m.cpu.regs.mode (rs.map LowRegister.wide)
        (fun r => M.word m.system (slotOf a (rs.map LowRegister.wide) r)) m.cpu.regs x.2.cpu.regs := by
  induction rs generalizing a k m with
  | nil => exact ⟨⟨sound, rfl⟩, .refl _ _ _⟩
  | cons r rs ih =>
    obtain ⟨fresh, distinct⟩ := List.nodup_cons.mp distinct
    have absent : r.wide ∉ rs.map LowRegister.wide := by
      intro mem
      obtain ⟨s, mem, same⟩ := List.mem_map.mp mem
      exact fresh (wide_inj.mp same ▸ mem)
    obtain ⟨value, same⟩ := h.read sound a k
    have regs := h.keepsRegisters.read .word a k m
    rw [loadEach]
    revert value same regs
    generalize bus.read .word a k m = x
    obtain ⟨v, m₁⟩ := x
    rintro rfl same regs
    obtain ⟨memory, filled⟩ := ih distinct (a + 4) .sequel (m := setLow r (M.word m.system a) m₁) same.sound
    have written : (setLow r (M.word m.system a) m₁).cpu.regs =
        m.cpu.regs.put m.cpu.regs.mode r.wide (M.word m.system a) := by
      rw [Registers.put_mode (wide_ne_pc r), ← show m₁.cpu.regs = m.cpu.regs from regs]
      rfl
    refine ⟨same.trans memory, ?_⟩
    rw [List.map_cons]
    refine .cons absent ?_
    rw [slotOf_head, ← written]
    rw [written, (m.cpu.regs.put_same _ _ _).2.2.2, ← written] at filled
    refine filled.congr fun s mem => ?_
    rw [slotOf_tail a (ne_of_mem_of_not_mem mem absent)]
    exact same.word _

/-- What a push comes to: the registers lie in their row below the old top, and nothing else has changed. -/
structure Pushed (M : ByteMemory σ ι) (list : BitVec 8) (link : Bool) (m n : Machine σ) : Prop where
  regs : n.cpu.regs = m.cpu.regs.setSp (bottom list link m)
  sound : M.sound n.system
  holds : ∀ r ∈ stacked list link, M.word n.system (stackSlot list link m r) = m.reg r
  others : ∀ p, (∀ r ∈ stacked list link, ∀ i < 4, p ≠ M.unit .word (stackSlot list link m r) i) →
    M.byte n.system p = M.byte m.system p

/-- What a pop comes to if `value` says what lies in the row for each register, that of the link register being for
the program counter. -/
structure Popped (M : ByteMemory σ ι) (v5 : Bool) (list : BitVec 8) (counter : Bool) (value : Register → Word)
    (m n : Machine σ) : Prop where
  memory : M.Same m.system n.system
  loaded : ∀ r ∈ LowRegister.ofList list, low n r = value r.wide
  sp : n.cpu.regs.sp = m.cpu.regs.sp + BitVec.ofNat 32 (4 * (stacked list counter).length)
  /-- No other cell changes. -/
  others : ∀ s, (∀ r ∈ LowRegister.ofList list, s ≠ .low r) → s ≠ .stack m.cpu.regs.bank →
    n.cpu.regs.cell s = m.cpu.regs.cell s
  saved : n.cpu.regs.saved = m.cpu.regs.saved
  mode : n.cpu.regs.mode = m.cpu.regs.mode
  stays : counter = false → n.cpu.regs.pc = m.cpu.regs.pc ∧ n.cpu.regs.cpsr = m.cpu.regs.cpsr
  /-- On the newer architecture the lowest bit of the value can end THUMB code. No other flag changes. -/
  continues : counter = true →
    n.cpu.regs.cpsr =
      (if v5 && !(value Register.lr).getLsbD 0 then m.cpu.regs.setFlag .thumb false else m.cpu.regs).cpsr ∧
    n.cpu.nextAddress = Word.alignDown (value Register.lr) n.cpu.regs.instructionSize

section
variable {M : ByteMemory σ ι} (h : M.Behind bus) {m : Machine σ} (sound : M.sound m.system)
include h sound

theorem push_pushed {list : BitVec 8} {link : Bool}
    (apart : ∀ r ∈ stacked list link, ∀ s ∈ stacked list link, r ≠ s →
      M.Apart (stackSlot list link m r) (stackSlot list link m s)) :
    Pushed M list link m (push bus list link m) := by
  have words := m.cpu.regs.row_apart (stacked_nodup list link) apart
  have stored := h.stackAll (List.pairwise_reverse.mpr (words.imp ByteMemory.Apart.symm)) (bottom list link m) sound
  rw [push_eq h.keepsRegisters]
  refine ⟨?_, stored.sound, fun r mem => ?_, fun p other => stored.others p fun w mem => ?_⟩
  · exact h.keepsRegisters.stackAll _ _ m
  · refine stored.holds (_, m.reg r) (List.mem_reverse.mpr ?_)
    exact List.mem_map.mpr ⟨r, mem, rfl⟩
  · obtain ⟨r, listed, rfl⟩ := List.mem_map.mp (List.mem_reverse.mp mem)
    exact other r listed

omit h sound in
/-- Loading registers and then changing the stack pointer, and maybe where the program goes on. -/
theorem Popped.of_filled {v5 : Bool} {list : BitVec 8} {counter : Bool} {value : Register → Word} {n : Machine σ}
    {g : Registers} {pc cpsr : Word} (memory : M.Same m.system n.system)
    (filled : Registers.Filled m.cpu.regs.mode ((LowRegister.ofList list).map LowRegister.wide) value m.cpu.regs g)
    (ended : n.cpu.regs = { g.setSp (m.cpu.regs.sp + BitVec.ofNat 32 (4 * (stacked list counter).length)) with
      pc := pc, cpsr := cpsr })
    (stays : counter = false → pc = g.pc ∧ cpsr = g.cpsr)
    (continues : counter = true →
      cpsr = (if v5 && !(value Register.lr).getLsbD 0 then g.setFlag .thumb false else g).cpsr ∧
      n.cpu.nextAddress = Word.alignDown (value Register.lr) n.cpu.regs.instructionSize) :
    Popped M v5 list counter value m n := by
  have bank : g.bank = m.cpu.regs.bank := congrArg Mode.bank filled.mode
  have cells (s : Slot) : n.cpu.regs.cell s = if s = .stack m.cpu.regs.bank then
      m.cpu.regs.sp + BitVec.ofNat 32 (4 * (stacked list counter).length) else g.cell s := by
    rw [ended, ← bank]
    exact g.cell_setCell (.stack g.bank) s _
  have mode : n.cpu.regs.mode = m.cpu.regs.mode := by
    rw [ended]
    exact filled.mode
  refine ⟨memory, fun r mem => ?_, ?_, fun s unlisted apart => ?_, ?_, mode, fun stay => ?_, fun goes => ?_⟩
  · rw [low_eq, cells, if_neg Slot.noConfusion, ← filled.loaded r.wide (List.mem_map_of_mem mem) (wide_ne_pc r),
      Registers.readAs_eq (Registers.slot?_wide _ r)]
  · rw [Registers.sp, Registers.bank, mode, cells]
    exact if_pos rfl
  · rw [cells, if_neg apart]
    refine filled.others s fun r mem named => ?_
    obtain ⟨i, listed, rfl⟩ := List.mem_map.mp mem
    rw [Registers.slot?_wide, Option.some.injEq] at named
    exact unlisted i listed named.symm
  · rw [ended]
    exact filled.saved
  · rw [ended, ← filled.pc, ← filled.cpsr]
    exact stays stay
  · obtain ⟨status, next⟩ := continues goes
    refine ⟨?_, next⟩
    rw [ended]
    refine status.trans ?_
    split_ifs
    · exact congrArg (Bits.put · _ _) filled.cpsr
    · exact filled.cpsr

/-- Going on at a popped address, which on the newer architecture can be in ARM code. -/
theorem jump_popped (target : Word) :
    let f := if bus.isV5 && !target.getLsbD 0 then m.cpu.regs.setFlag .thumb false else m.cpu.regs
    let n := bus.jump target (if bus.isV5 && !target.getLsbD 0 then m.setFlag .thumb false else m)
    M.Same m.system n.system ∧
      n.cpu.regs = { m.cpu.regs with pc := Bus.landing f target + f.instructionSize, cpsr := f.cpsr } ∧
      n.cpu.nextAddress = Word.alignDown target n.cpu.regs.instructionSize := by
  intro f n
  have start : (if bus.isV5 && !target.getLsbD 0 then m.setFlag .thumb false else m).cpu.regs = f := by
    unfold f
    split_ifs <;> rfl
  have system : (if bus.isV5 && !target.getLsbD 0 then m.setFlag .thumb false else m).system = m.system := by
    split_ifs <;> rfl
  have regs : n.cpu.regs = { f with pc := Bus.landing f target + f.instructionSize } := by
    rw [← start]
    exact h.keepsRegisters.jump target _
  refine ⟨?_, ?_, ?_⟩
  · rw [← system] at sound ⊢
    exact h.jump sound target
  · rw [regs]
    unfold f
    split_ifs <;> rfl
  · rw [Processor.nextAddress, regs]
    exact BitVec.add_sub_cancel _ _

theorem pop_popped (list : BitVec 8) (counter : Bool) :
    Popped M bus.isV5 list counter (fun r => M.word m.system (slotOf m.cpu.regs.sp (stacked list counter) r)) m
      (pop bus list counter m) := by
  obtain ⟨memory, filled⟩ := loadEach_filled h (ofList_nodup list) m.cpu.regs.sp .nonsequential sound
  have ended := loadEach_end bus (LowRegister.ofList list) m.cpu.regs.sp .nonsequential m
  have same : ∀ r ∈ (LowRegister.ofList list).map LowRegister.wide,
      M.word m.system (slotOf m.cpu.regs.sp ((LowRegister.ofList list).map LowRegister.wide) r) =
        M.word m.system (slotOf m.cpu.regs.sp (stacked list counter) r) := by
    intro r mem
    rw [stacked, slotOf_append _ mem]
  have filled := filled.congr same
  unfold pop
  revert memory filled ended
  generalize loadEach bus (LowRegister.ofList list) m.cpu.regs.sp .nonsequential m = x
  obtain ⟨⟨sp, kind⟩, m₁⟩ := x
  rintro memory rfl filled
  cases counter with
  | false =>
    have length : (stacked list false).length = (LowRegister.ofList list).length := by simp [stacked]
    refine .of_filled memory filled ?_ (fun _ => ⟨rfl, rfl⟩) (fun goes => absurd goes Bool.false_ne_true)
    rw [length]
    rfl
  | true =>
    have top : m.cpu.regs.sp + BitVec.ofNat 32 (4 * (LowRegister.ofList list).length) + 4 =
        m.cpu.regs.sp + BitVec.ofNat 32 (4 * (stacked list true).length) := by
      simp only [stacked, if_pos, List.length_append, List.length_map, List.length_singleton, Nat.mul_add,
        BitVec.ofNat_add, BitVec.add_assoc]
      rfl
    have last : m.cpu.regs.sp + BitVec.ofNat 32 (4 * (LowRegister.ofList list).length) =
        slotOf m.cpu.regs.sp (stacked list true) Register.lr := by
      rw [stacked, if_pos rfl, slotOf_last _ (notMem_lows (by decide) list), List.length_map]
    dsimp only at memory filled ⊢
    rw [top, last]
    obtain ⟨value, read⟩ := h.read memory.sound (slotOf m.cpu.regs.sp (stacked list true) Register.lr) kind
    have regs := h.keepsRegisters.read .word (slotOf m.cpu.regs.sp (stacked list true) Register.lr) kind m₁
    rw [memory.word] at value
    revert value read regs
    generalize bus.read .word (slotOf m.cpu.regs.sp (stacked list true) Register.lr) kind m₁ = y
    obtain ⟨target, m₂⟩ := y
    rintro rfl read regs
    dsimp only at read regs ⊢
    rw [if_pos rfl]
    rw [← regs] at filled
    obtain ⟨jumped, final, next⟩ := jump_popped h (m := m₂.mapRegs (·.setSp (m.cpu.regs.sp +
      BitVec.ofNat 32 (4 * (stacked list true).length)))) read.sound
      (M.word m.system (slotOf m.cpu.regs.sp (stacked list true) Register.lr))
    refine .of_filled ((memory.trans read).trans jumped) filled final (fun stays => absurd stays Bool.noConfusion)
      fun _ => ⟨?_, ?_⟩
    · split_ifs <;> rfl
    · exact next

end

theorem Popped.congr {M : ByteMemory σ ι} {v5 : Bool} {list : BitVec 8} {counter : Bool}
    {value value' : Register → Word} {m n : Machine σ} (popped : Popped M v5 list counter value m n)
    (same : ∀ r ∈ stacked list counter, value r = value' r) : Popped M v5 list counter value' m n := by
  refine { popped with loaded := fun r mem => ?_, continues := fun goes => ?_ }
  · exact (popped.loaded r mem).trans (same _ (List.mem_append_left _ (List.mem_map_of_mem mem)))
  · rw [← same Register.lr (by simp [stacked, goes])]
    exact popped.continues goes

def pushHalfword (list : BitVec 8) (link : Bool) : Halfword := 0b1011010#7 ++ BitVec.ofBool link ++ list

def popHalfword (list : BitVec 8) (counter : Bool) : Halfword := 0b1011110#7 ++ BitVec.ofBool counter ++ list

theorem extract_halfword (code : BitVec 7) (list : BitVec 8) (link : Bool) :
    (code ++ BitVec.ofBool link ++ list).extractLsb' 11 5 = code.extractLsb' 2 5 ∧
      (code ++ BitVec.ofBool link ++ list).extractLsb' 8 4 = code.extractLsb' 0 3 ++ BitVec.ofBool link ∧
      (code ++ BitVec.ofBool link ++ list).extractLsb' 0 8 = list := by
  refine ⟨?_, ?_, ?_⟩
  · simp (disch := omega) only [BitVec.extractLsb'_append_eq_of_le, Nat.reduceSub]
  · simp (disch := omega) only [BitVec.extractLsb'_append_eq_of_le, Nat.reduceSub]
    ext i hi
    simp only [BitVec.getElem_extractLsb', BitVec.getLsbD_append]
    grind
  · simp (disch := omega) only [BitVec.extractLsb'_append_eq_of_add_le, BitVec.extractLsb'_eq_self]

theorem decode_pushHalfword (v5 : Bool) (list : BitVec 8) (link : Bool) :
    decode v5 (pushHalfword list link) = .push list link := by
  obtain ⟨top, stack, low⟩ := extract_halfword 0b1011010#7 list link
  rw [pushHalfword, decode, top]
  show decodeStack _ = _
  rw [decodeStack, stack, low]
  cases link <;> rfl

theorem execute_pushHalfword (list : BitVec 8) (link : Bool) (m : Machine σ) :
    execute bus (pushHalfword list link) m = .ok () (push bus list link m) := by
  rw [execute, decode_pushHalfword]
  rfl

theorem decode_popHalfword (v5 : Bool) (list : BitVec 8) (counter : Bool) :
    decode v5 (popHalfword list counter) = .pop list counter := by
  obtain ⟨top, stack, low⟩ := extract_halfword 0b1011110#7 list counter
  rw [popHalfword, decode, top]
  show decodeStack _ = _
  rw [decodeStack, stack, low]
  cases counter <;> rfl

theorem execute_popHalfword (list : BitVec 8) (counter : Bool) (m : Machine σ) :
    execute bus (popHalfword list counter) m = .ok () (pop bus list counter m) := by
  rw [execute, decode_popHalfword]
  rfl

end Thumb

/-- A push stores its registers in ascending order below the stack pointer and changes nothing else, if the words
have no bytes in common. Whatever happens to the registers then, while the stack pointer and these words are the
same again, a pop of the same list brings the registers back, and the stack pointer. With the program counter in
place of the link register it goes on where that said, on the newer architecture in the instruction set that the
lowest bit chooses. -/
theorem Thumb.pop_restores_pushed {M : ByteMemory σ ι} (h : M.Behind bus) (list : BitVec 8) (link : Bool)
    {m : Machine σ} (sound : M.sound m.system)
    (apart : ∀ r ∈ stacked list link, ∀ s ∈ stacked list link, r ≠ s →
      M.Apart (stackSlot list link m r) (stackSlot list link m s)) :
    ∃ n, execute bus (pushHalfword list link) m = .ok () n ∧ Pushed M list link m n ∧
      ∀ m₂ : Machine σ, M.sound m₂.system → m₂.cpu.regs.sp = n.cpu.regs.sp →
        (∀ r ∈ stacked list link,
          M.word m₂.system (stackSlot list link m r) = M.word n.system (stackSlot list link m r)) →
        ∃ n₂, execute bus (popHalfword list link) m₂ = .ok () n₂ ∧
          Popped M bus.isV5 list link m.reg m₂ n₂ ∧ n₂.cpu.regs.sp = m.cpu.regs.sp ∧
          (link = true → m₂.cpu.isThumb = true →
            n₂.cpu.isThumb = (!bus.isV5 || (m.reg Register.lr).getLsbD 0)) := by
  have pushed := push_pushed h sound apart
  refine ⟨push bus list link m, execute_pushHalfword list link m, pushed, fun m₂ sound₂ sp kept => ?_⟩
  have sp : m₂.cpu.regs.sp = bottom list link m := by
    rw [sp, pushed.regs, Registers.sp_setSp]
  have restored : ∀ r ∈ stacked list link,
      M.word m₂.system (slotOf m₂.cpu.regs.sp (stacked list link) r) = m.reg r := by
    intro r mem
    rw [sp, ← pushed.holds r mem]
    exact kept r mem
  have popped := (pop_popped h sound₂ list link).congr restored
  refine ⟨pop bus list link m₂, execute_popHalfword list link m₂, popped, ?_, fun goes thumb => ?_⟩
  · rw [popped.sp, sp, bottom, BitVec.sub_add_cancel]
  · have thumb : m₂.cpu.regs.flag .thumb = true := thumb
    show (pop bus list link m₂).cpu.regs.flag .thumb = _
    rw [Registers.flag, (popped.continues goes).1, ← Registers.flag]
    cases bus.isV5 <;> cases (m.reg Register.lr).getLsbD 0 <;> simp [Registers.flag_setFlag, thumb]

/-- In a memory that has room for all of them, the words on the stack have no bytes in common. -/
theorem FlatMemory.stack_apart {k : Nat} (hk : 2 ≤ k) (list : BitVec 8) (link : Bool)
    (room : 4 * (Thumb.stacked list link).length ≤ 2 ^ k) (m : Machine σ) :
    ∀ r ∈ Thumb.stacked list link, ∀ s ∈ Thumb.stacked list link, r ≠ s →
      (bytes (2 ^ k)).Apart (Thumb.stackSlot list link m r) (Thumb.stackSlot list link m s) := by
  intro r hr s hs other
  have few := Register.length_le (Thumb.stacked_nodup list link)
  refine bytes_apart hk room (by omega) (List.idxOf_lt_length_of_mem hr) (List.idxOf_lt_length_of_mem hs) ?_ _
  exact fun same => other ((List.idxOf_inj hr).mp same)

/-- A machine about to push r0 and r2, and an address in ARM code, into a memory of 16 bytes. -/
def pushing : Machine FlatMemory where
  cpu := (Processor.powerOn .v5).mapRegs fun f =>
    let f := (f.write (Thumb.register 0 0).wide 3).write (Thumb.register 2 0).wide 7
    ((f.setLr 0x2000042).setSp 0x100).setFlag .thumb true
  system := { ram := ByteBuffer.zeros 16 }
  journal := #[]

/-- `POP {r0, r2, pc}` after `PUSH {r0, r2, lr}`, while a called function has changed r0 and the link register. -/
theorem Thumb.pushing_pops :
    let bus := FlatMemory.evenBus .v5
    (FlatMemory.bytes (2 ^ 4)).Behind bus ∧ (FlatMemory.bytes (2 ^ 4)).sound pushing.system ∧
    (∀ r ∈ stacked 0b101 true, ∀ s ∈ stacked 0b101 true, r ≠ s →
      (FlatMemory.bytes (2 ^ 4)).Apart (stackSlot 0b101 true pushing r) (stackSlot 0b101 true pushing s)) ∧
    ∃ n, execute bus 0xB505 pushing = .ok () n ∧ n.cpu.regs.sp = 0xF4 ∧
      (FlatMemory.bytes (2 ^ 4)).word n.system 0xFC = 0x2000042 ∧
      ∃ n₂, execute bus 0xBD05 (n.mapRegs fun f => (f.write (register 0 0).wide 0).setLr 0) = .ok () n₂ ∧
        low n₂ (register 0 0) = 3 ∧ low n₂ (register 2 0) = 7 ∧ n₂.cpu.regs.sp = 0x100 ∧
        n₂.cpu.isThumb = false ∧ n₂.cpu.nextAddress = 0x2000040 := by
  intro bus
  have behind : (FlatMemory.bytes (2 ^ 4)).Behind bus := FlatMemory.bytes_behind (by decide) _ _
  have sound : (FlatMemory.bytes (2 ^ 4)).sound pushing.system := ByteBuffer.size_zeros 16
  have apart := FlatMemory.stack_apart (k := 4) (by decide) 0b101 true (by decide) pushing
  obtain ⟨n, push, pushed, pops⟩ := Thumb.pop_restores_pushed behind 0b101 true sound apart
  have regs : n.cpu.regs = pushing.cpu.regs.setSp 0xF4 := pushed.regs
  have sp : n.cpu.regs.sp = 0xF4 := by rw [regs, Registers.sp_setSp]
  refine ⟨behind, sound, apart, n, push, sp, pushed.holds Register.lr (by decide), ?_⟩
  have called : (n.mapRegs fun f => (f.write (register 0 0).wide 0).setLr 0).cpu.regs =
      ((pushing.cpu.regs.setSp 0xF4).write (register 0 0).wide 0).setLr 0 := by
    rw [← regs]
    rfl
  obtain ⟨n₂, pop, popped, top, continues⟩ := pops (n.mapRegs fun f => (f.write (register 0 0).wide 0).setLr 0)
    pushed.sound (by rw [called, sp]; decide +kernel) fun _ _ => rfl
  have thumb : n₂.cpu.isThumb = false :=
    (continues rfl (by rw [Processor.isThumb, called]; decide +kernel)).trans (by decide +kernel)
  have size : n₂.cpu.regs.instructionSize = 4 := Registers.instructionSize_of_clear thumb
  refine ⟨n₂, pop, ?_, ?_, top, thumb, ?_⟩
  · exact (popped.loaded _ (by decide)).trans (by decide +kernel)
  · exact (popped.loaded _ (by decide)).trans (by decide +kernel)
  · rw [(popped.continues rfl).2, size]
    decide +kernel

end Lockstep
