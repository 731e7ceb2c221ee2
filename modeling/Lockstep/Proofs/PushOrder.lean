import Lockstep.Proofs.Stack

/-!
A push and the ARM instruction that stores the same registers below the stack pointer. Both store the same words at
the same places, the ARM instruction from the lowest address upwards and the push from the highest downwards. Both
mark the first access as out of sequence and the others as in sequence.
-/

namespace Lockstep

variable {σ : Type} {bus : Bus σ}

def Request.untimed : Request → Request
  | .wait w a k _ => .wait w a k 0
  | q => q

def storeRequests : List (Address × Word) → Access → Transcript
  | [], _ => []
  | (a, v) :: ws, k => .wait .word a k.asWrite 0 :: .set .word a v :: storeRequests ws .sequel

theorem Bus.recorded_storeAll (ws : List (Address × Word)) (k : Access) (m : Machine (σ × Transcript)) :
    (bus.recorded.storeAll ws k m).system.2.map Request.untimed =
      m.system.2.map Request.untimed ++ storeRequests ws k := by
  induction ws generalizing k m with
  | nil => exact (List.append_nil _).symm
  | cons w ws ih =>
    obtain ⟨n, asked⟩ := bus.recorded_write w.1 w.2 k m
    rw [storeAll, ih, asked, List.map_append, List.append_assoc]
    rfl

/-- The first request tells where the first word goes. -/
theorem storeRequests_head (ws : List (Address × Word)) (k : Access) :
    (storeRequests ws k).head? = ws.head?.map fun w => .wait .word w.1 k.asWrite 0 := by
  cases ws <;> rfl

/-- Words at different places are stored in the same order from both ends only if there is at most one. -/
theorem storeRequests_reverse {ws : List (Address × Word)} (distinct : (ws.map Prod.fst).Nodup) (k : Access) :
    storeRequests ws.reverse k = storeRequests ws k ↔ ws.length ≤ 1 := by
  constructor
  · intro same
    match ws with
    | [] | [_] => simp
    | w :: w' :: rest =>
      have heads := congrArg List.head? same
      rw [storeRequests_head, storeRequests_head, List.head?_reverse, List.getLast?_cons_cons, List.head?_cons,
        Option.map_some, Option.map_eq_some_iff] at heads
      obtain ⟨last, mem, first⟩ := heads
      have again : w.1 ∈ (w' :: rest).map Prod.fst := by
        rw [← (Request.wait.inj first).2.1]
        exact List.mem_map_of_mem (List.mem_of_getLast? mem)
      exact absurd again (List.nodup_cons.mp distinct).1
  · intro short
    match ws with
    | [] | [_] => rfl

/-- The time of storing words, if accesses take their time by their place and kind. -/
def storeTime (timing : Width → Address → Access → Nat) : List (Address × Word) → Access → Nat
  | [], _ => 0
  | (a, _) :: ws, k => timing .word a k.asWrite + storeTime timing ws .sequel

theorem storeTime_sequel (timing : Width → Address → Access → Nat) (ws : List (Address × Word)) :
    storeTime timing ws .sequel = (ws.map fun w => timing .word w.1 Access.sequel.asWrite).sum := by
  induction ws with
  | nil => rfl
  | cons w ws ih => rw [storeTime, ih, List.map_cons, List.sum_cons]

/-- The order matters to the time only through the word that comes first. -/
theorem storeTime_reverse (timing : Width → Address → Access → Nat) {ws : List (Address × Word)}
    {first last : Address × Word} (head : ws.head? = some first) (tail : ws.getLast? = some last) (k : Access) :
    storeTime timing ws.reverse k = storeTime timing ws k ↔
      timing .word last.1 k.asWrite + timing .word first.1 Access.sequel.asWrite =
        timing .word first.1 k.asWrite + timing .word last.1 Access.sequel.asWrite := by
  have spent {w : Address × Word} {ws : List (Address × Word)} (head : ws.head? = some w) :
      storeTime timing ws k + timing .word w.1 Access.sequel.asWrite =
        timing .word w.1 k.asWrite + (ws.map fun w => timing .word w.1 Access.sequel.asWrite).sum := by
    obtain ⟨rest, rfl⟩ := List.head?_eq_some_iff.mp head
    rw [storeTime, storeTime_sequel, List.map_cons, List.sum_cons]
    omega
  have forwards := spent head
  have backwards := spent (List.head?_reverse.trans tail)
  rw [List.map_reverse, List.sum_reverse] at backwards
  omega

theorem ByteMemory.Behind.storeAll_timestamp {ι : Type} {M : ByteMemory σ ι} (h : M.Behind bus)
    {timing : Width → Address → Access → Nat} (timed : ∀ w a k m, (bus.waitTime w a k m).1 = timing w a k)
    (ws : List (Address × Word)) (k : Access) (m : Machine σ) :
    (bus.storeAll ws k m).cpu.timestamp = m.cpu.timestamp + storeTime timing ws k := by
  induction ws generalizing k m with
  | nil => rfl
  | cons w ws ih =>
    rw [Bus.storeAll, ih, h.write_cpu, timed, storeTime, ← Nat.add_assoc]
    rfl

theorem ByteMemory.Behind.stackAll_timestamp {ι : Type} {M : ByteMemory σ ι} (h : M.Behind bus)
    {timing : Width → Address → Access → Nat} (timed : ∀ w a k m, (bus.waitTime w a k m).1 = timing w a k)
    (ws : List (Address × Word)) (sp : Address) (m : Machine σ) :
    (bus.stackAll ws sp m).cpu.timestamp = m.cpu.timestamp + storeTime timing ws .nonsequential :=
  h.storeAll_timestamp timed ws .nonsequential m

namespace Arm

def stackList (list : BitVec 8) (link : Bool) : BitVec 16 := 0#1 ++ BitVec.ofBool link ++ 0#6 ++ list

/-- `STMDB sp!`, always executed. -/
def storeBelow (list : BitVec 8) (link : Bool) : Word := 0xE92D#16 ++ stackList list link

theorem ofList_stackList (list : BitVec 8) (link : Bool) :
    Register.ofList (stackList list link) = Thumb.stacked list link := by
  have split : List.finRange 16 =
      (List.finRange 8).map LowRegister.wide ++ [8, 9, 10, 11, 12, 13, Register.lr, 15] := by decide
  have low : ∀ r ∈ List.finRange 8, (stackList list link).getLsbD (LowRegister.wide r).val = list.getLsbD r.val := by
    intro r _
    have small : (LowRegister.wide r).val < 8 := r.isLt
    rw [stackList, BitVec.getLsbD_append, if_pos small]
    rfl
  rw [Register.ofList, split, List.filter_append, List.filter_map]
  refine congrArg₂ (· ++ ·) (congrArg _ (List.filter_congr low)) ?_
  simp only [stackList, BitVec.getLsbD_append]
  cases link <;> rfl

theorem ofWord_storeBelow (list : BitVec 8) (link : Bool) : Block.ofWord (storeBelow list link) =
    { load := false, n := Register.sp, list := stackList list link, user := false
      i := { before := true, up := false, writeback := true } } := by
  have low : (storeBelow list link).extractLsb' 0 16 = stackList list link := by
    simp (disch := omega) only [storeBelow, BitVec.extractLsb'_append_eq_of_add_le, BitVec.extractLsb'_eq_self]
  have n : register (storeBelow list link) 16 = Register.sp := by
    simp (disch := omega) only [register, storeBelow, BitVec.extractLsb'_append_eq_of_le, Nat.reduceSub]
    rfl
  rw [Block.ofWord, low, n]
  simp only [storeBelow, BitVec.getLsbD_append]
  rfl

theorem storeBelow_fields (list : BitVec 8) (link : Bool) :
    condition (storeBelow list link) = Condition.always ∧ (storeBelow list link).extractLsb' 25 3 = 0b100 := by
  simp (disch := omega) only [condition, storeBelow, BitVec.extractLsb'_append_eq_of_le, Nat.reduceSub]
  exact ⟨rfl, rfl⟩

/-- Registers are stored from the beginning of their row. -/
theorem storeEach_row (h : bus.KeepsRegisters) {early : Register → Bool} {rs : List Register} (distinct : rs.Nodup)
    (late : ∀ r ∈ rs, early r = false) (plain : Register.pc ∉ rs) (final : Word) (a : Address) (k : Access)
    (m : Machine σ) :
    storeEach bus false early final rs a k m = bus.storeAll (m.cpu.regs.row a rs) k m := by
  induction rs generalizing a k m with
  | nil => rfl
  | cons r rs ih =>
    obtain ⟨fresh, distinct⟩ := List.nodup_cons.mp distinct
    rw [List.forall_mem_cons] at late
    rw [List.mem_cons, not_or] at plain
    rw [storeEach, late.1]
    simp only [Bool.false_eq_true, if_false, if_neg (Ne.symm plain.1)]
    rw [ih distinct late.2 plain.2, h.write, Registers.row_cons _ _ fresh]
    rfl

theorem storeBelow_eq (h : bus.KeepsRegisters) {list : BitVec 8} {link : Bool} (listed : list ≠ 0 ∨ link = true)
    (m : Machine σ) :
    execute bus (storeBelow list link) m = .ok () (bus.stackAll
      (m.cpu.regs.row (Thumb.bottom list link m) (Thumb.stacked list link)) (Thumb.bottom list link m) m) := by
  obtain ⟨always, block⟩ := storeBelow_fields list link
  have some : (Thumb.stacked list link).isEmpty = false := List.isEmpty_eq_false_iff.mpr (Thumb.stacked_ne_nil listed)
  have late : ∀ r ∈ Thumb.stacked list link,
      storesFinal bus.isV5 true Register.sp (Thumb.stacked list link) r = false := by
    intro r mem
    have other : r ≠ Register.sp := by
      rintro rfl
      exact Thumb.notMem_stacked (by decide) (by decide) list link mem
    simp [storesFinal, other]
  rw [execute_eq, if_pos (executes_always _ _ always), Block.decode_ofWord _ block, ofWord_storeBelow]
  show blockTransfer bus false Register.sp (stackList list link) false _ m = _
  rw [blockTransfer_eq, Exec.get_bind]
  simp only [finishBlock_eq, ofList_stackList, some]
  rw [Exec.modifyGet_bind, moveBlock, ofList_stackList]
  have plain := Thumb.notMem_stacked (r := Register.pc) (by decide) (by decide) list link
  have stored := storeEach_row h (Thumb.stacked_nodup list link) late plain (Thumb.bottom list link m)
    (Thumb.bottom list link m) .nonsequential m
  rw [Bus.stackAll, ← stored]
  rfl

end Arm

/-- What a computation asks for that stores words and puts the stack pointer to a new place. -/
theorem Exec.Shows.stacks {x : Exec (σ × Transcript) Unit} {y : Exec σ Unit} (shows : Exec.Shows (.of Prod.fst) x y)
    {m : Machine σ} {ws : List (Address × Word)} {sp : Address} (plain : y m = .ok () (bus.stackAll ws sp m))
    (recorded : x (m.recording []) = .ok () (bus.recorded.stackAll ws sp (m.recording []))) :
    ∃ t, x (m.recording []) = .ok () ((bus.stackAll ws sp m).recording t) ∧
      t.map Request.untimed = storeRequests ws .nonsequential := by
  obtain ⟨t, shown⟩ := shows.recording plain
  refine ⟨t, shown, ?_⟩
  have same := EStateM.Result.ok.inj (shown.symm.trans recorded)
  have asked : t = (bus.recorded.storeAll ws .nonsequential (m.recording [])).system.2 :=
    congrArg (fun n : Machine (σ × Transcript) => n.system.2) same.2
  rw [asked, Bus.recorded_storeAll]
  rfl

/-- The words of a row are at different places. -/
theorem Registers.row_distinct (f : Registers) (a : Address) {rs : List Register} (distinct : rs.Nodup) :
    ((f.row a rs).map Prod.fst).Nodup := by
  rw [row, List.map_map]
  exact distinct.map_on fun r hr s hs => slotOf_inj a distinct hr hs

/-- What was stored does not depend on the order. -/
theorem ByteMemory.StoredAll.unique {ι : Type} {M : ByteMemory σ ι} {ws ws' : List (Address × Word)} {s s₁ s₂ : σ}
    (h : M.StoredAll ws s s₁) (h' : M.StoredAll ws' s s₂) (same : ∀ w, w ∈ ws ↔ w ∈ ws') : M.byte s₁ = M.byte s₂ := by
  funext p
  by_cases inside : ∃ w ∈ ws, ∃ i < 4, p = M.unit .word w.1 i
  · obtain ⟨w, mem, i, hi, rfl⟩ := inside
    rw [← extract_word _ _ hi, ← extract_word _ _ hi, h.holds w mem, h'.holds w ((same w).mp mem)]
  · have apart : ∀ w ∈ ws, ∀ i < 4, p ≠ M.unit .word w.1 i := by
      intro w mem i hi here
      exact inside ⟨w, mem, i, hi, here⟩
    rw [h.others p apart, h'.others p fun w mem => apart w ((same w).mpr mem)]

/-- The words that were stacked from both ends. -/
theorem ByteMemory.Behind.stackAll_reverse {ι : Type} {M : ByteMemory σ ι} (h : M.Behind bus)
    {ws : List (Address × Word)} (apart : ws.Pairwise fun w w' => M.Apart w.1 w'.1) (sp : Address) {m m' : Machine σ}
    (same : m'.system = m.system) (sound : M.sound m.system) :
    M.byte (bus.stackAll ws.reverse sp m).system = M.byte (bus.stackAll ws sp m').system := by
  have down := h.stackAll (List.pairwise_reverse.mpr (apart.imp Apart.symm)) sp sound
  have up := h.stackAll apart sp (same ▸ sound)
  rw [same] at up
  exact down.unique up fun w => List.mem_reverse

namespace Machine.SameButCode

variable {m m' : Machine σ} (alike : m.SameButCode m')
include alike

theorem reg {r : Register} (other : r ≠ Register.pc) : m'.reg r = m.reg r := by
  obtain ⟨s, named⟩ := Option.ne_none_iff_exists'.mp (other ∘ (Mode.slot?_eq_none m.cpu.regs.mode r).mp)
  rw [Machine.reg, Machine.reg, Registers.read, Registers.read, alike.mode, Registers.readAs_eq named,
    Registers.readAs_eq named, Registers.cell, Registers.cell, alike.cells]

theorem bottom (list : BitVec 8) (link : Bool) : Thumb.bottom list link m' = Thumb.bottom list link m := by
  have sp : m'.cpu.regs.sp = m.cpu.regs.sp := alike.reg (r := Register.sp) (by decide)
  rw [Thumb.bottom, Thumb.bottom, sp]

theorem row (list : BitVec 8) (link : Bool) (a : Address) :
    m'.cpu.regs.row a (Thumb.stacked list link) = m.cpu.regs.row a (Thumb.stacked list link) := by
  refine List.map_congr_left fun r mem => ?_
  have other : r ≠ Register.pc := ne_of_mem_of_not_mem mem (Thumb.notMem_stacked (by decide) (by decide) list link)
  rw [show m'.cpu.regs.read r = m.cpu.regs.read r from alike.reg other]

end Machine.SameButCode

/-- The row of a push begins at the new top of the stack and ends below the old one. -/
theorem Thumb.row_ends {list : BitVec 8} {link : Bool} (listed : list ≠ 0 ∨ link = true) (m : Machine σ) :
    let ws := m.cpu.regs.row (bottom list link m) (stacked list link)
    ∃ first last, ws.head? = some (bottom list link m, first) ∧ ws.getLast? = some (m.cpu.regs.sp - 4, last) := by
  have distinct := stacked_nodup list link
  have some := stacked_ne_nil listed
  have length : bottom list link m = m.cpu.regs.sp - BitVec.ofNat 32 (4 * (stacked list link).length) := rfl
  generalize stacked list link = rs at distinct some length ⊢
  obtain ⟨r, rest, first⟩ := List.exists_cons_of_ne_nil some
  obtain ⟨init, s, last⟩ := (List.eq_nil_or_concat rs).resolve_left some
  refine ⟨m.reg r, m.reg s, ?_, ?_⟩
  · subst first
    rw [Registers.row_cons _ _ (List.nodup_cons.mp distinct).1]
    rfl
  · rw [List.concat_eq_append] at last
    subst last
    have fresh : s ∉ init := by grind
    have place : bottom list link m + BitVec.ofNat 32 (4 * init.length) = m.cpu.regs.sp - 4 := by
      rw [length, List.length_append, List.length_singleton, Nat.mul_add, BitVec.ofNat_add]
      bv_omega
    rw [Registers.row_concat _ _ fresh, List.getLast?_concat, place]
    rfl

/-- A push stores the words of its row from the last to the first, and `STMDB sp!` from the first to the last. So
they ask for the same only if they store a single register. The stack pointer ends up the same, and so does memory if
the words have no bytes in common. The time is the same exactly if it costs the same to begin at either end. -/
theorem Thumb.push_reverses_storing (keeps : bus.KeepsRegisters) (list : BitVec 8) (link : Bool)
    (listed : list ≠ 0 ∨ link = true) {m m' : Machine σ} (alike : m.SameButCode m') :
    let ws := m.cpu.regs.row (bottom list link m) (stacked list link)
    ∃ n n' t t',
      execute bus (pushHalfword list link) m = .ok () n ∧
      Arm.execute bus (Arm.storeBelow list link) m' = .ok () n' ∧
      execute bus.recorded (pushHalfword list link) (m.recording []) = .ok () (n.recording t) ∧
      Arm.execute bus.recorded (Arm.storeBelow list link) (m'.recording []) = .ok () (n'.recording t') ∧
      t.map Request.untimed = storeRequests ws.reverse .nonsequential ∧
      t'.map Request.untimed = storeRequests ws .nonsequential ∧
      (t.map Request.untimed = t'.map Request.untimed ↔ (stacked list link).length = 1) ∧
      n.cpu.regs = m.cpu.regs.setSp (bottom list link m) ∧ n'.cpu.regs = m'.cpu.regs.setSp (bottom list link m) ∧
      ∀ {ι : Type} (M : ByteMemory σ ι), M.Behind bus → M.sound m.system →
        (∀ r ∈ stacked list link, ∀ s ∈ stacked list link, r ≠ s →
          M.Apart (stackSlot list link m r) (stackSlot list link m s)) →
        M.byte n.system = M.byte n'.system ∧
        ∀ timing : Width → Address → Access → Nat, (∀ w a k m, (bus.waitTime w a k m).1 = timing w a k) →
          let cost (a : Address) (k : Access) := timing .word a k.asWrite
          (n.cpu.timestamp = n'.cpu.timestamp ↔
            cost (m.cpu.regs.sp - 4) .nonsequential + cost (bottom list link m) .sequel =
              cost (bottom list link m) .nonsequential + cost (m.cpu.regs.sp - 4) .sequel) := by
  intro ws
  have push : execute bus (pushHalfword list link) m = .ok () (bus.stackAll ws.reverse (bottom list link m) m) :=
    (execute_pushHalfword list link m).trans (congrArg _ (push_eq keeps list link m))
  have store : Arm.execute bus (Arm.storeBelow list link) m' = .ok () (bus.stackAll ws (bottom list link m) m') := by
    rw [Arm.storeBelow_eq keeps listed, alike.bottom, alike.row]
  obtain ⟨t, shown, asked⟩ := (execute_seen bus.recorded_shows (pushHalfword list link)).stacks push
    ((execute_pushHalfword list link _).trans (congrArg _ (push_eq keeps.recorded list link _)))
  obtain ⟨t', shown', asked'⟩ := (Arm.execute_seen bus.recorded_shows (Arm.storeBelow list link)).stacks store
    ((Arm.storeBelow_eq keeps.recorded listed _).trans (by rw [alike.recording.bottom, alike.recording.row]; rfl))
  refine ⟨_, _, t, t', push, store, shown, shown', asked, asked', ?_, keeps.stackAll _ _ m, keeps.stackAll _ _ m', ?_⟩
  · have some := List.length_pos_iff.mpr (stacked_ne_nil listed)
    have length : ws.length = (stacked list link).length := List.length_map ..
    rw [asked, asked', storeRequests_reverse (m.cpu.regs.row_distinct _ (stacked_nodup list link)), length]
    omega
  · intro ι M behind sound apart
    have words := m.cpu.regs.row_apart (stacked_nodup list link) apart
    refine ⟨behind.stackAll_reverse words _ alike.system sound, fun timing timed => ?_⟩
    obtain ⟨first, last, head, tail⟩ := row_ends listed m
    rw [behind.stackAll_timestamp timed, behind.stackAll_timestamp timed, alike.timestamp, Nat.add_left_cancel_iff]
    exact storeTime_reverse timing head tail .nonsequential

/-- A machine with two numbers to push, into a memory of 16 bytes. -/
def stacking : Machine FlatMemory where
  cpu := (Processor.powerOn .v4).mapRegs fun f =>
    let f := (f.write (Thumb.register 0 0).wide 17).write (Thumb.register 1 0).wide 34
    (f.setSp 0x200).setFlag .thumb true
  system := { ram := ByteBuffer.zeros 16 }
  journal := #[]

/-- `PUSH {r0, r1}` and `STMDB sp!, {r0, r1}` leave the same words at the same time, where all accesses cost the
same. -/
theorem Thumb.stacking_reverses :
    let bus := FlatMemory.evenBus .v4
    let M := FlatMemory.bytes (2 ^ 4)
    pushHalfword 0b11 false = 0xB403 ∧ Arm.storeBelow 0b11 false = 0xE92D0003 ∧ bus.KeepsRegisters ∧
    stacking.SameButCode (stacking.recode false 0x8008) ∧ M.Behind bus ∧ M.sound stacking.system ∧
    ∃ n n' t t', execute bus 0xB403 stacking = .ok () n ∧
      Arm.execute bus 0xE92D0003 (stacking.recode false 0x8008) = .ok () n' ∧
      execute bus.recorded 0xB403 (stacking.recording []) = .ok () (n.recording t) ∧
      Arm.execute bus.recorded 0xE92D0003 ((stacking.recode false 0x8008).recording []) = .ok () (n'.recording t') ∧
      t.map Request.untimed ≠ t'.map Request.untimed ∧ n.cpu.regs.sp = 0x1F8 ∧ n'.cpu.regs.sp = 0x1F8 ∧
      M.byte n.system = M.byte n'.system ∧ n.cpu.timestamp = n'.cpu.timestamp := by
  intro bus M
  have keeps : bus.KeepsRegisters := FlatMemory.bus_keepsRegisters _ _
  have alike := stacking.recode_sameButCode false 0x8008
  have behind : M.Behind bus := FlatMemory.bytes_behind (by decide) _ _
  have sound : M.sound stacking.system := ByteBuffer.size_zeros 16
  have apart := FlatMemory.stack_apart (k := 4) (by decide) 0b11 false (by decide) stacking
  obtain ⟨n, n', t, t', push, store, shown, shown', -, -, same, regs, regs', outcome⟩ :=
    Thumb.push_reverses_storing keeps 0b11 false (.inl (by decide)) alike
  obtain ⟨memory, time⟩ := outcome M behind sound apart
  refine ⟨by decide, by decide, keeps, alike, behind, sound, n, n', t, t', push, store, shown, shown', ?_, ?_, ?_,
    memory, (time (fun _ _ _ => 1) fun _ _ _ _ => rfl).mpr rfl⟩
  · exact fun alike => absurd (same.mp alike) (by decide)
  · rw [regs, Registers.sp_setSp]
    decide
  · rw [regs', Registers.sp_setSp]
    decide

/-- The push stores r1 first, and then r0 below it, which it announces as an access in sequence. -/
theorem Thumb.stacking_descends :
    let bus := FlatMemory.evenBus .v4
    let pushed := ((execute bus.recorded 0xB403).final (stacking.recording [])).system.2
    let stored := ((Arm.execute bus.recorded 0xE92D0003).final ((stacking.recode false 0x8008).recording [])).system.2
    stacking.SameButCode (stacking.recode false 0x8008) ∧
    pushed = [
      .wait .word 0x1FC Access.nonsequential.asWrite 1, .set .word 0x1FC 34,
      .wait .word 0x1F8 Access.sequel.asWrite 1, .set .word 0x1F8 17] ∧
    stored = [
      .wait .word 0x1F8 Access.nonsequential.asWrite 1, .set .word 0x1F8 17,
      .wait .word 0x1FC Access.sequel.asWrite 1, .set .word 0x1FC 34] ∧
    pushed ≠ stored := by
  intro bus pushed stored
  have down : pushed = [
      .wait .word 0x1FC Access.nonsequential.asWrite 1, .set .word 0x1FC 34,
      .wait .word 0x1F8 Access.sequel.asWrite 1, .set .word 0x1F8 17] := by decide +kernel
  have up : stored = [
      .wait .word 0x1F8 Access.nonsequential.asWrite 1, .set .word 0x1F8 17,
      .wait .word 0x1FC Access.sequel.asWrite 1, .set .word 0x1FC 34] := by decide +kernel
  refine ⟨stacking.recode_sameButCode false 0x8008, down, up, ?_⟩
  rw [down, up]
  decide

end Lockstep
