import Lockstep.Proofs.Console.Derived

/-!
The words that the console has itself, written lane by lane. A write of a lane changes what the bytes of the
lane control and nothing else, so that a word may as well be written in parts, in any order. A read of a lane
is that lane of a read of the word.
-/

namespace Lockstep.Console

structure Lane where
  width : Width
  /-- The first of its bytes. -/
  first : Nat
  aligned : width.bytes ∣ first
  inside : first < 4

namespace Lane

def whole : Lane := ⟨.word, 0, by decide, by decide⟩

def byte (k : Fin 4) : Lane := ⟨.byte, k, Nat.one_dvd k, k.isLt⟩

variable (l : Lane)

def touches (k : Nat) : Bool := l.first ≤ k ∧ k < l.first + l.width.bytes

def address (base : Address) : Address := base + BitVec.ofNat 32 l.first

def part (v : Word) : Word := l.width.truncate (v >>> (8 * l.first))

theorem wordOf_address {base : Address} (h : 4 ∣ base.toNat) : wordOf (l.address base) = base := by
  have inside := l.inside
  have next : (base + BitVec.ofNat 32 l.first).toNat = base.toNat + l.first := toNat_add_of_lt (by omega)
  apply BitVec.eq_of_toNat_eq
  have rounded := Width.word.toNat_align (l.address base)
  rw [address, next, Width.bytes] at rounded
  exact rounded.trans (by omega)

theorem shift_address {base : Address} (h : 4 ∣ base.toNat) : shift (l.address base) = 8 * l.first := by
  have inside := l.inside
  have next : (base + BitVec.ofNat 32 l.first).toNat = base.toNat + l.first := toNat_add_of_lt (by omega)
  rw [shift, address, next]
  omega

end Lane

theorem getLsbD_truncate (w : Width) (x : Word) (i : Nat) :
    (w.truncate x).getLsbD i = (decide (i < 8 * w.bytes) && x.getLsbD i) := by
  by_cases h : i < 32
  · cases w <;> simp only [Width.truncate, Width.bytes, BitVec.getLsbD_setWidth, h, decide_true, Bool.true_and]
    all_goals rfl
  · rw [BitVec.getLsbD_of_ge _ _ (Nat.le_of_not_lt h), BitVec.getLsbD_of_ge _ _ (Nat.le_of_not_lt h), Bool.and_false]

namespace Lane

variable (l : Lane)

theorem touches_bit (i : Nat) :
    l.touches (i / 8) = (decide (8 * l.first ≤ i) && decide (i - 8 * l.first < 8 * l.width.bytes)) := by
  rw [touches, ← Bool.decide_and, decide_eq_decide]
  omega

/-- The mask of a lane selects the bits of the bytes in it. -/
theorem getLsbD_mask {base : Address} (h : 4 ∣ base.toNat) {i : Nat} (hi : i < 32) :
    (mask l.width (l.address base)).getLsbD i = l.touches (i / 8) := by
  have inside : i - 8 * l.first < 32 := by omega
  rw [mask, l.shift_address h, BitVec.getLsbD_shiftLeft, getLsbD_truncate, BitVec.getLsbD_allOnes, touches_bit]
  simp only [hi, inside, decide_true, Bool.true_and, Bool.and_true, ← Nat.not_lt, decide_not]

/-- An access of the lane puts the bits of its bytes back to where they were in the word. -/
theorem getLsbD_part {v : Word} {base : Address} (h : 4 ∣ base.toNat) {i : Nat} (hi : i < 32) :
    (l.part v <<< shift (l.address base)).getLsbD i = (l.touches (i / 8) && v.getLsbD i) := by
  rw [l.shift_address h, part, BitVec.getLsbD_shiftLeft, getLsbD_truncate, BitVec.getLsbD_ushiftRight, touches_bit]
  by_cases above : 8 * l.first ≤ i
  · have back : 8 * l.first + (i - 8 * l.first) = i := by omega
    simp only [hi, above, back, decide_true, Bool.true_and, Nat.not_lt.mpr above, decide_false, Bool.not_false]
  · simp only [Nat.not_le.mp above, above, decide_true, decide_false, Bool.not_true, Bool.false_and, Bool.and_false]

end Lane

namespace Waitstates

theorem ext_get {t t' : Waitstates} (h : ∀ id i, (t.regions id).get i = (t'.regions id).get i) : t = t' := by
  have same (id : ProcessorId) : t.regions id = t'.regions id := Vector.ext fun i hi => h id ⟨i, hi⟩
  obtain ⟨arm7, arm9⟩ := t
  exact congrArg₂ Waitstates.mk (same .arm7) (same .arm9)

/-- Only the control that was applied last matters. -/
theorem applyExternal_twice (t : Waitstates) (c c' : ExternalMemory) :
    (t.applyExternal c).applyExternal c' = t.applyExternal c' := by
  refine ext_get fun id i => ?_
  simp only [get_applyExternal]
  split_ifs <;> rfl

/-- Only the lowest byte of the control matters to the times. -/
theorem timesUnder_congr {c c' : ExternalMemory} (same : ∀ i < 8, c'.getLsbD i = c.getLsbD i) (i : Fin 16) :
    timesUnder c' i = timesUnder c i := by
  have field (first n : Nat) (inside : first + n ≤ 8) : c'.extractLsb' first n = c.extractLsb' first n := by
    refine BitVec.eq_of_getLsbD_eq fun i hi => ?_
    rw [BitVec.getLsbD_extractLsb', BitVec.getLsbD_extractLsb', same (first + i) (by omega)]
  simp only [timesUnder, ExternalMemory.romTimes, ExternalMemory.sramTimes, ExternalMemory.romFirstTime,
    ExternalMemory.romSecondTime, ExternalMemory.sramTime, field 0 2 (by decide), field 2 2 (by decide),
    field 4 1 (by decide)]

theorem Follows.applyExternal_eq {t : Waitstates} {c c' : ExternalMemory} (h : t.Follows c)
    (same : ∀ i < 8, c'.getLsbD i = c.getLsbD i) : t.applyExternal c' = t :=
  ext_get fun id i => by rw [applyExternal_follows h c' id i, h id i, timesUnder_congr same]

end Waitstates

theorem Each.ext_get {α : Type} {e e' : Each α} (h : ∀ id, e.get id = e'.get id) : e = e' := by
  obtain ⟨arm7, arm9⟩ := e
  exact congrArg₂ Each.mk (h .arm7) (h .arm9)

variable {δ : Type}

namespace Node

/-- What has become of a console when a processor has written some bytes of one of its words, with what `v` has
there. The written bits of the external memory control and of the interrupt enables take the value, except
that the ARM7 has only the lowest seven bits of the former. A one takes back an interrupt request. The lowest
bit of a boot flag can only be set, and only the ARM9 has the next one. The ARM7 halts when the two highest
bits beside its boot flag are written with a two. -/
structure Written (id : ProcessorId) (r : CoreWord) (touched : Nat → Bool) (v : Word) (m m' : Node δ) : Prop where
  externalMemory : ∀ i < 16, m'.system.externalMemory.getLsbD i =
    if r = .externalMemory ∧ touched (i / 8) ∧ (id = .arm9 ∨ i < 7) then v.getLsbD i
    else m.system.externalMemory.getLsbD i
  waitstates : m'.system.waitstates =
    if r = .externalMemory ∧ ∃ k : Fin 4, touched k then
      m.system.waitstates.applyExternal m'.system.externalMemory
    else m.system.waitstates
  master : m'.cpu.interrupts.master =
    if r = .masterEnable ∧ touched 0 then v.getLsbD 0 else m.cpu.interrupts.master
  enabled : ∀ i < 32, m'.cpu.interrupts.enabled.getLsbD i =
    if r = .enabled ∧ touched (i / 8) then v.getLsbD i else m.cpu.interrupts.enabled.getLsbD i
  requested : ∀ i < 32, m'.cpu.interrupts.requested.getLsbD i =
    if r = .requested ∧ touched (i / 8) ∧ v.getLsbD i then false else m.cpu.interrupts.requested.getLsbD i
  bootFlag : ∀ i < 8, (m'.system.bootFlags.get id).getLsbD i =
    if r = .bootFlag ∧ touched 0 ∧ (i = 0 ∧ v.getLsbD 0 ∨ i = 1 ∧ id = .arm9) then v.getLsbD i
    else (m.system.bootFlags.get id).getLsbD i
  halted : m'.cpu.halted =
    if r = .bootFlag ∧ touched 1 ∧ id = .arm7 ∧ v.extractLsb' 14 2 = 0b10 then true else m.cpu.halted
  /-- The other processor has a boot flag of its own. -/
  otherFlag : ∀ id' ≠ id, m'.system.bootFlags.get id' = m.system.bootFlags.get id'
  /-- All else is as it was. -/
  cpu : m'.cpu = { m.cpu with interrupts := m'.cpu.interrupts, halted := m'.cpu.halted }
  system : m'.system = { m.system with
    externalMemory := m'.system.externalMemory
    waitstates := m'.system.waitstates
    bootFlags := m'.system.bootFlags }

namespace Written

variable {id : ProcessorId} {r : CoreWord} {t t' : Nat → Bool} {v : Word} {m m₁ m₂ m' : Node δ}

theorem refl (id : ProcessorId) (r : CoreWord) (v : Word) (m : Node δ) : Written id r (fun _ => false) v m m := by
  constructor
  all_goals simp

theorem trans (h : Written id r t v m m₁) (h' : Written id r t' v m₁ m') :
    Written id r (fun k => t k || t' k) v m m' := by
  constructor
  · intro i hi
    rw [h'.externalMemory i hi, h.externalMemory i hi]
    grind
  · have both : (∃ k : Fin 4, (t k || t' k) = true) ↔ (∃ k : Fin 4, t k = true) ∨ ∃ k : Fin 4, t' k = true := by
      simp only [Bool.or_eq_true, exists_or]
    have kept (none : ¬ ∃ k : Fin 4, t' k = true) : m'.system.externalMemory = m₁.system.externalMemory := by
      refine BitVec.eq_of_getLsbD_eq fun i hi => ?_
      rw [h'.externalMemory i hi, if_neg fun written => none ⟨⟨i / 8, by omega⟩, written.2.1⟩]
    rw [h'.waitstates, h.waitstates]
    by_cases here : r = .externalMemory
    · by_cases second : ∃ k : Fin 4, t' k = true
      · simp only [both, here, second, or_true, and_true, if_true, true_and]
        split_ifs
        · exact Waitstates.applyExternal_twice ..
        · rfl
      · simp only [both, second, or_false, and_false, if_false]
        rw [kept second]
    · simp only [here, false_and, if_false]
  · rw [h'.master, h.master]
    grind
  · intro i hi
    rw [h'.enabled i hi, h.enabled i hi]
    grind
  · intro i hi
    rw [h'.requested i hi, h.requested i hi]
    grind
  · intro i hi
    rw [h'.bootFlag i hi, h.bootFlag i hi]
    grind
  · rw [h'.halted, h.halted]
    grind
  · exact fun other ne => (h'.otherFlag other ne).trans (h.otherFlag other ne)
  · rw [h'.cpu, h.cpu]
  · rw [h'.system, h.system]

theorem congr (h : Written id r t v m m') (same : ∀ k < 4, t k = t' k) : Written id r t' v m m' := by
  have any : (∃ k : Fin 4, t k = true) ↔ ∃ k : Fin 4, t' k = true :=
    exists_congr fun k => by rw [same k k.isLt]
  have bit : ∀ i < 32, t (i / 8) = t' (i / 8) := fun i hi => same _ (by omega)
  constructor
  · intro i hi
    rw [h.externalMemory i hi, bit i (by omega)]
  · simp only [h.waitstates, any]
  · rw [h.master, same 0 (by decide)]
  · intro i hi
    rw [h.enabled i hi, bit i hi]
  · intro i hi
    rw [h.requested i hi, bit i hi]
  · intro i hi
    rw [h.bootFlag i hi, same 0 (by decide)]
  · rw [h.halted, same 1 (by decide)]
  · exact h.otherFlag
  · exact h.cpu
  · exact h.system

/-- There is one way to be written. -/
theorem unique (h : Written id r t v m m₁) (h' : Written id r t v m m₂) :
    m₁.cpu = m₂.cpu ∧ m₁.system = m₂.system := by
  have externalMemory : m₁.system.externalMemory = m₂.system.externalMemory :=
    BitVec.eq_of_getLsbD_eq fun i hi => (h.externalMemory i hi).trans (h'.externalMemory i hi).symm
  have waitstates : m₁.system.waitstates = m₂.system.waitstates := by
    rw [h.waitstates, h'.waitstates, externalMemory]
  have interrupts : m₁.cpu.interrupts = m₂.cpu.interrupts := by
    have master := h.master.trans h'.master.symm
    have enabled : m₁.cpu.interrupts.enabled = m₂.cpu.interrupts.enabled :=
      BitVec.eq_of_getLsbD_eq fun i hi => (h.enabled i hi).trans (h'.enabled i hi).symm
    have requested : m₁.cpu.interrupts.requested = m₂.cpu.interrupts.requested :=
      BitVec.eq_of_getLsbD_eq fun i hi => (h.requested i hi).trans (h'.requested i hi).symm
    revert master enabled requested
    cases m₁.cpu.interrupts
    cases m₂.cpu.interrupts
    rintro rfl rfl rfl
    rfl
  have bootFlags (id' : ProcessorId) : m₁.system.bootFlags.get id' = m₂.system.bootFlags.get id' := by
    by_cases own : id' = id
    · rw [own]
      exact BitVec.eq_of_getLsbD_eq fun i hi => (h.bootFlag i hi).trans (h'.bootFlag i hi).symm
    · exact (h.otherFlag id' own).trans (h'.otherFlag id' own).symm
  constructor
  · rw [h.cpu, h'.cpu, interrupts, h.halted.trans h'.halted.symm]
  · rw [h.system, h'.system, externalMemory, waitstates, Each.ext_get bootFlags]

/-- While none of the lowest byte of the external memory control is written, the times stay. -/
theorem waitstates_eq (h : Written id r t v m m')
    (untouched : t 0 = false) (follows : m.system.waitstates.Follows m.system.externalMemory) :
    m'.system.waitstates = m.system.waitstates := by
  have same (i : Nat) (hi : i < 8) : m'.system.externalMemory.getLsbD i = m.system.externalMemory.getLsbD i := by
    rw [h.externalMemory i (by omega), Nat.div_eq_of_lt hi, untouched]
    simp
  rw [h.waitstates]
  split_ifs
  · exact follows.applyExternal_eq same
  · rfl

end Written

end Node

def Masks (t : Nat → Bool) (mask : Word) : Prop := ∀ i < 32, mask.getLsbD i = t (i / 8)

theorem Masks.byte {t : Nat → Bool} {mask : Word} (h : Masks t mask) {k : Nat} (hk : k < 4) :
    mask &&& Width.byte.truncate (BitVec.allOnes 32) <<< (8 * k) ≠ 0 ↔ t k = true := by
  have bit (i : Nat) (hi : i < 32) : (mask &&& Width.byte.truncate (BitVec.allOnes 32) <<< (8 * k)).getLsbD i =
      (t k && decide (i / 8 = k)) := by
    rw [BitVec.getLsbD_and, h i hi, BitVec.getLsbD_shiftLeft, getLsbD_truncate, BitVec.getLsbD_allOnes, Width.bytes]
    by_cases here : i / 8 = k
    · have lower : ¬ i < 8 * k := by omega
      have upper : i - 8 * k < 8 * 1 := by omega
      have inside : i - 8 * k < 32 := by omega
      simp only [here, hi, lower, upper, inside, decide_true, decide_false, Bool.not_false, Bool.and_true]
    · have outside : i < 8 * k ∨ ¬ i - 8 * k < 8 * 1 := by omega
      rcases outside with lower | upper
      · simp only [here, lower, decide_true, decide_false, Bool.not_true, Bool.false_and, Bool.and_false]
      · simp only [here, upper, decide_false, Bool.false_and, Bool.and_false]
  constructor
  · intro some
    by_contra none
    refine some (BitVec.eq_of_getLsbD_eq fun i hi => ?_)
    rw [bit i hi, Bool.eq_false_iff.mpr none, Bool.false_and]
    exact BitVec.getLsbD_zero.symm
  · intro covered none
    have one := bit (8 * k) (by omega)
    have here : 8 * k / 8 = k := by omega
    rw [none, covered, here, decide_eq_true rfl] at one
    cases BitVec.getLsbD_zero.symm.trans one

theorem getLsbD_blend {w : Nat} (mask old new : BitVec w) {i : Nat} (hi : i < w) :
    (blend mask old new).getLsbD i = if mask.getLsbD i then new.getLsbD i else old.getLsbD i := by
  rw [blend, BitVec.getLsbD_or, BitVec.getLsbD_and, BitVec.getLsbD_and, BitVec.getLsbD_not]
  cases mask.getLsbD i <;> simp [hi]

namespace Node

theorem getLsbD_externalMask (id : ProcessorId) {i : Nat} (hi : i < 16) :
    (externalMask id).getLsbD i = decide (id = .arm9 ∨ i < 7) := by
  have all : ∀ i : Fin 16, (externalMask id).getLsbD i = decide (id = .arm9 ∨ i.val < 7) := by
    cases id <;> decide
  exact all ⟨i, hi⟩

theorem getLsbD_bootFlag (id : ProcessorId) (old new : BitVec 8) {i : Nat} (hi : i < 8) :
    (bootFlag id old new).getLsbD i =
      if i = 0 ∧ new.getLsbD 0 ∨ i = 1 ∧ id = .arm9 then new.getLsbD i else old.getLsbD i := by
  have one : ∀ i : Fin 8, (1 : BitVec 8).getLsbD i = decide (i.val = 0) := by decide
  have two : ∀ i : Fin 8, (2 : BitVec 8).getLsbD i = decide (i.val = 1) := by decide
  have flag : (old ||| (new &&& 1)).getLsbD i = if i = 0 ∧ new.getLsbD 0 then new.getLsbD i else old.getLsbD i := by
    rw [BitVec.getLsbD_or, BitVec.getLsbD_and, one ⟨i, hi⟩]
    by_cases lowest : i = 0
    · subst lowest
      cases new.getLsbD 0 <;> simp
    · simp [lowest]
  cases id with
  | arm7 =>
    simp only [reduceCtorEq, and_false, or_false]
    exact flag
  | arm9 =>
    show (blend 2 (old ||| (new &&& 1)) new).getLsbD i = _
    rw [getLsbD_blend _ _ _ hi, two ⟨i, hi⟩, flag]
    by_cases second : i = 1 <;> simp [second]

theorem setPower_cpu (v : BitVec 8) (m : Node δ) :
    (setPower v m).cpu = { m.cpu with halted := if v.extractLsb' 6 2 = 0b10 then true else m.cpu.halted } := by
  have mode : v.extractLsb' 6 2 = 0b10 ↔ (v >>> 6).toNat = 2 := by
    rw [← BitVec.toNat_inj]
    simp only [BitVec.extractLsb'_toNat, BitVec.toNat_ushiftRight, BitVec.ofNat_eq_ofNat, BitVec.toNat_ofNat]
    omega
  unfold setPower
  split
  · next none => simp only [mode, none, OfNat.zero_ne_ofNat, if_false]
  · next halt => simp only [mode, halt, if_true, Machine.mapCpu, Processor.halt]
  · next other => simp only [mode, if_neg other, Machine.note]

/-- The lowest byte of the last word is the boot flag. -/
theorem bootFlag_written (id : ProcessorId) {t : Nat → Bool} {v x : Word} (m : Node δ) {b : Bool} (own : t 0 = b)
    (only : t 1 = false) (same : b = true → ∀ i < 8, x.getLsbD i = v.getLsbD i) :
    Written id .bootFlag t v m (if b then { m with system := { m.system with
      bootFlags := m.system.bootFlags.set id (bootFlag id (m.system.bootFlags.get id) (x.setWidth 8)) } } else m) := by
  split_ifs with flag
  · have placed (flag : BitVec 8) : (m.system.bootFlags.set id flag).get id = flag := by cases id <;> rfl
    constructor
    case bootFlag =>
      intro i hi
      have bit (i : Nat) (hi : i < 8) : (x.setWidth 8).getLsbD i = v.getLsbD i := by
        rw [BitVec.getLsbD_setWidth, decide_eq_true hi, Bool.true_and, same flag i hi]
      rw [placed, getLsbD_bootFlag _ _ _ hi, bit i hi, bit 0 (by decide)]
      simp only [own, flag, true_and]
    case otherFlag =>
      intro other ne
      cases id <;> cases other <;> first | rfl | exact absurd rfl ne
    all_goals simp [only]
  · constructor
    all_goals simp [own, only, flag]

/-- The byte above it is the power control of the ARM7. -/
theorem setPower_written (id : ProcessorId) {t : Nat → Bool} {v x : Word} (m : Node δ) {b : Bool} (own : t 1 = b)
    (only : t 0 = false) (same : b = true → ∀ i < 32, i / 8 = 1 → x.getLsbD i = v.getLsbD i) :
    Written id .bootFlag t v m (if b ∧ id = .arm7 then setPower (x.extractLsb' 8 8) m else m) := by
  split_ifs with power
  · obtain ⟨power, rfl⟩ := power
    have mode : (x.extractLsb' 8 8).extractLsb' 6 2 = v.extractLsb' 14 2 := by
      refine BitVec.eq_of_getLsbD_eq fun i hi => ?_
      have inside : 6 + i < 8 := by omega
      have back : 8 + (6 + i) = 14 + i := by omega
      simp only [BitVec.getLsbD_extractLsb', hi, inside, decide_true, Bool.true_and, back]
      exact same power (14 + i) (by omega) (by omega)
    have cpu := setPower_cpu (x.extractLsb' 8 8) m
    have system : (setPower (x.extractLsb' 8 8) m).system = m.system := (setPower_spares _ m).2.2.2
    rw [mode] at cpu
    constructor
    all_goals simp [cpu, system, own, only, power]
  · constructor
    case halted => grind
    all_goals simp [only]

/-- Under a mask of whole bytes, those bytes are written. -/
theorem writeCore_written (id : ProcessorId) (r : CoreWord) {t : Nat → Bool} {v x mask : Word} (m : Node δ)
    (some : ∃ k : Fin 4, t k = true) (masks : Masks t mask)
    (same : ∀ i < 32, t (i / 8) = true → x.getLsbD i = v.getLsbD i) :
    Written id r t v m (writeCore id r x mask m) := by
  have blended (old : Word) (i : Nat) (hi : i < 32) :
      (blend mask old x).getLsbD i = if t (i / 8) then v.getLsbD i else old.getLsbD i := by
    rw [getLsbD_blend _ _ _ hi, masks i hi]
    split_ifs with touched
    · exact same i hi touched
    · rfl
  cases r with
  | externalMemory =>
    constructor
    case externalMemory =>
      intro i hi
      have wide : (mask.setWidth 16 &&& externalMask id).getLsbD i = (t (i / 8) && decide (id = .arm9 ∨ i < 7)) := by
        rw [BitVec.getLsbD_and, BitVec.getLsbD_setWidth, decide_eq_true hi, Bool.true_and, masks i (by omega),
          getLsbD_externalMask id hi]
      show (blend _ _ _).getLsbD i = _
      rw [getLsbD_blend _ _ _ hi, wide, BitVec.getLsbD_setWidth, decide_eq_true hi, Bool.true_and]
      simp only [Bool.and_eq_true, decide_eq_true_eq, true_and]
      split_ifs with touched
      · exact same i (by omega) touched.1
      · rfl
    all_goals simp [writeCore, some]
  | masterEnable =>
    have lowest := masks 0 (by decide)
    unfold writeCore
    simp only [lowest]
    split_ifs with touched
    · constructor
      case master =>
        simp [Machine.mapCpu, touched]
        exact same 0 (by decide) touched
      all_goals simp [Machine.mapCpu]
    · constructor
      all_goals simp [touched]
  | enabled =>
    constructor
    case enabled =>
      intro i hi
      simp only [writeCore, Machine.mapCpu, blended _ i hi, true_and]
    all_goals simp [Machine.mapCpu, writeCore]
  | requested =>
    constructor
    case requested =>
      intro i hi
      simp only [writeCore, Machine.mapCpu, Interrupts.acknowledge, true_and, BitVec.getLsbD_and,
        BitVec.getLsbD_not, hi, decide_true, Bool.true_and, masks i hi]
      cases touched : t (i / 8) with
      | false => simp
      | true =>
        rw [same i hi touched]
        cases v.getLsbD i <;> simp
    all_goals simp [Machine.mapCpu, writeCore, Interrupts.acknowledge]
  | bootFlag =>
    have flag : mask &&& 0xFF ≠ 0 ↔ t 0 = true := masks.byte (k := 0) (by decide)
    have power : mask &&& 0xFF00 ≠ 0 ↔ t 1 = true := masks.byte (k := 1) (by decide)
    have split : ∀ k < 4, (t k && decide (k = 0) || t k && decide (k ≠ 0)) = t k := by
      intro k _
      by_cases lowest : k = 0 <;> simp [lowest]
    unfold writeCore
    simp only [flag, power]
    have lowest : Written id .bootFlag (fun k => t k && decide (k = 0)) v m _ :=
      bootFlag_written id m (b := t 0) (by simp) (by simp) fun touched i hi =>
        same i (by omega) (by rwa [Nat.div_eq_of_lt hi])
    refine (lowest.trans (setPower_written id _ (b := t 1) (by simp) (by simp) ?_)).congr split
    exact fun touched i hi second => same i hi (by rwa [second])

end Node

namespace CoreWord

def address : CoreWord → Address
  | .externalMemory => 0x04000204
  | .masterEnable => 0x04000208
  | .enabled => 0x04000210
  | .requested => 0x04000214
  | .bootFlag => 0x04000300

theorem ofAddress?_address (r : CoreWord) : ofAddress? r.address = some r := by cases r <;> rfl

theorem address_aligned (r : CoreWord) : 4 ∣ r.address.toNat := by cases r <;> decide

end CoreWord

namespace Lane

theorem touches_first (l : Lane) : l.touches l.first = true := by
  have bytes : 0 < l.width.bytes := by cases l.width <;> decide
  simp [touches, bytes]

theorem whole_touches (k : Fin 4) : whole.touches k = true := by revert k; decide

theorem whole_part (v : Word) : whole.part v = v := BitVec.ushiftRight_zero v

theorem whole_address (base : Address) : whole.address base = base := BitVec.add_zero base

end Lane

namespace Node

variable (devices : Devices δ) (id : ProcessorId) (r : CoreWord)

def writeLane (v : Word) (m : Node δ) (l : Lane) : Node δ :=
  writeIo devices id l.width (l.address r.address) (l.part v) m

def writeLanes (v : Word) (lanes : List Lane) (m : Node δ) : Node δ :=
  lanes.foldl (writeLane devices id r v) m

theorem writeLane_written (v : Word) (m : Node δ) (l : Lane) :
    Written id r l.touches v m (writeLane devices id r v m l) := by
  have aligned := r.address_aligned
  unfold writeLane writeIo
  rw [l.wordOf_address aligned]
  simp only [CoreWord.ofAddress?_address]
  refine writeCore_written id r m ⟨⟨l.first, l.inside⟩, l.touches_first⟩ (fun i hi => l.getLsbD_mask aligned hi) ?_
  intro i hi touched
  rw [l.getLsbD_part aligned hi, touched, Bool.true_and]

theorem writeLanes_written (v : Word) (lanes : List Lane) (m : Node δ) :
    Written id r (fun k => lanes.any (·.touches k)) v m (writeLanes devices id r v lanes m) := by
  induction lanes generalizing m with
  | nil => exact .refl id r v m
  | cons l lanes ih => exact (writeLane_written devices id r v m l).trans (ih _)

theorem writeIo_whole (v : Word) (m : Node δ) :
    writeIo devices id .word r.address v m = writeLanes devices id r v [.whole] m := by
  rw [writeLanes, List.foldl_cons, List.foldl_nil, writeLane, Lane.whole_part, Lane.whole_address]
  rfl

theorem readIo_lane (l : Lane) (m : Node δ) :
    readIo devices id l.width (l.address r.address) m =
      (l.width.truncate (readCore id r m >>> (8 * l.first)), m) := by
  have aligned := r.address_aligned
  unfold readIo
  rw [l.wordOf_address aligned, l.shift_address aligned]
  simp only [CoreWord.ofAddress?_address]

end Node

/-- The words that the console has itself take writes in parts as well as writes of the whole: lanes that
cover a word leave everything just as one write of the word does, whichever they are, in any order, and even if
they overlap. The lanes that were written decide what changes, and the times of slot 2 stay where they
follow the external memory control, as they do in every console that was operated, unless its lowest byte is
written. A read of a lane is that lane of a read of the word. -/
theorem lanes_of_core_words (devices : Devices δ) (id : ProcessorId) (r : CoreWord) (v : Word) (m : Node δ) :
    let word := Node.writeIo devices id .word r.address v m
    (∀ lanes : List Lane, (∀ k : Fin 4, lanes.any (·.touches k) = true) →
      (Node.writeLanes devices id r v lanes m).cpu = word.cpu ∧
      (Node.writeLanes devices id r v lanes m).system = word.system) ∧
    (∀ lanes : List Lane,
      Node.Written id r (fun k => lanes.any (·.touches k)) v m (Node.writeLanes devices id r v lanes m)) ∧
    (m.system.waitstates.Follows m.system.externalMemory → ∀ lanes : List Lane, lanes.any (·.touches 0) = false →
      (Node.writeLanes devices id r v lanes m).system.waitstates = m.system.waitstates) ∧
    ∀ l : Lane, Node.readIo devices id l.width (l.address r.address) m =
      (l.width.truncate ((Node.readIo devices id .word r.address m).1 >>> (8 * l.first)), m) := by
  intro word
  have written (lanes : List Lane) := Node.writeLanes_written devices id r v lanes m
  refine ⟨fun lanes covered => ?_, written, fun follows lanes untouched => ?_, fun l => ?_⟩
  · have all : Node.Written id r (fun k => lanes.any (·.touches k)) v m word := by
      rw [show word = _ from Node.writeIo_whole devices id r v m]
      refine (written [.whole]).congr fun k hk => ?_
      rw [covered ⟨k, hk⟩]
      simp [Lane.whole_touches ⟨k, hk⟩]
    exact (written lanes).unique all
  · exact (written lanes).waitstates_eq untouched follows
  · have whole := Node.readIo_lane devices id r .whole m
    rw [Lane.whole_address] at whole
    rw [Node.readIo_lane, show Node.readIo devices id .word r.address m = (Node.readCore id r m, m) from whole]

/-- An ARM7 of which all interrupts are requested. -/
def beset : Node Unit := ⟨(Processor.powerOn .v4).requestInterrupts (BitVec.allOnes 32), .powerOn {} (), #[]⟩

/-- It takes some back by the upper halfword and then by the bytes from the top, as it would by the word; only
the second byte would take back only four, and the times stay as they are. -/
theorem beset_acknowledges :
    let backwards := [⟨.half, 2, by decide, by decide⟩, .byte 1, .byte 0]
    (∀ k : Fin 4, backwards.any (·.touches k) = true) ∧
      (Node.writeLanes .none .arm7 .requested 0x00FF0F01 backwards beset).cpu.interrupts.requested = 0xFF00F0FE ∧
      [Lane.byte 1].any (·.touches 0) = false ∧
      (Node.writeLanes .none .arm7 .requested 0x00FF0F01 [.byte 1] beset).cpu.interrupts.requested.getLsbD 8 = false ∧
      (Node.writeLanes .none .arm7 .requested 0x00FF0F01 [.byte 1] beset).system.waitstates = .initial := by
  obtain ⟨same, written, stay, -⟩ := lanes_of_core_words .none .arm7 .requested 0x00FF0F01 beset
  have covered : ∀ k : Fin 4,
      [⟨.half, 2, by decide, by decide⟩, .byte 1, .byte 0].any (fun l : Lane => l.touches k) = true := by decide
  refine ⟨covered, ?_, rfl, ?_, stay Waitstates.initial_follows [.byte 1] rfl⟩
  · rw [(same _ covered).1]
    decide +kernel
  · rw [(written [.byte 1]).requested 8 (by decide)]
    rfl

end Lockstep.Console
