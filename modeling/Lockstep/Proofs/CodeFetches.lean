import Lockstep.Proofs.Computations
import Lockstep.Proofs.StepCosts

/-!
Fetches of code. As long as its steps only compute, a processor waits for nothing but its code: from a jump on, for each
address once and in order.
-/

namespace Lockstep

variable {σ : Type} {bus : Bus σ} (m : Machine (σ × Transcript))

namespace Exec

def next (bus : Bus σ) (m : Machine σ) : Meaning :=
  bus.meaning (fetched bus m).2.cpu.regs m.cpu.isThumb (fetched bus m).1

/-- A step that only computes: its instruction executes and no interrupt comes after it, it neither writes the program
counter nor accesses data nor takes internal cycles, and if it is a software interrupt, the system carries it out
without touching the pipeline. -/
structure Computes (bus : Bus σ) (m m' : Machine σ) : Prop where
  awake : m.cpu.halted = false
  done : instruction bus m = .ok () m'
  uninterrupted : m'.cpu.halted = true ∨ m'.cpu.serviceable = false
  counter : (next bus m).writesCounter bus.isV5 (fetched bus m).2.cpu.regs = false
  data : (next bus m).accessesData bus.isV5 = false
  cycles : nextCycles bus m = 0
  call : ∀ n, nextCall bus m = some n →
    ∃ m₁, bus.softwareCall n (fetched bus m).2 = .ok true m₁ ∧ (fetched bus m).2.SamePipeline m₁

theorem step_of_instruction {m m' : Machine σ} (awake : m.cpu.halted = false) (done : instruction bus m = .ok () m')
    (uninterrupted : m'.cpu.halted = true ∨ m'.cpu.serviceable = false) : step bus m = .ok () m' := by
  have settled : settle bus m' = m' := by
    rcases uninterrupted with halted | calm
    · exact if_pos halted
    · exact settle_of_unserviceable bus m' calm
  rw [step_eq, work_eq, awake, if_neg Bool.false_ne_true, done]
  exact congrArg (EStateM.Result.ok ()) settled

/-- A word that computes. -/
theorem execute_lingers (h : bus.SparesPipeline) {thumb : Bool} {inst : Word} {m' : Machine (σ × Transcript)}
    (counter : (bus.meaning m.cpu.regs thumb inst).writesCounter bus.isV5 m.cpu.regs = false)
    (data : (bus.meaning m.cpu.regs thumb inst).accessesData bus.isV5 = false)
    (cycles : bus.cyclesIn m.cpu.regs thumb inst = 0)
    (call : ∀ n, bus.callIn m.cpu.regs thumb inst = some n →
      ∃ m₁, bus.softwareCall n (m.seen Prod.fst) = .ok true m₁ ∧ (m.seen Prod.fst).SamePipeline m₁)
    (run : execute bus.recorded thumb inst m = .ok () m') :
    m.Lingers (if (bus.meaning m.cpu.regs thumb inst).storesNone then .nonsequential else m.cpu.fetchKind) m' := by
  unfold Bus.meaning at counter data ⊢
  unfold Bus.cyclesIn at cycles
  unfold Bus.callIn at call
  unfold execute at run
  cases thumb with
  | true =>
    simp only [if_true] at counter data cycles call run ⊢
    refine Thumb.perform_lingers m _ counter data cycles (fun n decoded => call n ?_) run
    rw [decoded]
  | false =>
    rw [if_neg Bool.false_ne_true, Arm.execute_eq, ← bus.recorded_shows.isV5] at run
    simp only [Bool.false_eq_true, if_false] at counter data cycles call ⊢
    by_cases executed : Arm.executes bus.isV5 m.cpu.regs inst = true
    · simp only [executed, if_true] at counter data cycles call run ⊢
      refine Arm.perform_lingers m h inst counter data cycles (fun c decoded => call _ ?_) run
      rw [decoded]
    · simp only [executed] at run ⊢
      cases run
      exact .refl m

/-- From one machine to another one instruction was fetched and no other time has passed; the next fetch will be of that
kind. -/
structure Fetches (bus : Bus σ) (kind : Access) (cycles : Nat) (m m' : Machine (σ × Transcript)) : Prop where
  pc : m'.cpu.regs.pc = m.cpu.regs.pc + m.cpu.regs.instructionSize
  thumb : m'.cpu.isThumb = m.cpu.isThumb
  fetchKind : m'.cpu.fetchKind = kind
  timestamp : m'.cpu.timestamp = m.cpu.timestamp + cycles
  timed : m'.system.2.timed = m.system.2.timed ++
    [.wait (Bus.fetchWidth m) (m.cpu.regs.pc + m.cpu.regs.instructionSize) m.cpu.fetchKind.asCode cycles]
  answer : ∃ m₁, cycles = (bus.waitTime (Bus.fetchWidth m) (m.cpu.regs.pc + m.cpu.regs.instructionSize)
    m.cpu.fetchKind.asCode m₁).1

theorem fetched_waits (h : bus.SparesPipeline) :
    ∃ cycles, Fetches bus .sequel cycles m (fetched bus.recorded m).2 := by
  let size := m.cpu.regs.instructionSize
  let w := Bus.fetchWidth m
  let moved := (m.mapRegs fun f => { f with pc := f.pc + size }).seen Prod.fst
  let waited := bus.waitTime w (m.cpu.regs.pc + size) m.cpu.fetchKind.asCode moved
  have waits : moved.SamePipeline waited.2 := h.waitTime w _ _ moved
  have gets := h.get w (m.cpu.regs.pc + size - size * 2) ((waited.2.idle waited.1).setFetchKind .sequel)
  have cpu := trace_cpu bus.recorded (bus.recorded.fetch m).2 m.cpu.isThumb (bus.recorded.fetch m).1
  have system := trace_system bus.recorded (bus.recorded.fetch m).2 m.cpu.isThumb (bus.recorded.fetch m).1
  refine ⟨waited.1, ?_, ?_, ?_, ?_, ?_, moved, rfl⟩
  · exact (congrArg (·.regs.pc) cpu).trans (gets.place.pc.trans waits.place.pc)
  · exact (congrArg (·.isThumb) cpu).trans (gets.place.thumb.trans waits.place.thumb)
  · exact (congrArg (·.fetchKind) cpu).trans gets.fetchKind
  · refine (congrArg (·.timestamp) cpu).trans (gets.timestamp.trans ?_)
    exact congrArg (· + waited.1) waits.timestamp
  · have record : (fetched bus.recorded m).2.system.2 = m.system.2 ++
        [.wait w (m.cpu.regs.pc + size) m.cpu.fetchKind.asCode waited.1, .get w _ _] :=
      (congrArg Prod.snd system).trans (List.append_assoc ..)
    rw [record, Transcript.timed_append]
    rfl

theorem Fetches.after {kind kind' : Access} {cycles : Nat} {m₁ m₂ : Machine (σ × Transcript)}
    (a : Fetches bus kind cycles m m₁) (b : m₁.Lingers kind' m₂) : Fetches bus kind' cycles m m₂ where
  pc := b.place.pc.trans a.pc
  thumb := b.place.thumb.trans a.thumb
  fetchKind := b.fetchKind
  timestamp := b.timestamp.trans a.timestamp
  timed := b.timed.trans a.timed
  answer := a.answer

/-- A step that computes fetches, on record, one instruction. -/
theorem Computes.fetches (h : bus.SparesPipeline) {n : Machine (σ × Transcript)} {m' : Machine σ}
    (c : Computes bus (n.seen Prod.fst) m') :
    ∃ n' cycles, step bus.recorded n = .ok () n' ∧ n'.seen Prod.fst = m' ∧
      Fetches bus (next bus (n.seen Prod.fst)).nextKind cycles n n' := by
  have looks : instruction bus (n.seen Prod.fst) = seen (.of Prod.fst) (instruction bus.recorded n) :=
    instruction_seen bus.recorded_shows n
  have shown : fetched bus (n.seen Prod.fst) = seenWith (.of Prod.fst) (fetched bus.recorded n) :=
    fetched_seen bus.recorded_shows n
  obtain ⟨awake, done, uninterrupted, counter, data, cycles, call⟩ := c
  unfold nextCall at call
  unfold nextCycles at cycles
  unfold next at counter data ⊢
  rw [shown] at counter data cycles call ⊢
  rw [looks] at done
  cases run : instruction bus.recorded n with
  | error e n' =>
    rw [run] at done
    cases done
  | ok u n' =>
    rw [run] at done
    cases done
    obtain ⟨waited, fetch⟩ := fetched_waits n h
    have lingers := execute_lingers _ h counter data cycles call run
    rw [fetch.fetchKind] at lingers
    exact ⟨n', waited, step_of_instruction awake run uninterrupted, rfl, fetch.after n lingers⟩

def steps (bus : Bus σ) : Nat → Exec σ Unit
  | 0 => pure ()
  | k + 1 => do
    steps bus k
    step bus

theorem steps_succ {k : Nat} {m m₁ m₂ : Machine σ} (run : steps bus k m = .ok () m₁)
    (last : step bus m₁ = .ok () m₂) : steps bus (k + 1) m = .ok () m₂ := by
  show EStateM.bind (steps bus k) (fun _ => step bus) m = _
  unfold EStateM.bind
  rw [run]
  exact last

variable {ms : Nat → Machine σ}

/-- The next address in a row of instructions. -/
theorem address_succ (a size : Word) (k : Nat) :
    a + BitVec.ofNat 32 k * size + size = a + BitVec.ofNat 32 (k + 1) * size := by
  rw [BitVec.ofNat_add, BitVec.add_mul, BitVec.add_assoc]
  exact congrArg (fun x => a + (BitVec.ofNat 32 k * size + x)) (BitVec.one_mul size).symm

def cyclesOf (ms : Nat → Machine σ) (j : Nat) : Nat := (ms (j + 1)).cpu.timestamp - (ms j).cpu.timestamp

/-- In a row of steps that compute, each asks for the next address in the row, and takes the time of its answer. -/
theorem steps_fetch (h : bus.SparesPipeline) {n : Machine (σ × Transcript)} (start : n.seen Prod.fst = ms 0) (k : Nat)
    (computes : ∀ i < k, Computes bus (ms i) (ms (i + 1))) :
    ∃ n', steps bus.recorded k n = .ok () n' ∧ n'.seen Prod.fst = ms k ∧
      n'.cpu.regs.pc = n.cpu.regs.pc + BitVec.ofNat 32 k * n.cpu.regs.instructionSize ∧
      n'.cpu.isThumb = n.cpu.isThumb ∧
      n'.cpu.timestamp = n.cpu.timestamp + ((List.range k).map (cyclesOf ms)).sum ∧
      n'.system.2.timed = n.system.2.timed ++ (List.range k).map fun j =>
        .wait (Bus.fetchWidth n) (n.cpu.regs.pc + BitVec.ofNat 32 (j + 1) * n.cpu.regs.instructionSize)
          (ms j).cpu.fetchKind.asCode (cyclesOf ms j) := by
  induction k with
  | zero =>
    refine ⟨n, rfl, start, ?_, rfl, rfl, (List.append_nil _).symm⟩
    rw [BitVec.zero_mul]
    exact (BitVec.add_zero _).symm
  | succ k ih =>
    obtain ⟨n₁, run, seen, pc, thumb, clock, timed⟩ := ih fun i hi => computes i (Nat.lt_succ_of_lt hi)
    have last := computes k (Nat.lt_succ_self k)
    rw [← seen] at last
    obtain ⟨n₂, cycles, stepped, seen₂, fetch⟩ := last.fetches h
    have size : n₁.cpu.regs.instructionSize = n.cpu.regs.instructionSize :=
      Registers.instructionSize_congr thumb
    have width : Bus.fetchWidth n₁ = Bus.fetchWidth n := Bus.fetchWidth_congr thumb
    have row := address_succ n.cpu.regs.pc n.cpu.regs.instructionSize k
    have kind : n₁.cpu.fetchKind = (ms k).cpu.fetchKind := congrArg (·.cpu.fetchKind) seen
    have spent : cycles = cyclesOf ms k := by
      rw [cyclesOf, ← seen, ← seen₂]
      exact (Nat.sub_eq_of_eq_add' fetch.timestamp).symm
    refine ⟨n₂, steps_succ run stepped, seen₂, ?_, fetch.thumb.trans thumb, ?_, ?_⟩
    · rw [fetch.pc, pc, size, row]
    · rw [fetch.timestamp, clock, spent, List.range_succ, List.map_append, List.sum_append, Nat.add_assoc]
      rfl
    · rw [fetch.timed, timed, pc, size, row, width, kind, spent, List.range_succ, List.map_append, List.append_assoc]
      rfl

/-- The time that a refill of the pipeline takes. It is added up in 16 bits. -/
def refillTime (bus : Bus σ) (t : Address) (m : Machine σ) : Nat :=
  let (first, m') := bus.waitTime (Bus.fetchWidth m) t Access.nonsequential.asCode m
  first + (bus.waitTime (Bus.fetchWidth m) (t + m.cpu.regs.instructionSize) Access.sequel.asCode m').1

/-- A jump asks for two instructions. -/
theorem jump_fetches (h : bus.SparesPipeline) {t : Address} (aligned : m.cpu.regs.instructionSize.toNat ∣ t.toNat) :
    let m' := bus.recorded.jump t m
    m'.cpu.regs.pc = t + m.cpu.regs.instructionSize ∧ m'.cpu.isThumb = m.cpu.isThumb ∧
      m'.cpu.fetchKind = .sequel ∧ ∃ first second, m'.cpu.timestamp = m.cpu.timestamp + (first + second) ∧
        first + second = refillTime bus t (m.seen Prod.fst) ∧ m'.system.2.timed = m.system.2.timed ++
          [.wait (Bus.fetchWidth m) t Access.nonsequential.asCode first,
            .wait (Bus.fetchWidth m) (t + m.cpu.regs.instructionSize) Access.sequel.asCode second] := by
  let w := Bus.fetchWidth m
  let one := bus.waitTime w t Access.nonsequential.asCode (m.seen Prod.fst)
  let two := bus.waitTime w (t + m.cpu.regs.instructionSize) Access.sequel.asCode one.2
  have whole : Word.alignDown t m.cpu.regs.instructionSize = t :=
    Word.alignDown_eq_self m.cpu.regs.instructionSize_cases aligned
  have first : (m.seen Prod.fst).SamePipeline one.2 := h.waitTime ..
  have second : one.2.SamePipeline two.2 := h.waitTime ..
  unfold Bus.jump
  simp only [whole]
  refine ⟨rfl, second.place.thumb.trans first.place.thumb, rfl, one.1, two.1, ?_, rfl, ?_⟩
  · exact congrArg (· + (one.1 + two.1)) (second.timestamp.trans first.timestamp)
  · show Transcript.timed (m.system.2 ++ [_] ++ [_]) = _
    rw [List.append_assoc, Transcript.timed_append]
    rfl

theorem Computes.fetchKind (h : bus.SparesPipeline) {m m' : Machine σ} (c : Computes bus m m') :
    m'.cpu.fetchKind = (next bus m).nextKind := by
  obtain ⟨n, cycles, -, rfl, fetch⟩ := Computes.fetches (n := m.recording []) h c
  exact fetch.fetchKind

/-- What a step that computes does to the machine itself. -/
theorem Computes.waits (h : bus.SparesPipeline) {m m' : Machine σ} (c : Computes bus m m') :
    m'.cpu.isThumb = m.cpu.isThumb ∧ ∃ m₁, m'.cpu.timestamp = m.cpu.timestamp +
      (bus.waitTime (Bus.fetchWidth m) (m.cpu.regs.pc + m.cpu.regs.instructionSize) m.cpu.fetchKind.asCode m₁).1 := by
  obtain ⟨n, cycles, -, rfl, fetch⟩ := Computes.fetches (n := m.recording []) h c
  obtain ⟨m₁, rfl⟩ := fetch.answer
  exact ⟨fetch.thumb, m₁, fetch.timestamp⟩

/-- The kinds of the fetches from a jump on: the one after a step that stores no registers is out of sequence. Two
instructions are fetched by the jump itself, and another one before the first step is over. -/
def fetchKinds (bus : Bus σ) (ms : Nat → Machine σ) : Nat → Access
  | 0 => .nonsequential
  | 1 | 2 => .sequel
  | j + 3 => (next bus (ms j)).nextKind

def fetchCycles (ms : Nat → Machine σ) (first second : Nat) : Nat → Nat
  | 0 => first
  | 1 => second
  | j + 2 => cyclesOf ms j

/-- From a jump on, steps that only compute fetch each address once. -/
theorem jump_steps_fetch (h : bus.SparesPipeline) {m : Machine σ} {t : Address}
    (aligned : m.cpu.regs.instructionSize.toNat ∣ t.toNat) (start : ms 0 = bus.jump t m) {k : Nat}
    (computes : ∀ i < k, Computes bus (ms i) (ms (i + 1))) :
    ∃ (cycles : Nat → Nat) (r : Transcript),
      steps bus.recorded k (bus.recorded.jump t (m.recording [])) = .ok () ((ms k).recording r) ∧
      r.timed = (List.range (k + 2)).map (fun j => .wait (Bus.fetchWidth m)
        (t + BitVec.ofNat 32 j * m.cpu.regs.instructionSize) (fetchKinds bus ms j).asCode (cycles j)) ∧
      cycles 0 + cycles 1 = refillTime bus t m ∧
      (ms k).cpu.timestamp = m.cpu.timestamp + ((List.range (k + 2)).map cycles).sum := by
  let s := m.cpu.regs.instructionSize
  let n₀ := bus.recorded.jump t (m.recording [])
  have seen₀ : n₀.seen Prod.fst = ms 0 := (bus.recorded_shows.jump t (m.recording [])).symm.trans start.symm
  obtain ⟨pc₀, thumb₀, kind₀, first, second, clock₀, refill, timed₀⟩ := jump_fetches (m.recording []) h aligned
  obtain ⟨n, run, seen, -, -, clock, timed⟩ := steps_fetch h seen₀ k computes
  have size : n₀.cpu.regs.instructionSize = s := Registers.instructionSize_congr thumb₀
  have width : Bus.fetchWidth n₀ = Bus.fetchWidth m := Bus.fetchWidth_congr thumb₀
  have kinds : ∀ j < k, (ms j).cpu.fetchKind = fetchKinds bus ms (j + 2) := by
    intro j hj
    cases j with
    | zero =>
      rw [← seen₀]
      exact kind₀
    | succ j => exact (computes j (Nat.lt_of_succ_lt hj)).fetchKind h
  have split : List.range (k + 2) = 0 :: 1 :: (List.range k).map (· + 2) := by
    rw [List.range_succ_eq_map, List.range_succ_eq_map, List.map_cons, List.map_map]
    rfl
  have total : ((List.range (k + 2)).map (fetchCycles ms first second)).sum =
      first + second + ((List.range k).map (cyclesOf ms)).sum := by
    rw [split, List.map_cons, List.map_cons, List.map_map, List.sum_cons, List.sum_cons, ← Nat.add_assoc]
    rfl
  have address₀ : t + BitVec.ofNat 32 0 * s = t := by
    rw [BitVec.zero_mul]
    exact BitVec.add_zero t
  have address₁ : t + BitVec.ofNat 32 1 * s = t + s := by
    rw [← address_succ t s 0, address₀]
  have rows : ∀ j, t + s + BitVec.ofNat 32 (j + 1) * s = t + BitVec.ofNat 32 (j + 2) * s := by
    intro j
    rw [← address_succ t s (j + 1), BitVec.add_assoc, BitVec.add_comm s, BitVec.add_assoc]
  refine ⟨fetchCycles ms first second, n.system.2, ?_, ?_, refill, ?_⟩
  · rw [run, ← seen]
    rfl
  · rw [timed, timed₀, split, List.map_cons, List.map_cons, List.map_map, address₀, address₁]
    refine congrArg (_ :: _ :: ·) (List.map_congr_left fun j hj => ?_)
    rw [width, size, pc₀, kinds j (List.mem_range.1 hj)]
    exact congrArg (fun a => Request.wait _ a _ _) (rows j)
  · rw [total, ← seen, ← Nat.add_assoc]
    exact clock.trans (congrArg (· + _) clock₀)

/-- Where all fetches of a kind take the same time, steps that compute and store something cost one fetch of the kind
that comes first, and otherwise fetches in sequence. -/
theorem steps_cost (h : bus.SparesPipeline) {cost : Width → Access → Nat}
    (uniform : ∀ w a k m, k.code = true → (bus.waitTime w a k m).1 = cost w k) (n : Nat)
    (computes : ∀ i < n + 1, Computes bus (ms i) (ms (i + 1)))
    (stores : ∀ i < n, (next bus (ms i)).storesNone = false) :
    (ms (n + 1)).cpu.isThumb = (ms 0).cpu.isThumb ∧
      (ms (n + 1)).cpu.timestamp = (ms 0).cpu.timestamp +
        cost (Bus.fetchWidth (ms 0)) (ms 0).cpu.fetchKind.asCode +
          n * cost (Bus.fetchWidth (ms 0)) Access.sequel.asCode := by
  induction n with
  | zero =>
    obtain ⟨thumb, m₁, clock⟩ := (computes 0 Nat.one_pos).waits h
    rw [uniform _ _ _ _ rfl] at clock
    exact ⟨thumb, clock.trans (by rw [Nat.zero_mul, Nat.add_zero])⟩
  | succ n ih =>
    obtain ⟨thumb, clock⟩ := ih (fun i hi => computes i (Nat.lt_succ_of_lt hi)) fun i hi =>
      stores i (Nat.lt_succ_of_lt hi)
    obtain ⟨thumb', m₁, clock'⟩ := (computes (n + 1) (Nat.lt_succ_self _)).waits h
    have kind : (ms (n + 1)).cpu.fetchKind = .sequel := by
      rw [(computes n (Nat.lt_succ_of_lt (Nat.lt_succ_self n))).fetchKind h, Meaning.nextKind,
        stores n (Nat.lt_succ_self n)]
      rfl
    have width : Bus.fetchWidth (ms (n + 1)) = Bus.fetchWidth (ms 0) := Bus.fetchWidth_congr thumb
    rw [uniform _ _ _ _ rfl, kind, width] at clock'
    exact ⟨thumb'.trans thumb, by rw [clock', clock, Nat.succ_mul, ← Nat.add_assoc]⟩

/-- From a jump to an aligned address on, for as long as steps only compute, code is all that a processor waits for: for
each address once and in order, the first out of sequence and the others in sequence, except for the fetch in the step
after one that stores no registers. The first two times have to fit together into 16 bits. So, where all fetches of a
kind take the same time, a run without such a store before its last step costs a fetch of the kind that comes first, and
for each other instruction one in sequence. -/
theorem computing_fetches (h : bus.SparesPipeline) :
    (∀ (m : Machine σ) (t : Address) (ms : Nat → Machine σ) (k : Nat),
      m.cpu.regs.instructionSize.toNat ∣ t.toNat → refillTime bus t m < 2 ^ 16 → ms 0 = bus.jump t m →
      (∀ i < k, Computes bus (ms i) (ms (i + 1))) →
      ∃ (cycles : Nat → Nat) (r : Transcript),
        steps bus.recorded k (bus.recorded.jump t (m.recording [])) = .ok () ((ms k).recording r) ∧
        r.timed = (List.range (k + 2)).map (fun j => .wait (Bus.fetchWidth m)
          (t + BitVec.ofNat 32 j * m.cpu.regs.instructionSize) (fetchKinds bus ms j).asCode (cycles j)) ∧
        cycles 0 + cycles 1 = refillTime bus t m ∧
        (ms k).cpu.timestamp = m.cpu.timestamp + ((List.range (k + 2)).map cycles).sum) ∧
    ∀ (cost : Width → Access → Nat), (∀ w a k m, k.code = true → (bus.waitTime w a k m).1 = cost w k) →
      ∀ (ms : Nat → Machine σ) (n : Nat), (∀ i < n + 1, Computes bus (ms i) (ms (i + 1))) →
        (∀ i < n, (next bus (ms i)).storesNone = false) →
        (ms (n + 1)).cpu.timestamp = (ms 0).cpu.timestamp +
          cost (Bus.fetchWidth (ms 0)) (ms 0).cpu.fetchKind.asCode +
            n * cost (Bus.fetchWidth (ms 0)) Access.sequel.asCode :=
  ⟨fun _ _ _ _ aligned _ start computes => jump_steps_fetch h aligned start computes,
    fun _ uniform _ n computes stores => (steps_cost h uniform n computes stores).2⟩

theorem Computes.of_ordinary {m : Machine σ} (awake : m.cpu.halted = false)
    (succeeds : (instruction bus).succeeds m = true)
    (calm : ((instruction bus).final m).cpu.serviceable = false)
    (counter : (next bus m).writesCounter bus.isV5 (fetched bus m).2.cpu.regs = false)
    (data : (next bus m).accessesData bus.isV5 = false) (cycles : nextCycles bus m = 0)
    (ordinary : nextCall bus m = none) : Computes bus m ((instruction bus).final m) where
  awake := awake
  done := eq_ok_of_succeeds succeeds
  uninterrupted := .inr calm
  counter := counter
  data := data
  cycles := cycles
  call n asked := by
    rw [ordinary] at asked
    cases asked

def row (bus : Bus σ) (m : Machine σ) : Nat → Machine σ
  | 0 => m
  | k + 1 => (instruction bus).final (row bus m k)

end Exec

theorem FlatMemory.bus_sparesPipeline (a : Architecture) (timing : Width → Address → Access → Nat) :
    (FlatMemory.bus a timing).SparesPipeline := by
  have kept : (FlatMemory.bus a timing).Keeps Machine.SamePipeline :=
    (FlatMemory.bus_keeps a timing).mono fun _ _ same =>
      ⟨⟨congrArg (·.regs.pc) same, congrArg (·.isThumb) same⟩, congrArg (·.fetchKind) same,
        congrArg (·.timestamp) same⟩
  exact ⟨kept.toKeepsReading, kept.controlRead, kept.controlWrite⟩

/-- A `MOV` and an `ADDEQ` that is skipped. -/
def skipping : Machine FlatMemory where
  cpu := Processor.powerOn .v5
  system := { ram := ⟨#[0x05, 0x00, 0xA0, 0xE3, 0x01, 0x00, 0x80, 0x02]⟩ }
  journal := #[]

/-- An instruction that is skipped is fetched like any other. -/
theorem computing_fetches_skipping :
    let bus := FlatMemory.evenBus .v5
    let ms := Exec.row bus (bus.jump 0 skipping)
    bus.SparesPipeline ∧ skipping.cpu.regs.instructionSize.toNat ∣ (0 : Address).toNat ∧
      Exec.refillTime bus 0 skipping = 2 ∧ (∀ i < 2, Exec.Computes bus (ms i) (ms (i + 1))) ∧
      (Exec.next bus (ms 0)).storesNone = false ∧
      (∃ (cycles : Nat → Nat) (r : Transcript),
        Exec.steps bus.recorded 2 (bus.recorded.jump 0 (skipping.recording [])) = .ok () ((ms 2).recording r) ∧
        r.timed = [.wait .word 0 Access.nonsequential.asCode (cycles 0), .wait .word 4 Access.sequel.asCode (cycles 1),
          .wait .word 8 Access.sequel.asCode (cycles 2), .wait .word 12 Access.sequel.asCode (cycles 3)]) ∧
      (ms 2).cpu.timestamp = (ms 0).cpu.timestamp + 1 + 1 := by
  intro bus ms
  have spares : bus.SparesPipeline := FlatMemory.bus_sparesPipeline _ _
  have computes : ∀ i < 2, Exec.Computes bus (ms i) (ms (i + 1)) := by
    intro i hi
    match i with
    | 0 | 1 => apply Exec.Computes.of_ordinary <;> decide +kernel
  have aligned : skipping.cpu.regs.instructionSize.toNat ∣ (0 : Address).toNat := Nat.dvd_zero _
  have stores : (Exec.next bus (ms 0)).storesNone = false := by decide +kernel
  have kind : Exec.fetchKinds bus ms 3 = .sequel := by
    rw [Exec.fetchKinds, Meaning.nextKind, stores]
    rfl
  obtain ⟨fetches, costs⟩ := Exec.computing_fetches spares
  obtain ⟨cycles, r, run, timed, -⟩ := fetches skipping 0 ms 2 aligned (by decide) rfl computes
  refine ⟨spares, aligned, rfl, computes, stores, ⟨cycles, r, run, timed.trans ?_⟩, ?_⟩
  · show [Request.wait _ _ _ _, .wait _ _ _ _, .wait _ _ _ _, .wait _ _ (Exec.fetchKinds bus ms 3).asCode _] = _
    rw [kind]
    rfl
  · exact costs (fun _ _ => 1) (fun _ _ _ _ _ => rfl) ms 1 computes fun i hi => by
      rwa [Nat.lt_one_iff.1 hi]

/-- A THUMB push of no registers, and a `MOV`. -/
def pushingNone : Machine FlatMemory where
  cpu := (Processor.powerOn .v4).mapRegs (·.setFlag .thumb true)
  system := { ram := ⟨#[0x00, 0xB4, 0xC0, 0x46]⟩ }
  journal := #[]

/-- The push accesses no data, and yet the fetch in the step after it is out of sequence. -/
theorem pushing_none_breaks_sequence :
    let bus := FlatMemory.evenBus .v4
    let ms := Exec.row bus (bus.jump 0 pushingNone)
    (∀ i < 2, Exec.Computes bus (ms i) (ms (i + 1))) ∧
      ∃ r : Transcript,
        Exec.steps bus.recorded 2 (bus.recorded.jump 0 (pushingNone.recording [])) = .ok () ((ms 2).recording r) ∧
        ∀ cycles : Nat → Nat, r.timed ≠ (List.range 4).map fun j =>
          .wait .half (BitVec.ofNat 32 j * 2)
            (if j = 0 then Access.nonsequential.asCode else Access.sequel.asCode) (cycles j) := by
  intro bus ms
  have computes : ∀ i < 2, Exec.Computes bus (ms i) (ms (i + 1)) := by
    intro i hi
    match i with
    | 0 | 1 => apply Exec.Computes.of_ordinary <;> decide +kernel
  have none : (Exec.next bus (ms 0)).storesNone = true := by decide +kernel
  have kind : Exec.fetchKinds bus ms 3 = .nonsequential := by
    rw [Exec.fetchKinds, Meaning.nextKind, none]
    rfl
  have spares : bus.SparesPipeline := FlatMemory.bus_sparesPipeline _ _
  have aligned : pushingNone.cpu.regs.instructionSize.toNat ∣ (0 : Address).toNat := Nat.dvd_zero _
  obtain ⟨cycles, r, run, timed, -⟩ := Exec.jump_steps_fetch spares aligned rfl computes
  refine ⟨computes, r, run, fun cycles' sequence => ?_⟩
  have third := List.map_inj_left.1 (timed.symm.trans sequence) 3 (by decide)
  rw [kind] at third
  injection third with _ _ kinds
  exact absurd kinds (by decide)

end Lockstep
