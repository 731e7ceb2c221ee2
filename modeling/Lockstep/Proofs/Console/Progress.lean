import Mathlib.Data.Prod.Lex
import Mathlib.Order.OrderIsoNat
import Lockstep.Proofs.Console.Parts

/-!
Progress. Every step of a processor takes time, but for one that naps for no time at all and enters no handler.
So where naps take time the processors catch up with the clock, and an advance comes to its end unless
handlers go on for ever planning events that are due at once. Where naps take no time, a processor that nothing
wakes keeps the console waiting for ever. A clock that runs beyond its 64 bits is an end, too, but no success.
-/

namespace Lockstep.Console

variable {δ : Type} {devices : Devices δ} {id : ProcessorId} {m m' : Node δ}

theorem Board.Reachable.call {s s' : Board δ} (h : s.Reachable devices) (call : Board.Call devices s s') :
    s'.Reachable devices := by
  obtain ⟨config, d, run⟩ := h
  exact ⟨config, d, run.tail (.inl call)⟩

theorem jump_timestamp (devices : Devices δ) (id : ProcessorId) (h : m.system.waitstates.Positive) (a : Address) :
    m.cpu.timestamp < ((Board.bus devices id).jump a m).cpu.timestamp := by
  let w := Bus.fetchWidth m
  let target := Word.alignDown a m.cpu.regs.instructionSize
  let next := target + m.cpu.regs.instructionSize
  let waited := (Board.bus devices id).waitTime w target Access.nonsequential.asCode m
  let again := (Board.bus devices id).waitTime w next Access.sequel.asCode waited.2
  have same : waited.2 = m := waitTime_self devices id w target Access.nonsequential.asCode m
  have same' : again.2 = waited.2 := waitTime_self devices id w next Access.sequel.asCode waited.2
  have first : 1 ≤ waited.1 := waitTime_pos devices id h w target Access.nonsequential.asCode
  have jumped : ((Board.bus devices id).jump a m).cpu.timestamp = again.2.cpu.timestamp + (waited.1 + again.1) := rfl
  rw [jumped, same', same]
  omega

theorem enter_timestamp (devices : Devices δ) (id : ProcessorId) (h : m.system.waitstates.Positive)
    (kind : Exception) (a : Address) :
    m.cpu.timestamp < ((Board.bus devices id).enter kind a m).cpu.timestamp :=
  jump_timestamp devices id (m := m.mapRegs (·.entering kind a)) h _

/-- A step takes no time just if it is a nap of no length that ends in no handler. -/
theorem step_timestamp_iff (h : m.system.waitstates.Positive)
    (hs : Exec.step (Board.bus devices id) m = .ok () m') :
    m.cpu.timestamp < m'.cpu.timestamp ↔
      ¬(m.cpu.halted = true ∧ m.system.config.dozeLength = 0 ∧ m.cpu.serviceable = false) := by
  cases halted : m.cpu.halted with
  | false => simp [instruction_timestamp h halted hs]
  | true =>
    rw [Exec.step_halted halted, bus_dozeLength] at hs
    obtain rfl := (EStateM.Result.ok.injEq _ _ _ _).mp hs |>.2
    have napped : m.cpu.timestamp < (m.idle m.system.config.dozeLength).cpu.timestamp ↔
        m.system.config.dozeLength ≠ 0 := by
      show m.cpu.timestamp < m.cpu.timestamp + _ ↔ _
      omega
    have woken : m.cpu.timestamp < (m.idle m.system.config.dozeLength).wake.cpu.timestamp ↔
        m.system.config.dozeLength ≠ 0 := napped
    unfold Processor.serviceable
    cases pending : m.cpu.interrupts.hasPending with
    | false => simpa using napped
    | true =>
      cases ready : m.cpu.interrupts.master && !m.cpu.regs.flag .irqDisable with
      | false => simpa using woken
      | true =>
        have entered := enter_timestamp devices id (m := (m.idle m.system.config.dozeLength).wake) h .irq
          (m.cpu.nextAddress + 4)
        have later : m.cpu.timestamp ≤ (m.idle m.system.config.dozeLength).wake.cpu.timestamp :=
          Nat.le_add_right _ _
        simpa using Nat.lt_of_le_of_lt later entered

namespace Drive

/-- A processor comes to a step while the processors catch up with the clock. -/
inductive StepsFrom (devices : Devices δ) (s : Board δ) : ProcessorId → Node δ → Prop where
  | arm9 {m : Node δ} (due : 2 * s.now ≤ Schedule.lastTime)
      (before : Rounds (Node.Behind (2 * s.now)) (Exec.step (Board.bus devices .arm9)) (s.node .arm9) m)
      (behind : m.Behind (2 * s.now)) : StepsFrom devices s .arm9 m
  | arm7 {m9 m : Node δ} (due : 2 * s.now ≤ Schedule.lastTime)
      (first : Ends (Node.Behind (2 * s.now)) (Exec.step (Board.bus devices .arm9)) (s.node .arm9) (.ok () m9))
      (before : Rounds (Node.Behind s.now) (Exec.step (Board.bus devices .arm7)) ((s.put .arm9 m9).node .arm7) m)
      (behind : m.Behind s.now) : StepsFrom devices s .arm7 m

theorem rounds_kept {p : Node δ → Prop} (rounds : Rounds p (Exec.step (Board.bus devices id)) m m') :
    m'.system.config = m.system.config ∧ (m.system.waitstates.Positive → m'.system.waitstates.Positive) := by
  induction rounds with
  | refl => exact ⟨rfl, fun h => h⟩
  | @tail m₁ m₂ _ round ih =>
    have kept := (Hardware.config_keeps devices id).carries.step m₁
    simp only [Exec.final, round.2] at kept
    exact ⟨kept.1.trans ih.1, kept.2 ∘ ih.2⟩

/-- Each step is made where no access is free of charge, under the configuration of the console. -/
theorem StepsFrom.kept {s : Board δ} (positive : s.hardware.waitstates.Positive) (h : StepsFrom devices s id m) :
    m.system.config = s.hardware.config ∧ m.system.waitstates.Positive := by
  cases h with
  | arm9 _ before behind =>
    obtain ⟨config, kept⟩ := rounds_kept before
    exact ⟨config, kept positive⟩
  | arm7 _ first before behind =>
    cases first with
    | done rounds _ =>
      obtain ⟨config9, kept9⟩ := rounds_kept rounds
      obtain ⟨config7, kept7⟩ := rounds_kept before
      exact ⟨config7.trans config9, kept7 (kept9 positive)⟩

/-- Where naps take time, a processor catches up or fails. -/
theorem catchUp_ends (devices : Devices δ) (id : ProcessorId) {target : Nat} (s : Board δ)
    (positive : s.hardware.waitstates.Positive) (dozes : 1 ≤ s.hardware.config.dozeLength)
    (due : target ≤ Schedule.lastTime) :
    ∃ r, Ends (Node.Behind target) (Exec.step (Board.bus devices id)) (s.node id) r := by
  have pursuit := catchUp_pursuit devices id s positive due
  generalize catchUp devices id target s = r at pursuit
  cases pursuit with
  | caught ends | stopped ends | overrun ends => exact ⟨_, ends⟩
  | stalled rounds _ stalled _ =>
    have config : _ = s.hardware.config := (rounds_kept rounds).1
    rw [← config, stalled.dozeLength] at dozes
    cases dozes

/-- A result that a caller gets: the end, or a fault of a processor, unless a clock was overrun. -/
def Returns (r : EStateM.Result Failure (Board δ) Unit) : Prop :=
  ∀ e s, r = .error e s → (∃ id cause, e = .stopped id cause) ∨ e = .overrun

theorem returns_ok (s : Board δ) : Returns (.ok () s) := by
  intro e s' h
  cases h

theorem returns_overrun (s : Board δ) : Returns (.error .overrun s) := by
  rintro e s' ⟨⟩
  exact .inr rfl

theorem catchUp_returns (devices : Devices δ) (id : ProcessorId) {target : Nat} (s : Board δ)
    (positive : s.hardware.waitstates.Positive) (dozes : 1 ≤ s.hardware.config.dozeLength)
    (due : target ≤ Schedule.lastTime) : Returns (catchUp devices id target s) := by
  obtain ⟨r, ends⟩ := catchUp_ends devices id s positive dozes due
  have pursuit := catchUp_pursuit devices id s positive due
  generalize catchUp devices id target s = r' at pursuit
  rintro e s' rfl
  cases pursuit with
  | stopped => exact .inl ⟨_, _, rfl⟩
  | overrun => exact .inr rfl
  | stalled rounds behind _ same => exact absurd ends (Ends.not_of_stuck rounds behind same)

theorem runProcessors_returns (devices : Devices δ) {s : Board δ}
    (positive : s.hardware.waitstates.Positive) (dozes : 1 ≤ s.hardware.config.dozeLength) :
    Returns (runProcessors devices s) := by
  rw [runProcessors_eq]
  by_cases due : 2 * s.now ≤ Schedule.lastTime
  case neg =>
    rw [if_neg due]
    exact returns_overrun s
  have first := catchUp_returns devices .arm9 s positive dozes due
  have pursuit := catchUp_pursuit devices .arm9 s positive due
  rw [if_pos due]
  generalize catchUp devices .arm9 (2 * s.now) s = r at first pursuit
  cases pursuit with
  | stopped | stalled | overrun => exact first
  | @caught m9 ends =>
    cases ends with
    | done rounds _ =>
      obtain ⟨config, kept⟩ := rounds_kept rounds
      exact catchUp_returns devices .arm7 (s.put .arm9 m9) (kept positive) (config ▸ dozes) (due_arm7 due)

/-- How many pauses are due, or else how many events of devices. -/
def dueCount (pauses : Bool) (schedule : Schedule SystemEvent) : Nat :=
  schedule.events.countP fun e => decide (e.kind = .pause) == pauses && decide (e.time ≤ schedule.now)

/-- What is due is one event of the devices the fewer once one has been handled, unless they plan an event
that is due at once. -/
def Replans (devices : Devices δ) (s : Board δ) : Prop :=
  ∃ event lateBy schedule, s.hardware.schedule.takeDue = (some ⟨.device event, lateBy⟩, schedule) ∧
    dueCount false s.hardware.schedule ≤ dueCount false
      (dispatch devices ⟨.device event, lateBy⟩ { s with hardware := { s.hardware with schedule } }).hardware.schedule

/-- Handlers do not for ever plan events that are due at once. -/
def Settles (devices : Devices δ) (s : Board δ) : Prop :=
  ∀ f : Nat → Board δ, f 0 = s → (∀ n, Dispatched devices (f n) (f (n + 1))) →
    ∃ n₀, ∀ n, n₀ ≤ n → ¬Replans devices (f n)

theorem takeDue_some {κ : Type} {schedule rest : Schedule κ} {e : Due κ}
    (h : schedule.takeDue = (some e, rest)) :
    ∃ time, time ≤ schedule.now ∧ rest.now = schedule.now ∧
      schedule.events = ⟨e.kind, time⟩ :: rest.events := by
  unfold Schedule.takeDue at h
  split at h
  · cases h
  · rename_i first events listed
    split_ifs at h with due <;> cases h
    exact ⟨first.time, due, rfl, listed⟩

/-- The event that is taken out counts for one. -/
theorem dueCount_takeDue {schedule rest : Schedule SystemEvent} {e : Due SystemEvent}
    (h : schedule.takeDue = (some e, rest)) (pauses : Bool) :
    dueCount pauses schedule = dueCount pauses rest + if decide (e.kind = .pause) = pauses then 1 else 0 := by
  obtain ⟨time, due, now, listed⟩ := takeDue_some h
  unfold dueCount
  rw [listed, List.countP_cons, now]
  simp [due]

def dueLoad (s : Board δ) : Nat ×ₗ Nat :=
  toLex (dueCount false s.hardware.schedule, dueCount true s.hardware.schedule)

theorem Dispatched.dueLoad_lt {s s' : Board δ} (h : Dispatched devices s s') (calm : ¬Replans devices s) :
    dueLoad s' < dueLoad s := by
  obtain ⟨due⟩ := h
  rename_i e schedule
  refine Prod.Lex.toLex_lt_toLex.2 ?_
  rcases e with ⟨_ | event, lateBy⟩
  · have devices := dueCount_takeDue due false
    have pauses := dueCount_takeDue due true
    simp only [decide_true, if_true, Bool.true_eq_false, if_false] at devices pauses
    exact .inr ⟨devices.symm, by
      show dueCount true schedule < dueCount true s.hardware.schedule
      omega⟩
  · exact .inl (Nat.lt_of_not_le fun more => calm ⟨event, lateBy, schedule, due, more⟩)

/-- Dispatching comes to an end where handlers settle. -/
theorem Settles.rests {s : Board δ} (h : Settles devices s) :
    ∃ n, ((Part.apply devices · .dispatch)^[n] s).hardware.schedule.isDue = false := by
  by_contra! going
  have chain : ∀ n, Dispatched devices ((Part.apply devices · .dispatch)^[n] s)
      ((Part.apply devices · .dispatch)^[n + 1] s) := by
    intro n
    rw [Function.iterate_succ_apply']
    have due := going n
    generalize (Part.apply devices · .dispatch)^[n] s = s₁ at due
    rw [isDue_eq] at due
    unfold Part.apply
    rcases h : s₁.hardware.schedule.takeDue with ⟨_ | e, rest⟩
    · exact absurd (by rw [h]; rfl) due
    · exact .one h
  obtain ⟨n₀, calm⟩ := h _ rfl chain
  refine not_strictAnti_of_wellFoundedLT
    (fun n => dueLoad ((Part.apply devices · .dispatch)^[n₀ + n] s)) (strictAnti_nat_of_succ_lt fun n => ?_)
  exact (chain (n₀ + n)).dueLoad_lt (calm _ (Nat.le_add_right n₀ n))

theorem dispatchDue_of_isDue {s : Board δ} (h : s.hardware.schedule.isDue = false) (limit : Nat) :
    dispatchDue devices limit s = .ok () s := by
  cases limit with
  | zero =>
    rw [dispatchDue_zero, h]
    rfl
  | succ limit =>
    rw [isDue_eq] at h
    rw [dispatchDue_succ]
    rcases due : s.hardware.schedule.takeDue with ⟨_ | e, rest⟩
    · rfl
    · rw [due] at h
      cases h

theorem dispatchDue_of_rest {s : Board δ} {n limit : Nat} (enough : n ≤ limit)
    (h : ((Part.apply devices · .dispatch)^[n] s).hardware.schedule.isDue = false) :
    dispatchDue devices limit s = .ok () ((Part.apply devices · .dispatch)^[n] s) := by
  induction n generalizing s limit with
  | zero => exact dispatchDue_of_isDue h limit
  | succ n ih =>
    rw [Function.iterate_succ_apply] at h ⊢
    rcases due : s.hardware.schedule.takeDue with ⟨_ | e, rest⟩
    · have still : Part.apply devices s .dispatch = s := by
        simp only [Part.apply, due]
      rw [still] at h ⊢
      exact ih (Nat.le_of_succ_le enough) h
    · obtain ⟨limit, rfl⟩ := Nat.exists_eq_add_of_le' (Nat.le_trans (Nat.succ_le_succ n.zero_le) enough)
      rw [dispatchDue_succ, due]
      have next : Part.apply devices s .dispatch =
          dispatch devices e { s with hardware := { s.hardware with schedule := rest } } := by
        simp only [Part.apply, due]
      rw [next] at h ⊢
      exact ih (Nat.le_of_succ_le_succ enough) h

end Drive

/-- Devices whose handlers never for ever plan events that are due at once, once the clock has moved. -/
def Devices.Settle (devices : Devices δ) : Prop :=
  ∀ s s₁ : Board δ, s.Reachable devices → Drive.runProcessors devices s = .ok () s₁ →
    Drive.Settles devices (Drive.tick s₁)

namespace Drive

/-- Driving gives one and the same answer under every limit that is high enough. -/
structure Answers (x : Nat → Drive δ Unit) (s : Board δ) (r : EStateM.Result Failure (Board δ) Unit) : Prop where
  returns : Returns r
  same : ∃ enough, ∀ limit, enough ≤ limit → x limit s = r

theorem advance_answers {s : Board δ} (settle : devices.Settle) (reached : s.Reachable devices)
    (dozes : 1 ≤ s.hardware.config.dozeLength) : ∃ r, Answers (advance devices) s r := by
  have returns := runProcessors_returns devices reached.positive dozes
  cases ran : runProcessors devices s with
  | error e s₁ =>
    refine ⟨.error e (halt e s₁), ?_, 0, fun limit _ => ?_⟩
    · rintro _ _ ⟨⟩
      exact returns e s₁ ran
    · rw [advance_eq, ran]
  | ok _ s₁ =>
    by_cases shown : (tick s₁).now ≤ Schedule.lastTime
    · obtain ⟨n, rests⟩ := (settle s s₁ reached ran).rests
      refine ⟨.ok () ((Part.apply devices · .dispatch)^[n] (tick s₁)), returns_ok _, n, fun limit enough => ?_⟩
      rw [advance_eq, ran]
      exact (if_pos shown).trans (dispatchDue_of_rest enough rests)
    · refine ⟨.error .overrun s₁.deliverInterrupts, returns_overrun _, 0, fun limit _ => ?_⟩
      rw [advance_eq, ran]
      exact if_neg shown

theorem advanceUntil_answers (settle : devices.Settle) (target steps : Nat) {s : Board δ}
    (reached : s.Reachable devices) (dozes : 1 ≤ s.hardware.config.dozeLength) :
    ∃ r, Answers (advanceUntil devices · target steps) s r := by
  induction steps generalizing s with
  | zero => exact ⟨.ok () s, returns_ok s, 0, fun _ _ => rfl⟩
  | succ steps ih =>
    by_cases underway : s.running = true ∧ s.now < target
    · obtain ⟨r, returns, enough, advanced⟩ := advance_answers settle reached dozes
      cases r with
      | error e s₁ =>
        refine ⟨_, returns, enough, fun limit h => ?_⟩
        show advanceUntil devices limit target (steps + 1) s = _
        rw [advanceUntil_succ, if_pos underway, advanced limit h]
      | ok _ s₁ =>
        have called := advanced enough (Nat.le_refl enough)
        obtain ⟨r, returns, more, rest⟩ := ih (reached.call (.advance enough called))
          ((advance_config called).1 ▸ dozes)
        refine ⟨r, returns, max enough more, fun limit h => ?_⟩
        show advanceUntil devices limit target (steps + 1) s = _
        rw [advanceUntil_succ, if_pos underway, advanced limit (Nat.le_trans (Nat.le_max_left _ _) h)]
        exact rest limit (Nat.le_trans (Nat.le_max_right _ _) h)
    · refine ⟨.ok () s, returns_ok s, 0, fun limit _ => ?_⟩
      show advanceUntil devices limit target (steps + 1) s = _
      rw [advanceUntil_succ, if_neg underway]

/-- A console that goes on: every step that it makes takes time unless it overruns the processor's clock, each
processor catches up with the system's clock or fails, and advances and runs come to an end if handling events
does. -/
structure Progresses (devices : Devices δ) (s : Board δ) : Prop where
  steps : ∀ {id m m'}, StepsFrom devices s id m → Exec.step (Board.bus devices id) m = .ok () m' →
    Node.Shown m' → m.cpu.timestamp + 1 ≤ m'.cpu.timestamp
  arm9 : 2 * s.now ≤ Schedule.lastTime →
    ∃ r, Ends (Node.Behind (2 * s.now)) (Exec.step (Board.bus devices .arm9)) (s.node .arm9) r
  arm7 : 2 * s.now ≤ Schedule.lastTime →
    ∀ m9, Ends (Node.Behind (2 * s.now)) (Exec.step (Board.bus devices .arm9)) (s.node .arm9) (.ok () m9) →
    ∃ r, Ends (Node.Behind s.now) (Exec.step (Board.bus devices .arm7)) ((s.put .arm9 m9).node .arm7) r
  advances : devices.Settle → ∃ r, Answers (advance devices) s r
  runs : devices.Settle → ∀ cycles, ∃ r, Answers (runFor devices · cycles) s r ∧
    (s.now + cycles ≤ Schedule.lastTime →
      ∃ limit, Ends (Underway (s.now + cycles)) (advance devices limit) { s with running := true } r)

theorem progresses (proper : devices.Proper) {s : Board δ} (reached : s.Reachable devices)
    (dozes : 1 ≤ s.hardware.config.dozeLength) : Progresses devices s where
  steps before stepped _ := by
    obtain ⟨config, positive⟩ := before.kept reached.positive
    refine (step_timestamp_iff positive stepped).2 fun asleep => ?_
    rw [config] at asleep
    omega
  arm9 := catchUp_ends devices .arm9 s reached.positive dozes
  arm7 due m9 ends := by
    cases ends with
    | done rounds _ =>
      obtain ⟨config, kept⟩ := rounds_kept rounds
      exact catchUp_ends devices .arm7 (s.put .arm9 m9) (kept reached.positive) (config ▸ dozes) (due_arm7 due)
  advances settle := advance_answers settle reached dozes
  runs settle cycles := by
    have started : Board.Reachable devices { s with running := true } :=
      reached.call (.processors s s.cpu9 s.cpu7 true)
    by_cases due : s.now + cycles ≤ Schedule.lastTime
    · obtain ⟨r, returns, enough, same⟩ :=
        advanceUntil_answers settle (s.now + cycles) cycles started dozes
      have ran : ∀ limit, enough ≤ limit → runFor devices limit cycles s = r := fun limit h => by
        rw [runFor_eq, if_pos due]
        exact same limit h
      exact ⟨r, ⟨returns, enough, ran⟩, fun _ =>
        ⟨enough, ran enough (Nat.le_refl enough) ▸ runFor_ends proper enough due⟩⟩
    · refine ⟨.error .overrun s, ⟨returns_overrun s, 0, fun limit _ => ?_⟩, fun h => absurd h due⟩
      show runFor devices limit cycles s = _
      rw [runFor_eq, if_neg due]

/-- A console in which the ARM9 sleeps, and nothing will wake it. -/
def asleep (s : Board δ) : Board δ := { s with cpu9 := { Processor.powerOn .v5 with halted := true } }

variable {s : Board δ}

theorem asleep_step (devices : Devices δ) (free : s.hardware.config.dozeLength = 0) :
    Exec.step (Board.bus devices .arm9) ((asleep s).node .arm9) = .ok () ((asleep s).node .arm9) := by
  have none : ({} : Interrupts).hasPending = false := by decide
  have nothing : ((asleep s).node .arm9).cpu.interrupts.hasPending = false := none
  rw [Exec.step_halted rfl, bus_dozeLength, nothing, if_neg Bool.false_ne_true]
  show EStateM.Result.ok () (((asleep s).node .arm9).idle s.hardware.config.dozeLength) = _
  rw [free]
  rfl

/-- Where naps take no time, a console stands still once a processor sleeps. -/
theorem asleep_stands (later : 0 < s.now) (due : 2 * s.now ≤ Schedule.lastTime)
    (free : s.hardware.config.dozeLength = 0) :
    ¬Progresses devices (asleep s) ∧
      ∀ r, ¬Ends (Node.Behind (2 * s.now)) (Exec.step (Board.bus devices .arm9)) ((asleep s).node .arm9) r := by
  have behind : ((asleep s).node .arm9).Behind (2 * s.now) := Nat.mul_pos Nat.zero_lt_two later
  have same := asleep_step devices free
  exact ⟨fun h => absurd (h.steps (.arm9 due .refl behind) same (Nat.zero_le _)) (Nat.not_succ_le_self _),
    fun r => Ends.not_of_stuck .refl behind same⟩

end Drive

open Drive

theorem tick_powerOn (devices : Devices δ) (d : δ) {c : Configuration}
    (fits : 2 * max c.longestStep 1 ≤ Schedule.lastTime) :
    Board.Reachable devices (tick (.powerOn c d)) ∧ 0 < (tick (Board.powerOn c d)).now ∧
      2 * (tick (Board.powerOn c d)).now ≤ Schedule.lastTime := by
  have now : (tick (Board.powerOn c d)).now = max c.longestStep 1 := Nat.zero_add _
  have ran : runProcessors devices (.powerOn c d) = .ok () (.powerOn c d) := rfl
  have advanced : advance devices 1 (.powerOn c d) = .ok () (tick (.powerOn c d)) := by
    rw [advance_eq, ran]
    exact if_pos (by omega)
  rw [now]
  exact ⟨⟨c, d, .single (.inl (.advance 1 advanced))⟩, by omega, fits⟩

theorem asleep_reachable {s : Board δ} (h : s.Reachable devices) : (asleep s).Reachable devices :=
  h.call (.processors s (asleep s).cpu9 s.cpu7 s.running)

/-- Whatever devices there are, all consoles of a configuration go on if naps take time. Where they take none, some
do not, if the clock can move at least twice before it is overrun. -/
theorem progress_iff (proper : devices.Proper) (d : δ) (c : Configuration) :
    (1 ≤ c.dozeLength → ∀ s : Board δ, s.Reachable devices → s.hardware.config = c → Progresses devices s) ∧
    (2 * max c.longestStep 1 ≤ Schedule.lastTime →
      (∀ s : Board δ, s.Reachable devices → s.hardware.config = c → Progresses devices s) → 1 ≤ c.dozeLength) := by
  constructor
  · rintro dozes s reached rfl
    exact progresses proper reached dozes
  · intro fits all
    by_contra free
    obtain ⟨reached, later, due⟩ := tick_powerOn devices d fits
    exact (asleep_stands later due (Nat.eq_zero_of_not_pos free)).1 (all _ (asleep_reachable reached) rfl)

theorem Devices.none_settle : Devices.none.Settle := by
  intro s s₁ _ _ f _ _
  refine ⟨0, fun n _ ⟨event, lateBy, schedule, due, more⟩ => ?_⟩
  have one := dueCount_takeDue due false
  have handled : dueCount false (f n).hardware.schedule ≤ dueCount false schedule := more
  rw [one] at handled
  exact Nat.not_succ_le_self _ handled

/-- Two sleeping processors go on where a nap takes four cycles. -/
theorem napping_progresses :
    Devices.none.Proper ∧ napping.Reachable .none ∧ Progresses .none napping ∧
      ∃ r, Answers (advance .none) napping r := by
  have goes := (progress_iff Devices.none_proper () { longestStep := 1 }).1 (by decide) napping napping_reachable rfl
  exact ⟨Devices.none_proper, napping_reachable, goes, goes.advances Devices.none_settle⟩

/-- A console whose naps take no time, and whose ARM9 sleeps. -/
def standing : Board Unit := asleep (tick (.powerOn { dozeLength := 0 } ()))

/-- Its steps take no time, and the ARM9 is stepped for ever. -/
theorem standing_stands :
    standing.Reachable .none ∧
      StepsFrom .none standing .arm9 (standing.node .arm9) ∧
      Exec.step (Board.bus .none .arm9) (standing.node .arm9) = .ok () (standing.node .arm9) ∧
      ¬Progresses .none standing ∧
      ∀ r, ¬Ends (Node.Behind (2 * standing.now)) (Exec.step (Board.bus .none .arm9)) (standing.node .arm9) r := by
  obtain ⟨reached, later, due⟩ := tick_powerOn .none () (c := { dozeLength := 0 }) (by decide)
  exact ⟨asleep_reachable reached, .arm9 due .refl (Nat.mul_pos Nat.zero_lt_two later), asleep_step .none rfl,
    asleep_stands later due rfl⟩

end Lockstep.Console
