import Lockstep.Proofs.Console.CatchUp

/-!
What an advance does: first the ARM9 catches up with the system clock, then the ARM7 does, then the clock
moves, and then events are dispatched one by one until none is due.
-/

namespace Lockstep.Console

variable {δ : Type} {devices : Devices δ}

def stride (longest : Nat) (schedule : Schedule SystemEvent) : Nat :=
  match schedule.untilNext with
  | some n => max 1 (min n (max longest 1))
  | none => max longest 1

theorem stride_pos (longest : Nat) (schedule : Schedule SystemEvent) : 1 ≤ stride longest schedule := by
  unfold stride
  cases schedule.untilNext <;> simp only <;> omega

theorem stride_le (longest : Nat) (schedule : Schedule SystemEvent) :
    stride longest schedule ≤ max longest 1 := by
  unfold stride
  cases schedule.untilNext <;> simp only <;> omega

namespace Drive

/-- How a console is left, whether or not something fails. -/
def Leaves (x : Drive δ Unit) (s s' : Board δ) : Prop := x s = .ok () s' ∨ ∃ e, x s = .error e s'

theorem outcome_final {id : ProcessorId} {s s' : Board δ} (run : Exec (Hardware δ) Bool) (m : Node δ)
    (h : outcome id s (run m) = .ok () s' ∨ ∃ e, outcome id s (run m) = .error e s') :
    s' = s.put id (run.final m) := by
  unfold Exec.final
  generalize run m = r at h ⊢
  rcases r with ⟨_ | _, m⟩ | ⟨e, m⟩ <;> rcases h with h | ⟨_, h⟩ <;> cases h <;> rfl

theorem catchUp_run {id : ProcessorId} {target : Nat} {s s' : Board δ}
    (h : Leaves (catchUp devices id target) s s') :
    ∃ m, Exec.Run (Board.bus devices id) (s.node id) m ∧ s' = s.put id m := by
  have run := Exec.stepWhile_run (Board.bus devices id) (fun m => decide (m.cpu.timestamp < target))
    (2 * (target - (s.node id).cpu.timestamp)) (s.node id)
  unfold Leaves at h
  rw [catchUp_eq] at h
  refine ⟨_, run, ?_⟩
  simp only at h
  split_ifs at h
  · exact outcome_final _ _ h
  · rcases h with h | ⟨_, h⟩ <;> cases h
    rfl

theorem runProcessors_eq (s : Board δ) :
    runProcessors devices s =
      if 2 * s.now ≤ Schedule.lastTime then
        match catchUp devices .arm9 (2 * s.now) s with
        | .ok _ s₁ => catchUp devices .arm7 s.now s₁
        | .error e s₁ => .error e s₁
      else .error .overrun s := by
  unfold runProcessors
  simp only [bind, EStateM.bind, get_eq, ensureShown_eq]
  split_ifs
  · simp only
    cases catchUp devices .arm9 (2 * s.now) s <;> rfl
  · rfl

theorem runProcessors_run {s s' : Board δ} (h : Leaves (runProcessors devices) s s') :
    ∃ m9 m7, Exec.Run (Board.bus devices .arm9) (s.node .arm9) m9 ∧
      Exec.Run (Board.bus devices .arm7) ((s.put .arm9 m9).node .arm7) m7 ∧
      s' = (s.put .arm9 m9).put .arm7 m7 := by
  unfold Leaves at h
  rw [runProcessors_eq] at h
  by_cases shown : 2 * s.now ≤ Schedule.lastTime
  · rw [if_pos shown] at h
    cases hc : catchUp devices .arm9 (2 * s.now) s with
    | ok _ s₁ =>
      rw [hc] at h
      obtain ⟨m9, run9, rfl⟩ := catchUp_run (.inl hc)
      obtain ⟨m7, run7, rfl⟩ := catchUp_run h
      exact ⟨m9, m7, run9, run7, rfl⟩
    | error e s₁ =>
      rw [hc] at h
      obtain ⟨m9, run9, rfl⟩ := catchUp_run (.inr ⟨e, hc⟩)
      refine ⟨m9, _, run9, .refl, ?_⟩
      rcases h with h | ⟨_, h⟩ <;> cases h
      rfl
  · rw [if_neg shown] at h
    refine ⟨s.node .arm9, _, .refl, .refl, ?_⟩
    rcases h with h | ⟨_, h⟩ <;> cases h
    rfl

/-- What the accesses of both processors keep of the console around them, their running keeps. -/
theorem runProcessors_keeps {R : Hardware δ → Hardware δ → Prop} (keeps : Hardware.Keeps devices R)
    {s s' : Board δ} (h : Leaves (runProcessors devices) s s') : R s.hardware s'.hardware := by
  obtain ⟨m9, m7, run9, run7, rfl⟩ := runProcessors_run h
  have first : R s.hardware m9.system := (keeps .arm9).carries.run run9
  have second : R m9.system m7.system := (keeps .arm7).carries.run (m := (s.put .arm9 m9).node .arm7) run7
  exact keeps.trans first second

/-- The console once its processors have caught up and the clock has moved, which may be too far. -/
def tick (s : Board δ) : Board δ :=
  { s.deliverInterrupts with
    hardware :=
      { s.deliverInterrupts.hardware with schedule := s.hardware.schedule.advance (stepLength s) } }

theorem stepLength_eq (s : Board δ) :
    stepLength s = stride s.hardware.config.longestStep s.hardware.schedule := rfl

def halt (e : Failure) (s : Board δ) : Board δ :=
  { s.note .error ("Emulation stopped: " ++ e.message) with running := false }

theorem advance_eq (limit : Nat) (s : Board δ) :
    advance devices limit s =
      match runProcessors devices s with
      | .ok _ s₁ =>
        if (tick s₁).now ≤ Schedule.lastTime then dispatchDue devices limit (tick s₁)
        else .error .overrun s₁.deliverInterrupts
      | .error e s₁ => .error e (halt e s₁) := by
  unfold advance
  simp only [bind, EStateM.bind, tryCatch, tryCatchThe, MonadExceptOf.tryCatch, EStateM.tryCatch]
  cases runProcessors devices s with
  | error e s₁ => rfl
  | ok _ s₁ =>
    have moved : s₁.deliverInterrupts.now + stepLength s₁.deliverInterrupts = (tick s₁).now := rfl
    simp only [modify_eq, get_eq, ensureShown_eq, moved]
    split_ifs <;> rfl

inductive Dispatched (devices : Devices δ) (s : Board δ) : Board δ → Prop where
  | one {e : Due SystemEvent} {schedule : Schedule SystemEvent}
      (due : s.hardware.schedule.takeDue = (some e, schedule)) :
      Dispatched devices s (dispatch devices e { s with hardware := { s.hardware with schedule } })

theorem dispatchDue_zero (s : Board δ) :
    dispatchDue devices 0 s = if s.hardware.schedule.isDue then .error .flooded s else .ok () s := by
  show (if s.hardware.schedule.isDue then throw Failure.flooded else pure () : Drive δ Unit) s = _
  split_ifs <;> rfl

theorem dispatchDue_succ (limit : Nat) (s : Board δ) :
    dispatchDue devices (limit + 1) s =
      match s.hardware.schedule.takeDue with
      | (none, _) => .ok () s
      | (some e, schedule) =>
        dispatchDue devices limit
          (dispatch devices e { s with hardware := { s.hardware with schedule } }) := by
  simp only [dispatchDue, bind, EStateM.bind, get_eq]
  rcases s.hardware.schedule.takeDue with ⟨_ | e, schedule⟩ <;> rfl

theorem isDue_eq {κ : Type} (schedule : Schedule κ) : schedule.isDue = schedule.takeDue.1.isSome := by
  unfold Schedule.isDue Schedule.takeDue
  cases schedule.events with
  | nil => rfl
  | cons e rest =>
    by_cases due : e.time ≤ schedule.now <;> simp [due]

inductive Dispatches (devices : Devices δ) (s : Board δ) : EStateM.Result Failure (Board δ) Unit → Prop where
  | all {s' : Board δ} (run : Relation.ReflTransGen (Dispatched devices) s s')
      (none : s'.hardware.schedule.isDue = false) : Dispatches devices s (.ok () s')
  | flooded {s' : Board δ} (run : Relation.ReflTransGen (Dispatched devices) s s') :
      Dispatches devices s (.error .flooded s')

theorem dispatchDue_dispatches (devices : Devices δ) (limit : Nat) (s : Board δ) :
    Dispatches devices s (dispatchDue devices limit s) := by
  induction limit generalizing s with
  | zero =>
    rw [dispatchDue_zero]
    split_ifs with due
    · exact .flooded .refl
    · exact .all .refl (Bool.eq_false_iff.2 due)
  | succ limit ih =>
    rw [dispatchDue_succ]
    rcases h : s.hardware.schedule.takeDue with ⟨_ | e, schedule⟩
    · exact .all .refl (by rw [isDue_eq, h]; rfl)
    · have rest := ih (dispatch devices e { s with hardware := { s.hardware with schedule } })
      simp only
      cases hd : dispatchDue devices limit
          (dispatch devices e { s with hardware := { s.hardware with schedule } }) with
      | ok _ s' =>
        rw [hd] at rest
        cases rest with
        | all run none => exact .all (.head (.one h) run) none
      | error e' s' =>
        rw [hd] at rest
        cases rest with
        | flooded run => exact .flooded (.head (.one h) run)

theorem advance_ok {limit : Nat} {s s' : Board δ} (h : advance devices limit s = .ok () s') :
    ∃ s₁, runProcessors devices s = .ok () s₁ ∧ (tick s₁).now ≤ Schedule.lastTime ∧
      Relation.ReflTransGen (Dispatched devices) (tick s₁) s' ∧ s'.hardware.schedule.isDue = false := by
  rw [advance_eq] at h
  cases hr : runProcessors devices s with
  | error e s₁ =>
    rw [hr] at h
    cases h
  | ok _ s₁ =>
    rw [hr] at h
    have dispatched := dispatchDue_dispatches devices limit (tick s₁)
    simp only at h
    split_ifs at h with shown
    rw [h] at dispatched
    cases dispatched with
    | all run none => exact ⟨s₁, rfl, shown, run, none⟩

/-- A failed advance either found a processor that cannot go on, and then did nothing else, or could not move the
clock, or never came to the end of the events that are due. -/
theorem advance_error {limit : Nat} {e : Failure} {s s' : Board δ} (h : advance devices limit s = .error e s') :
    (∃ s₁, runProcessors devices s = .error e s₁ ∧ s' = halt e s₁) ∨ e = .overrun ∨ e = .flooded := by
  rw [advance_eq] at h
  cases hr : runProcessors devices s with
  | error e₁ s₁ =>
    rw [hr] at h
    cases h
    exact .inl ⟨s₁, rfl, rfl⟩
  | ok _ s₁ =>
    rw [hr] at h
    have dispatched := dispatchDue_dispatches devices limit (tick s₁)
    simp only at h
    split_ifs at h with shown
    · rw [h] at dispatched
      cases dispatched
      exact .inr (.inr rfl)
    · cases h
      exact .inr (.inl rfl)

end Drive

end Lockstep.Console
