import Lockstep.Proofs.Console.Calls

/-!
The two processors run in step with the system clock. Each advance lets first the ARM9 and then the ARM7
catch up; a processor is stepped only while it is behind, so it is ahead by less than its last step took.
A step that fails ends all of this at once, before the clock moves. Running for some cycles is advancing
until the clock has come far enough. All of this is said of clocks of 64 bits: where a clock would have to go
further, nothing succeeds.
-/

namespace Lockstep.Console

variable {δ : Type} {devices : Devices δ}

/-- A processor catches up with its clock: it is stepped while it is behind, and not once it is not. -/
structure Node.CatchesUp (devices : Devices δ) (id : ProcessorId) (target : Nat) (m m' : Node δ) : Prop where
  ends : Ends (Node.Behind target) (Exec.step (Board.bus devices id)) m (.ok () m')
  reached : target ≤ m'.cpu.timestamp
  shown : m'.Shown
  idle : target ≤ m.cpu.timestamp → m' = m
  /-- What a processor is ahead, its last step took. -/
  last : m' = m ∨ ∃ m₁, Rounds (Node.Behind target) (Exec.step (Board.bus devices id)) m m₁ ∧
    m₁.cpu.timestamp < target ∧ Exec.step (Board.bus devices id) m₁ = .ok () m' ∧
    m'.cpu.timestamp - target < m'.cpu.timestamp - m₁.cpu.timestamp

theorem Node.CatchesUp.of_ends {id : ProcessorId} {target : Nat} {m m' : Node δ}
    (ends : Ends (Node.Behind target) (Exec.step (Board.bus devices id)) m (.ok () m')) (shown : m'.Shown) :
    Node.CatchesUp devices id target m m' := by
  have ended := ends
  cases ended with
  | done rounds finished =>
    have reached : target ≤ m'.cpu.timestamp := Nat.not_lt.1 finished
    refine ⟨ends, reached, shown, fun ahead => rounds.finished (Nat.not_lt.2 ahead), ?_⟩
    rcases rounds.cases_tail with same | ⟨m₁, before, behind, stepped⟩
    · exact .inl same
    · have behind : m₁.cpu.timestamp < target := behind
      exact .inr ⟨m₁, before, behind, stepped, by omega⟩

namespace Drive

variable {s s' : Board δ}

/-- A step of a processor fails while the processors catch up; the console is left as that step left it. -/
inductive Fails (devices : Devices δ) (s : Board δ) : ProcessorId → Fault → Board δ → Prop where
  | arm9 {m : Node δ} {e : Fault} (due : 2 * s.now ≤ Schedule.lastTime)
      (ends : Ends (Node.Behind (2 * s.now)) (Exec.step (Board.bus devices .arm9))
        ⟨s.cpu9, s.hardware, s.journal⟩ (.error e m)) (shown : m.Shown) :
      Fails devices s .arm9 e { s with cpu9 := m.cpu, hardware := m.system, journal := m.journal }
  | arm7 {m9 m : Node δ} {e : Fault} (due : 2 * s.now ≤ Schedule.lastTime)
      (first : Node.CatchesUp devices .arm9 (2 * s.now) ⟨s.cpu9, s.hardware, s.journal⟩ m9)
      (ends : Ends (Node.Behind s.now) (Exec.step (Board.bus devices .arm7))
        ⟨s.cpu7, m9.system, m9.journal⟩ (.error e m)) (shown : m.Shown) :
      Fails devices s .arm7 e
        { s with cpu9 := m9.cpu, cpu7 := m.cpu, hardware := m.system, journal := m.journal }

inductive Paces (devices : Devices δ) (s : Board δ) : EStateM.Result Failure (Board δ) Unit → Prop where
  | caught {m9 m7 : Node δ} (due : 2 * s.now ≤ Schedule.lastTime)
      (first : Node.CatchesUp devices .arm9 (2 * s.now) ⟨s.cpu9, s.hardware, s.journal⟩ m9)
      (second : Node.CatchesUp devices .arm7 s.now ⟨s.cpu7, m9.system, m9.journal⟩ m7) :
      Paces devices s (.ok ()
        { s with cpu9 := m9.cpu, cpu7 := m7.cpu, hardware := m7.system, journal := m7.journal })
  | failed {id : ProcessorId} {e : Fault} {s₁ : Board δ} (fails : Fails devices s id e s₁) :
      Paces devices s (.error (.stopped id e) s₁)
  | stalled (id : ProcessorId) (s₁ : Board δ) : Paces devices s (.error (.stalled id) s₁)
  | overrun (s₁ : Board δ) : Paces devices s (.error .overrun s₁)

theorem catchesUp_positive {id : ProcessorId} {target : Nat} {m m' : Node δ}
    (positive : m.system.waitstates.Positive) (h : Node.CatchesUp devices id target m m') :
    m'.system.waitstates.Positive := by
  cases h.ends with
  | done rounds _ => exact rounds_waitstates positive rounds

theorem due_arm7 {now : Nat} (due : 2 * now ≤ Schedule.lastTime) : now ≤ Schedule.lastTime := by omega

theorem runProcessors_paces (devices : Devices δ) (positive : s.hardware.waitstates.Positive) :
    Paces devices s (runProcessors devices s) := by
  rw [runProcessors_eq]
  by_cases due : 2 * s.now ≤ Schedule.lastTime
  case neg =>
    rw [if_neg due]
    exact .overrun s
  have pursuit9 := catchUp_pursuit devices .arm9 s positive due
  rw [if_pos due]
  generalize catchUp devices .arm9 (2 * s.now) s = r9 at pursuit9
  cases pursuit9 with
  | stopped ends shown => exact .failed (.arm9 due ends shown)
  | stalled => exact .stalled _ _
  | overrun => exact .overrun _
  | @caught m9 ends shown =>
    have first := Node.CatchesUp.of_ends ends shown
    have positive9 := catchesUp_positive positive first
    have pursuit7 := catchUp_pursuit devices .arm7 (s.put .arm9 m9) positive9 (due_arm7 due)
    simp only
    generalize catchUp devices .arm7 s.now (s.put .arm9 m9) = r7 at pursuit7
    cases pursuit7 with
    | caught ends shown => exact .caught due first (.of_ends ends shown)
    | stopped ends shown => exact .failed (.arm7 due first ends shown)
    | stalled => exact .stalled _ _
    | overrun => exact .overrun _

theorem advanceUntil_succ (limit target steps : Nat) (s : Board δ) :
    advanceUntil devices limit target (steps + 1) s =
      if s.running = true ∧ s.now < target then
        match advance devices limit s with
        | .ok _ s₁ => advanceUntil devices limit target steps s₁
        | .error e s₁ => .error e s₁
      else .ok () s := by
  show (if s.running && decide (s.now < target) then do
      advance devices limit
      advanceUntil devices limit target steps
    else pure () : Drive δ Unit) s = _
  by_cases underway : s.running = true ∧ s.now < target
  · rw [if_pos underway, if_pos (by simpa using underway)]
    show EStateM.bind _ _ s = _
    unfold EStateM.bind
    cases advance devices limit s <;> rfl
  · rw [if_neg underway, if_neg (by simpa using underway)]
    rfl

/-- What a run is for: to advance while nothing pauses the console and the clock is not there yet. -/
def Underway (target : Nat) (s : Board δ) : Prop := s.running = true ∧ s.now < target

theorem advanceUntil_ends (proper : devices.Proper) (limit target steps : Nat) (s : Board δ)
    (enough : target - s.now ≤ steps) :
    Ends (Underway target) (advance devices limit) s (advanceUntil devices limit target steps s) := by
  induction steps generalizing s with
  | zero => exact .done .refl fun underway => absurd underway.2 (by omega)
  | succ steps ih =>
    rw [advanceUntil_succ]
    split_ifs with underway
    · cases ha : advance devices limit s with
      | error e s₁ => exact .failed .refl underway ha
      | ok _ s₁ =>
        have moved := (advance_now proper ha).1
        exact (ih s₁ (by omega)).head underway ha
    · exact .done .refl underway

theorem runFor_eq (limit cycles : Nat) (s : Board δ) :
    runFor devices limit cycles s =
      if s.now + cycles ≤ Schedule.lastTime then
        advanceUntil devices limit (s.now + cycles) cycles { s with running := true }
      else .error .overrun s := by
  unfold runFor
  simp only [bind, EStateM.bind, get_eq, modify_eq, ensureShown_eq]
  split_ifs <;> rfl

theorem runFor_ends (proper : devices.Proper) (limit : Nat) {cycles : Nat} {s : Board δ}
    (due : s.now + cycles ≤ Schedule.lastTime) :
    Ends (Underway (s.now + cycles)) (advance devices limit) { s with running := true }
      (runFor devices limit cycles s) := by
  rw [runFor_eq, if_pos due]
  exact advanceUntil_ends proper limit (s.now + cycles) cycles { s with running := true }
    (Nat.le_of_eq (Nat.add_sub_cancel_left _ _))

end Drive

/-- A console whose clock has moved by a cycle, with both processors asleep. -/
def napping : Board Unit :=
  { Drive.tick (.powerOn { longestStep := 1 } ()) with
    cpu9 := { Processor.powerOn .v5 with halted := true }
    cpu7 := { Processor.powerOn .v4 with halted := true } }

theorem Devices.none_proper : Devices.none.Proper where
  read _ _ _ _ := ⟨[], rfl, rfl⟩
  write _ _ _ _ _ _ := ⟨[], rfl, rfl⟩
  handle _ _ _ _ := ⟨[], rfl, rfl⟩

theorem napping_reachable : napping.Reachable .none :=
  ⟨{ longestStep := 1 }, (), .tail (.single (.inl (.advance 1 rfl))) (.inl (.processors _ _ _ _))⟩

end Lockstep.Console
