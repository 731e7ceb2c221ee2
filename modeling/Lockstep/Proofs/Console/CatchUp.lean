import Lockstep.Proofs.Console.Spares
import Lockstep.Proofs.InterruptEntry
import Lockstep.Proofs.Loop

/-!
Catching up with the system clock. Every instruction takes time, so twice the missing cycles are steps
enough: letting a processor catch up is stepping it while it is behind. Only a processor that is halted,
whose naps take no time and that nothing wakes, never catches up. A clock that goes past its last time ends it,
too, and does so in the last step, as nothing waits for a later time.
-/

namespace Lockstep

/-- A fetch waits for an access, and then loads. -/
theorem Bus.fetch_eq {σ : Type} (bus : Bus σ) (m : Machine σ) :
    ∃ w a b k f, bus.fetch m = bus.load w b ((bus.wait w a k (m.mapRegs f)).setFetchKind .sequel) :=
  ⟨_, _, _, _, _, rfl⟩

namespace Console

variable {δ : Type} {m m' : Node δ}

section
variable (devices : Devices δ) (id : ProcessorId)

theorem waitTime_self (w : Width) (a : Address) (k : Access) (m : Node δ) :
    ((Board.bus devices id).waitTime w a k m).2 = m := by
  cases id <;> rfl

theorem waitTime_pos (h : m.system.waitstates.Positive) (w : Width) (a : Address) (k : Access) :
    1 ≤ ((Board.bus devices id).waitTime w a k m).1 := by
  cases id with
  | arm7 => exact Waitstates.get_pos h .arm7 a _
  | arm9 =>
    have beyond := Waitstates.get_pos h .arm9 a (.of w k)
    show 1 ≤ waitTime9 w a k m.system
    unfold waitTime9
    simp only
    split_ifs <;> omega

theorem bus_dozeLength : (Board.bus devices id).dozeLength = (·.config.dozeLength) := by
  cases id <;> rfl

theorem keepsWaiting_sameLines : (Board.bus devices id).KeepsWaiting Machine.SameLines := by
  intro w a k m
  rw [waitTime_self]
  exact ⟨rfl, rfl, rfl⟩

theorem wait_timestamp (h : m.system.waitstates.Positive) (w : Width) (a : Address) (k : Access) :
    m.cpu.timestamp < ((Board.bus devices id).wait w a k m).cpu.timestamp := by
  have some := waitTime_pos devices id h w a k
  have same := waitTime_self devices id w a k m
  show m.cpu.timestamp < (((Board.bus devices id).waitTime w a k m).2.idle _).cpu.timestamp
  rw [same]
  exact Nat.lt_add_of_pos_right some

end

variable {devices : Devices δ} {id : ProcessorId}

/-- A fetch takes time. -/
theorem fetched_timestamp (h : m.system.waitstates.Positive) :
    m.cpu.timestamp < (Exec.fetched (Board.bus devices id) m).2.cpu.timestamp := by
  obtain ⟨w, a, b, k, f, fetch⟩ := (Board.bus devices id).fetch_eq m
  have waited := wait_timestamp devices id (m := m.mapRegs f) h w a k
  have loaded := (Node.timestamp_keeps devices id).carries.calls.get w b
    (((Board.bus devices id).wait w a k (m.mapRegs f)).setFetchKind .sequel)
  unfold Exec.fetched
  simp only [trace_cpu]
  rw [fetch]
  exact Nat.lt_of_lt_of_le waited loaded

theorem instruction_timestamp (h : m.system.waitstates.Positive) (running : m.cpu.halted = false)
    (hs : Exec.step (Board.bus devices id) m = .ok () m') : m.cpu.timestamp < m'.cpu.timestamp := by
  have keeps := (Node.timestamp_keeps devices id).carries
  obtain ⟨m₁, hw, rfl⟩ := Exec.step_ok _ _ hs
  rw [Exec.work_eq, running, if_neg Bool.false_ne_true, Exec.instruction_eq] at hw
  have executed := keeps.execute m.cpu.isThumb (Exec.fetched (Board.bus devices id) m).1
    (Exec.fetched (Board.bus devices id) m).2
  simp only [Exec.final, hw] at executed
  exact Nat.lt_of_lt_of_le (fetched_timestamp h) (Nat.le_trans executed (keeps.settle m₁))

/-- A step takes time, or it wakes the processor, or it has no effect at all. -/
theorem step_progress (h : m.system.waitstates.Positive)
    (hs : Exec.step (Board.bus devices id) m = .ok () m') :
    m.cpu.timestamp < m'.cpu.timestamp ∨
      m.cpu.timestamp ≤ m'.cpu.timestamp ∧ m.cpu.halted = true ∧ m'.cpu.halted = false ∨
      m' = m ∧ m.cpu.halted = true ∧ m.system.config.dozeLength = 0 ∧
        m.cpu.interrupts.hasPending = false := by
  cases running : m.cpu.halted with
  | false => exact .inl (instruction_timestamp h running hs)
  | true =>
    have later := (Node.timestamp_keeps devices id).carries.step m
    simp only [Exec.final, hs] at later
    rw [Exec.step_halted running] at hs
    simp only [bus_dozeLength] at hs
    cases pending : m.cpu.interrupts.hasPending with
    | false =>
      rw [pending, if_neg Bool.false_ne_true] at hs
      obtain rfl := (EStateM.Result.ok.injEq _ _ _ _).mp hs |>.2
      rcases Nat.eq_zero_or_pos m.system.config.dozeLength with none | some
      · refine .inr (.inr ⟨?_, rfl, none, rfl⟩)
        rw [none]
        rfl
      · exact .inl (Nat.lt_add_of_pos_right some)
    | true =>
      refine .inr (.inl ⟨later, rfl, ?_⟩)
      rw [pending, if_pos rfl] at hs
      obtain rfl := (EStateM.Result.ok.injEq _ _ _ _).mp hs |>.2
      split_ifs
      · exact (Bus.enter_lines (keepsWaiting_sameLines devices id) _ _ _).2.1
      · rfl

def Node.Behind (target : Nat) (m : Node δ) : Prop := m.cpu.timestamp < target

def Node.Shown (m : Node δ) : Prop := m.cpu.timestamp ≤ Schedule.lastTime

/-- A processor that waits for ever: it is halted, no time passes while it naps, and nothing wakes it. -/
structure Node.Stalled (m : Node δ) : Prop where
  halted : m.cpu.halted = true
  dozeLength : m.system.config.dozeLength = 0
  pending : m.cpu.interrupts.hasPending = false

/-- At most so many steps are left for a processor that is not stalled: two for each missing cycle, of which
one may be needed to wake it up. -/
def Node.stepsLeft (target : Nat) (m : Node δ) : Nat :=
  2 * (target - m.cpu.timestamp) - if m.cpu.halted then 0 else 1

/-- Time must pass in each step that does not wake a processor up. -/
theorem stepsLeft_decreases (target : Nat) (h : m.system.waitstates.Positive) (behind : m.Behind target)
    (hs : Exec.step (Board.bus devices id) m = .ok () m') :
    m'.stepsLeft target < m.stepsLeft target ∨ m' = m := by
  unfold Node.Behind at behind
  unfold Node.stepsLeft
  rcases step_progress h hs with later | ⟨later, halted, woken⟩ | ⟨same, -⟩
  · left
    split_ifs <;> omega
  · left
    rw [halted, woken]
    simp only [if_true, Bool.false_eq_true, if_false]
    omega
  · exact .inr same

theorem step_waitstates (h : m.system.waitstates.Positive)
    (hs : Exec.step (Board.bus devices id) m = .ok () m') : m'.system.waitstates.Positive := by
  have kept := (Hardware.config_keeps devices id).carries.step m
  simp only [Exec.final, hs] at kept
  exact kept.2 h

theorem rounds_waitstates {p : Node δ → Prop} (h : m.system.waitstates.Positive)
    (rounds : Rounds p (Exec.step (Board.bus devices id)) m m') : m'.system.waitstates.Positive := by
  induction rounds with
  | refl => exact h
  | tail _ round ih => exact step_waitstates ih round.2

theorem stalled_of_step (h : m.system.waitstates.Positive)
    (hs : Exec.step (Board.bus devices id) m = .ok () m) : m.Stalled := by
  rcases step_progress h hs with later | ⟨-, halted, woken⟩ | ⟨-, halted, dozes, pending⟩
  · exact absurd later (Nat.lt_irrefl _)
  · cases halted.symm.trans woken
  · exact ⟨halted, dozes, pending⟩

/-- With two steps for each missing cycle, a processor is stepped until it has caught up, or fails, or is
found stalled. -/
theorem stepWhile_behind (devices : Devices δ) (id : ProcessorId) (target : Nat) (h : m.system.waitstates.Positive) :
    Exec.Stepped (Board.bus devices id) (fun m => decide (m.cpu.timestamp < target)) m
      (Exec.stepWhile (Board.bus devices id) (fun m => decide (m.cpu.timestamp < target))
        (2 * (target - m.cpu.timestamp)) m) := by
  refine Exec.stepWhile_stepped (fun m => m.system.waitstates.Positive) (Node.stepsLeft target)
    ?_ ?_ h (Nat.sub_le _ _)
  · intro m behind
    have behind := of_decide_eq_true behind
    unfold Node.stepsLeft
    split_ifs <;> omega
  · intro m m' h behind hs
    have behind := of_decide_eq_true behind
    exact ⟨step_waitstates h hs, stepsLeft_decreases target h behind hs⟩

namespace Board

variable (s : Board δ)

def node (id : ProcessorId) : Node δ := ⟨s.processor id, s.hardware, s.journal⟩

def put (id : ProcessorId) (m : Node δ) : Board δ :=
  match id with
  | .arm7 => { s with cpu7 := m.cpu, hardware := m.system, journal := m.journal }
  | .arm9 => { s with cpu9 := m.cpu, hardware := m.system, journal := m.journal }

theorem withNode_eq {α : Type} (id : ProcessorId) (act : Node δ → α × Node δ) :
    s.withNode id act = ((act (s.node id)).1, s.put id (act (s.node id)).2) := by
  cases id <;> rfl

end Board

namespace Drive

inductive Pursuit (devices : Devices δ) (id : ProcessorId) (target : Nat) (s : Board δ) :
    EStateM.Result Failure (Board δ) Unit → Prop where
  | caught {m : Node δ} (ends : Ends (Node.Behind target) (Exec.step (Board.bus devices id)) (s.node id)
      (.ok () m)) (shown : m.Shown) : Pursuit devices id target s (.ok () (s.put id m))
  | stopped {m : Node δ} {e : Fault} (ends : Ends (Node.Behind target) (Exec.step (Board.bus devices id))
      (s.node id) (.error e m)) (shown : m.Shown) : Pursuit devices id target s (.error (.stopped id e) (s.put id m))
  | stalled {m : Node δ} (rounds : Rounds (Node.Behind target) (Exec.step (Board.bus devices id))
      (s.node id) m) (behind : m.Behind target) (stalled : m.Stalled)
      (same : Exec.step (Board.bus devices id) m = .ok () m) :
      Pursuit devices id target s (.error (.stalled id) (s.put id m))
  | overrun {m : Node δ} {r : EStateM.Result Fault (Node δ) Unit}
      (ends : Ends (Node.Behind target) (Exec.step (Board.bus devices id)) (s.node id) r)
      (last : r = .ok () m ∨ ∃ e, r = .error e m) (late : ¬m.Shown) :
      Pursuit devices id target s (.error .overrun (s.put id m))

theorem get_eq (s : Board δ) : (get : Drive δ (Board δ)) s = .ok s s := rfl

theorem modifyGet_eq {α : Type} (f : Board δ → α × Board δ) (s : Board δ) :
    (modifyGet f : Drive δ α) s = .ok (f s).1 (f s).2 := rfl

theorem modify_eq (f : Board δ → Board δ) (s : Board δ) : (modify f : Drive δ Unit) s = .ok () (f s) := rfl

theorem ensureShown_eq (time : Nat) (s : Board δ) :
    (ensureShown time : Drive δ Unit) s = if time ≤ Schedule.lastTime then .ok () s else .error .overrun s := by
  unfold ensureShown
  split_ifs <;> rfl

theorem put_processor (s : Board δ) (id : ProcessorId) (m : Node δ) : (s.put id m).processor id = m.cpu := by
  cases id <;> rfl

def outcome (id : ProcessorId) (s : Board δ) :
    EStateM.Result Fault (Node δ) Bool → EStateM.Result Failure (Board δ) Unit
  | .ok true m => .ok () (s.put id m)
  | .ok false m => .error (.stalled id) (s.put id m)
  | .error e m => .error (.stopped id e) (s.put id m)

theorem catchUp_eq (target : Nat) (s : Board δ) :
    catchUp devices id target s =
      let run := Exec.stepWhile (Board.bus devices id) (fun m => decide (m.cpu.timestamp < target))
        (2 * (target - (s.node id).cpu.timestamp))
      if (run.final (s.node id)).cpu.timestamp ≤ Schedule.lastTime then outcome id s (run (s.node id))
      else .error .overrun (s.put id (run.final (s.node id))) := by
  have started : (s.processor id).timestamp = (s.node id).cpu.timestamp := rfl
  unfold catchUp Exec.final
  simp only [bind, EStateM.bind, get_eq, modifyGet_eq, Board.withNode_eq, EStateM.run, started, ensureShown_eq]
  generalize Exec.stepWhile (Board.bus devices id) _ _ (s.node id) = r
  rcases r with ⟨_ | _, m⟩ | ⟨e, m⟩ <;> simp only [put_processor] <;> split_ifs <;> rfl

theorem behind_eq (δ : Type) (target : Nat) :
    (fun m : Node δ => decide (m.cpu.timestamp < target) = true) = Node.Behind target :=
  funext fun _ => decide_eq_true_eq

theorem catchUp_pursuit (devices : Devices δ) (id : ProcessorId) {target : Nat} (s : Board δ)
    (h : s.hardware.waitstates.Positive) (due : target ≤ Schedule.lastTime) :
    Pursuit devices id target s (catchUp devices id target s) := by
  have stepped := stepWhile_behind devices id target (m := s.node id) h
  rw [catchUp_eq]
  unfold Exec.final
  simp only
  cases hr : Exec.stepWhile (Board.bus devices id) (fun m => decide (m.cpu.timestamp < target))
      (2 * (target - (s.node id).cpu.timestamp)) (s.node id) with
  | error e m =>
    rw [hr] at stepped
    cases stepped with
    | failed ends =>
      simp only
      split_ifs with shown
      · exact .stopped (behind_eq δ target ▸ ends) shown
      · exact .overrun (behind_eq δ target ▸ ends) (.inr ⟨e, rfl⟩) shown
  | ok answer m =>
    rw [hr] at stepped
    cases stepped with
    | done ends =>
      simp only
      split_ifs with shown
      · exact .caught (behind_eq δ target ▸ ends) shown
      · exact .overrun (behind_eq δ target ▸ ends) (.inl rfl) shown
    | stuck rounds going same =>
      have stalled := stalled_of_step (rounds_waitstates h rounds) same
      have behind := of_decide_eq_true going
      have shown : m.cpu.timestamp ≤ Schedule.lastTime := Nat.le_trans (Nat.le_of_lt behind) due
      simp only
      rw [if_pos shown]
      exact .stalled (behind_eq δ target ▸ rounds) behind stalled same

/-- There is one way in which catching up can end. -/
theorem Pursuit.unique {target : Nat} {s : Board δ} {r r' : EStateM.Result Failure (Board δ) Unit}
    (h : Pursuit devices id target s r) (h' : Pursuit devices id target s r') : r = r' := by
  cases h with
  | caught ends shown =>
    cases h' with
    | caught ends' =>
      cases ends.unique ends'
      rfl
    | stopped ends' => cases ends.unique ends'
    | stalled rounds behind _ same => exact absurd ends (Ends.not_of_stuck rounds behind same)
    | overrun ends' last late =>
      rcases ends.unique ends' ▸ last with ⟨⟨⟩⟩ | ⟨_, ⟨⟩⟩
      exact absurd shown late
  | stopped ends shown =>
    cases h' with
    | caught ends' => cases ends.unique ends'
    | stopped ends' =>
      cases ends.unique ends'
      rfl
    | stalled rounds behind _ same => exact absurd ends (Ends.not_of_stuck rounds behind same)
    | overrun ends' last late =>
      rcases ends.unique ends' ▸ last with ⟨⟨⟩⟩ | ⟨_, ⟨⟩⟩
      exact absurd shown late
  | stalled rounds behind _ same =>
    cases h' with
    | caught ends | stopped ends | overrun ends => exact absurd ends (Ends.not_of_stuck rounds behind same)
    | stalled rounds' _ _ same' =>
      obtain rfl := rounds.meet rounds' (fun _ more => more.stuck same) fun _ more => more.stuck same'
      rfl
  | overrun ends last late =>
    cases h' with
    | caught ends' shown | stopped ends' shown =>
      rcases ends'.unique ends ▸ last with ⟨⟨⟩⟩ | ⟨_, ⟨⟩⟩
      exact absurd shown late
    | stalled rounds behind _ same => exact absurd ends (Ends.not_of_stuck rounds behind same)
    | overrun ends' last' =>
      obtain rfl := ends.unique ends'
      rcases last with rfl | ⟨_, rfl⟩ <;> rcases last' with ⟨⟨⟩⟩ | ⟨_, ⟨⟩⟩ <;> rfl

end Drive

end Console

end Lockstep
