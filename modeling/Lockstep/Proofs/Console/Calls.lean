import Lockstep.Proofs.Console.Advance

/-!
What callers can do with a console, and what they can bring it to. They can do what they like with the
processors; the rest of the console they reach only through its operations. Whatever they do, no access
becomes free of charge.
-/

namespace Lockstep

theorem Processor.requestInterrupts_zero (p : Processor) : p.requestInterrupts 0 = p := by
  have same : p.interrupts.requested ||| 0 = p.interrupts.requested := BitVec.or_zero
  unfold Processor.requestInterrupts Interrupts.request
  rw [same]

theorem Processor.requestInterrupts_twice (p : Processor) (a b : Word) :
    (p.requestInterrupts a).requestInterrupts b = p.requestInterrupts (a ||| b) := by
  unfold Processor.requestInterrupts Interrupts.request
  rw [BitVec.or_assoc]

namespace Console

variable {δ : Type} {devices : Devices δ}

-- Once the processors have caught up, an advance leaves them alone.

/-- Nothing has changed but the devices and what they can reach. -/
structure Board.Rests (s s' : Board δ) : Prop where
  cpu9 : ∃ lines, s'.cpu9 = s.cpu9.requestInterrupts lines
  cpu7 : ∃ lines, s'.cpu7 = s.cpu7.requestInterrupts lines
  memory : s'.hardware.memory = s.hardware.memory
  control : s'.hardware.control = s.hardware.control
  waitstates : s'.hardware.waitstates = s.hardware.waitstates
  config : s'.hardware.config = s.hardware.config

namespace Board.Rests

variable {s s₁ s' : Board δ}

theorem refl (s : Board δ) : s.Rests s where
  cpu9 := ⟨0, s.cpu9.requestInterrupts_zero.symm⟩
  cpu7 := ⟨0, s.cpu7.requestInterrupts_zero.symm⟩
  memory := rfl
  control := rfl
  waitstates := rfl
  config := rfl

theorem trans (h : s.Rests s₁) (h' : s₁.Rests s') : s.Rests s' where
  cpu9 := by
    obtain ⟨a, ha⟩ := h.cpu9
    obtain ⟨b, hb⟩ := h'.cpu9
    exact ⟨a ||| b, by rw [hb, ha, Processor.requestInterrupts_twice]⟩
  cpu7 := by
    obtain ⟨a, ha⟩ := h.cpu7
    obtain ⟨b, hb⟩ := h'.cpu7
    exact ⟨a ||| b, by rw [hb, ha, Processor.requestInterrupts_twice]⟩
  memory := h'.memory.trans h.memory
  control := h'.control.trans h.control
  waitstates := h'.waitstates.trans h.waitstates
  config := h'.config.trans h.config

theorem dispatch (e : Due SystemEvent) (schedule : Schedule SystemEvent) (s : Board δ) :
    s.Rests (Drive.dispatch devices e { s with hardware := { s.hardware with schedule } }) := by
  rcases e with ⟨_ | event, lateBy⟩
  · obtain ⟨cpu9, cpu7, -⟩ := refl s
    exact ⟨cpu9, cpu7, rfl, rfl, rfl, rfl⟩
  · exact ⟨⟨_, rfl⟩, ⟨_, rfl⟩, rfl, rfl, rfl, rfl⟩

theorem dispatches (h : Relation.ReflTransGen (Drive.Dispatched devices) s s') : s.Rests s' := by
  induction h with
  | refl => exact refl s
  | tail _ one ih =>
    obtain ⟨due⟩ := one
    exact ih.trans (dispatch _ _ _)

theorem tick (s : Board δ) : s.Rests (Drive.tick s) := ⟨⟨_, rfl⟩, ⟨_, rfl⟩, rfl, rfl, rfl, rfl⟩

end Board.Rests

theorem takeDue_now {κ : Type} {s rest : Schedule κ} {e : Option (Due κ)} (h : s.takeDue = (e, rest)) :
    rest.now = s.now := by
  have kept : s.takeDue.2.now = s.now := by
    unfold Schedule.takeDue
    split
    · rfl
    · split_ifs <;> rfl
  rwa [h] at kept

theorem dispatched_now (proper : devices.Proper) {s s' : Board δ} (h : Drive.Dispatched devices s s') :
    s'.now = s.now := by
  obtain ⟨due⟩ := h
  rename_i e schedule
  have taken : schedule.now = s.now := takeDue_now due
  rcases e with ⟨_ | event, lateBy⟩
  · exact taken
  · obtain ⟨acts, performed⟩ := proper.handle event lateBy s.hardware.devices
      { schedule, raised := s.hardware.raised, journal := s.journal }
    exact performed.now.trans taken

theorem dispatches_now (proper : devices.Proper) {s s' : Board δ}
    (h : Relation.ReflTransGen (Drive.Dispatched devices) s s') : s'.now = s.now := by
  induction h with
  | refl => rfl
  | tail _ one ih => exact (dispatched_now proper one).trans ih

theorem runProcessors_config {s s' : Board δ} (h : Drive.Leaves (Drive.runProcessors devices) s s') :
    s'.hardware.config = s.hardware.config ∧
      (s.hardware.waitstates.Positive → s'.hardware.waitstates.Positive) :=
  Drive.runProcessors_keeps (Hardware.config_keeps devices) h

theorem runProcessors_now (proper : devices.Proper) {s s' : Board δ}
    (h : Drive.Leaves (Drive.runProcessors devices) s s') : s'.now = s.now :=
  Drive.runProcessors_keeps (Hardware.now_keeps devices proper) h

/-- An advance moves the clock, but not far. -/
theorem advance_now (proper : devices.Proper) {limit : Nat} {s s' : Board δ}
    (h : Drive.advance devices limit s = .ok () s') :
    s.now + 1 ≤ s'.now ∧ s'.now ≤ s.now + max s.hardware.config.longestStep 1 := by
  obtain ⟨s₁, ran, -, dispatched, -⟩ := Drive.advance_ok h
  have now : s₁.now = s.now := runProcessors_now proper (.inl ran)
  have config := (runProcessors_config (.inl ran)).1
  have moved : s'.now = s₁.now + Drive.stepLength s₁ := dispatches_now proper dispatched
  rw [Drive.stepLength_eq, config] at moved
  have least := stride_pos s.hardware.config.longestStep s₁.hardware.schedule
  have most := stride_le s.hardware.config.longestStep s₁.hardware.schedule
  omega

/-- It does not overrun the clock. -/
theorem advance_shown (proper : devices.Proper) {limit : Nat} {s s' : Board δ}
    (h : Drive.advance devices limit s = .ok () s') : s'.now ≤ Schedule.lastTime := by
  obtain ⟨s₁, -, shown, dispatched, -⟩ := Drive.advance_ok h
  rwa [dispatches_now proper dispatched]

/-- What callers can do with a console that goes on. An advance that never comes to the end of its events or that
overruns a clock is not among it, as it does not return. -/
inductive Board.Call (devices : Devices δ) : Board δ → Board δ → Prop where
  | advance (limit : Nat) {s s' : Board δ} (h : Drive.advance devices limit s = .ok () s') : Call devices s s'
  | failed (limit : Nat) {s s' : Board δ} {e : Failure} (h : Drive.advance devices limit s = .error e s')
      (returns : ¬(e = .overrun ∨ e = .flooded)) : Call devices s s'
  | processors (s : Board δ) (cpu9 cpu7 : Processor) (running : Bool) :
      Call devices s { s with cpu9, cpu7, running }
  | enterProgram (s : Board δ) (entry9 entry7 : Address) : Call devices s (s.enterProgram entry9 entry7)
  | schedule (s : Board δ) (e : DeviceEvent) (delay : Nat) : Call devices s (s.scheduleAfter e delay)
  | read (s : Board δ) (id : ProcessorId) (a : Address) : Call devices s (s.readWord devices id a).2
  | write (s : Board δ) (id : ProcessorId) (a : Address) (v : Word) :
      Call devices s (s.writeWord devices id a v)
  | writeBytes (s : Board δ) (id : ProcessorId) (a : Address) (bytes : List (BitVec 8)) :
      Call devices s (s.writeBytes devices id a bytes)

/-- A console that was switched on, and that has since been called, and reset, any number of times. -/
def Board.Reachable (devices : Devices δ) (s : Board δ) : Prop :=
  ∃ config d, Relation.ReflTransGen (fun s s' => Board.Call devices s s' ∨ s' = s.reset)
    (.powerOn config d) s

section
variable {R : Hardware δ → Hardware δ → Prop} (keeps : Hardware.Keeps devices R)
include keeps

theorem readWord_keeps (s : Board δ) (id : ProcessorId) (a : Address) :
    R s.hardware (s.readWord devices id a).2.hardware := by
  have read := (keeps id).carries.calls.get .word a (s.node id)
  unfold Board.readWord
  rw [Board.withNode_eq]
  cases id <;> exact read

theorem writeWord_keeps (s : Board δ) (id : ProcessorId) (a : Address) (v : Word) :
    R s.hardware (s.writeWord devices id a v).hardware := by
  have written := (keeps id).carries.calls.set .word a (Width.word.truncate v) (s.node id)
  unfold Board.writeWord
  rw [Board.withNode_eq]
  cases id <;> exact written

theorem writeBytes_keeps (s : Board δ) (id : ProcessorId) (a : Address) (bytes : List (BitVec 8)) :
    R s.hardware (s.writeBytes devices id a bytes).hardware := by
  unfold Board.writeBytes
  induction bytes generalizing s a with
  | nil => exact keeps.refl s.hardware
  | cons b rest ih =>
    have written := (keeps id).carries.calls.set .byte a (Width.byte.truncate (b.setWidth 32)) (s.node id)
    have further := ih (s.put id ((Board.bus devices id).store .byte a (b.setWidth 32) (s.node id))) (a + 1)
    unfold Board.storeBytes
    simp only [Board.withNode_eq]
    cases id <;> exact keeps.trans written further

variable (rests : ∀ {s s' : Board δ}, s.Rests s' → R s.hardware s'.hardware)
include rests

theorem advance_keeps {limit : Nat} {s s' : Board δ} (h : Drive.advance devices limit s = .ok () s') :
    R s.hardware s'.hardware := by
  obtain ⟨s₁, ran, -, dispatched, -⟩ := Drive.advance_ok h
  have caught : R s.hardware s₁.hardware := Drive.runProcessors_keeps keeps (.inl ran)
  exact keeps.trans caught (rests ((Board.Rests.tick s₁).trans (.dispatches dispatched)))

theorem Board.Call.kept {s s' : Board δ} (h : Board.Call devices s s') : R s.hardware s'.hardware := by
  have around (hardware : Hardware δ) (memory : hardware.memory = s.hardware.memory)
      (control : hardware.control = s.hardware.control)
      (waitstates : hardware.waitstates = s.hardware.waitstates)
      (config : hardware.config = s.hardware.config) : R s.hardware hardware := by
    obtain ⟨cpu9, cpu7, -⟩ := Board.Rests.refl s
    exact @rests s { s with hardware } ⟨cpu9, cpu7, memory, control, waitstates, config⟩
  cases h with
  | advance limit h => exact advance_keeps keeps rests h
  | @failed limit _ _ e h returns =>
    obtain ⟨s₁, ran, rfl⟩ := (Drive.advance_error h).resolve_right returns
    have caught : R s.hardware s₁.hardware := Drive.runProcessors_keeps keeps (.inr ⟨e, ran⟩)
    exact caught
  | processors => exact keeps.refl _
  | enterProgram | schedule => exact around _ rfl rfl rfl rfl
  | read _ id a => exact readWord_keeps keeps s id a
  | write _ id a v => exact writeWord_keeps keeps s id a v
  | writeBytes _ id a bytes => exact writeBytes_keeps keeps s id a bytes

end

theorem Board.Rests.sameConfig {s s' : Board δ} (h : s.Rests s') :
    s'.hardware.config = s.hardware.config ∧
      (s.hardware.waitstates.Positive → s'.hardware.waitstates.Positive) :=
  ⟨h.config, fun positive => h.waitstates ▸ positive⟩

theorem advance_config {limit : Nat} {s s' : Board δ} (h : Drive.advance devices limit s = .ok () s') :
    s'.hardware.config = s.hardware.config ∧
      (s.hardware.waitstates.Positive → s'.hardware.waitstates.Positive) :=
  advance_keeps (Hardware.config_keeps devices) Board.Rests.sameConfig h

/-- No call changes the configuration or makes any access free of charge. -/
theorem Board.Call.config {s s' : Board δ} (h : Board.Call devices s s') :
    s'.hardware.config = s.hardware.config ∧
      (s.hardware.waitstates.Positive → s'.hardware.waitstates.Positive) :=
  h.kept (Hardware.config_keeps devices) Board.Rests.sameConfig

theorem Board.Reachable.positive {s : Board δ} (h : s.Reachable devices) :
    s.hardware.waitstates.Positive := by
  obtain ⟨config, d, run⟩ := h
  induction run with
  | refl => exact Waitstates.initial_positive
  | tail _ called ih =>
    rcases called with called | rfl
    · exact called.config.2 ih
    · exact Waitstates.initial_positive

end Console

end Lockstep
