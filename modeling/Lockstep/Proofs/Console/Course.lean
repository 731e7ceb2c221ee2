import Lockstep.Proofs.Console.Calls
import Lockstep.Proofs.ScheduleQueue

/-!
The console as its devices see it. They are called when a register of theirs is read or written and when an
event of theirs comes, and what they do then, they do to the schedule. In between, events are planned from
outside, and the clock moves. When it has moved, the events that are due come one after the other, until none
is left. All that is done to the schedule is logged. Whatever is done with a console, its devices and its
schedule take such a course.
-/

namespace Lockstep.Console

inductive Doing where
  /-- An event was planned at some time, either by the handler of an event or not. -/
  | planned (byHandler : Bool) (now : Nat) (e : SystemEvent) (delay : Nat)
  | cancelled (e : SystemEvent)
  | passed (cycles : Nat)
  /-- An event came out at some time and was handled. -/
  | handled (now : Nat) (e : Due SystemEvent)

namespace Doing

def operation : Doing → Schedule.Operation SystemEvent
  | planned _ _ e delay => .planAfter e delay
  | cancelled e => .cancel e
  | passed cycles => .advance cycles
  | handled _ _ => .takeDue

def ofAction (byHandler : Bool) (now : Nat) : Action → List Doing
  | .raise _ _ => []
  | .plan e delay => [planned byHandler now (.device e) delay]
  | .cancel e => [cancelled (.device e)]
  | .pause => [planned byHandler now .pause 0]

def ofActions (byHandler : Bool) (now : Nat) (acts : List Action) : List Doing :=
  acts.flatMap (ofAction byHandler now)

/-- The call of the devices that handling an event takes: the event, how late it is, and the time. -/
def call? : Doing → Option (DeviceEvent × Nat × Nat)
  | handled now ⟨.device e, lateBy⟩ => some (e, lateBy, now)
  | _ => none

@[simp] theorem call?_planned (b : Bool) (now : Nat) (e : SystemEvent) (delay : Nat) :
    (planned b now e delay).call? = none := rfl

@[simp] theorem call?_passed (cycles : Nat) : (passed cycles).call? = none := rfl

@[simp] theorem call?_handled (now : Nat) (e : DeviceEvent) (lateBy : Nat) :
    (handled now ⟨.device e, lateBy⟩).call? = some (e, lateBy, now) := rfl

@[simp] theorem call?_pause (now lateBy : Nat) : (handled now ⟨.pause, lateBy⟩).call? = none := rfl

/-- Handlers are called for events alone, not for what devices do. -/
@[simp] theorem calls_ofActions (byHandler : Bool) (now : Nat) (acts : List Action) :
    (ofActions byHandler now acts).filterMap call? = [] := by
  induction acts with
  | nil => rfl
  | cons a acts ih =>
    unfold ofActions at ih ⊢
    rw [List.flatMap_cons, List.filterMap_append, ih, List.append_nil]
    cases a <;> rfl

end Doing

structure Scene (δ : Type) where
  devices : δ
  schedule : Schedule SystemEvent
  /-- The clock has moved, and the events that are due are dispatched. -/
  dispatching : Bool

section
variable {δ : Type} (devices : Devices δ) (longest : Nat)

/-- The course that devices and schedule take, with what is done to the schedule on the way. -/
inductive Course (start : Scene δ) : List Doing → Scene δ → Prop where
  | start : Course start [] start
  | read {l : List Doing} {d : δ} {c : DeviceContext} (id : ProcessorId) (a : Address) {acts : List Action}
      (before : Course start l ⟨d, c.schedule, false⟩)
      (performs : c.Performs (devices.read id a d c).2.2 acts) :
      Course start (l ++ Doing.ofActions false c.now acts)
        ⟨(devices.read id a d c).2.1, (devices.read id a d c).2.2.schedule, false⟩
  | write {l : List Doing} {d : δ} {c : DeviceContext} (id : ProcessorId) (a : Address) (v mask : Word)
      {acts : List Action} (before : Course start l ⟨d, c.schedule, false⟩)
      (performs : c.Performs (devices.write id a v mask d c).2.2 acts) :
      Course start (l ++ Doing.ofActions false c.now acts)
        ⟨(devices.write id a v mask d c).2.1, (devices.write id a v mask d c).2.2.schedule, false⟩
  | plan {l : List Doing} {d : δ} {schedule : Schedule SystemEvent} (e : DeviceEvent) (delay : Nat)
      (journal : Journal) (before : Course start l ⟨d, schedule, false⟩) :
      Course start (l ++ [.planned false schedule.now (.device e) delay])
        ⟨d, (schedule.planAfter (.device e) delay journal).1, false⟩
  | pass {l : List Doing} {d : δ} {schedule : Schedule SystemEvent}
      (before : Course start l ⟨d, schedule, false⟩) :
      Course start (l ++ [.passed (stride longest schedule)])
        ⟨d, schedule.advance (stride longest schedule), true⟩
  | handle {l : List Doing} {d : δ} {schedule : Schedule SystemEvent} {c : DeviceContext} {e : DeviceEvent}
      {lateBy : Nat} {acts : List Action} (before : Course start l ⟨d, schedule, true⟩)
      (due : schedule.takeDue = (some ⟨.device e, lateBy⟩, c.schedule))
      (performs : c.Performs (devices.handle e lateBy d c).2 acts) :
      Course start (l ++ .handled c.now ⟨.device e, lateBy⟩ :: Doing.ofActions true c.now acts)
        ⟨(devices.handle e lateBy d c).1, (devices.handle e lateBy d c).2.schedule, true⟩
  | pause {l : List Doing} {d : δ} {schedule rest : Schedule SystemEvent} {lateBy : Nat}
      (before : Course start l ⟨d, schedule, true⟩)
      (due : schedule.takeDue = (some ⟨.pause, lateBy⟩, rest)) :
      Course start (l ++ [.handled rest.now ⟨.pause, lateBy⟩]) ⟨d, rest, true⟩
  | rest {l : List Doing} {d : δ} {schedule : Schedule SystemEvent}
      (before : Course start l ⟨d, schedule, true⟩) (none : schedule.isDue = false) :
      Course start l ⟨d, schedule, false⟩

/-- A console whose devices and schedule are where some course takes them. -/
def Hardware.OnCourse (start : Scene δ) (dispatching : Bool) (h : Hardware δ) : Prop :=
  ∃ l, Course devices longest start l ⟨h.devices, h.schedule, dispatching⟩

end

variable {δ : Type} {devices : Devices δ} {longest : Nat} {start : Scene δ}

structure Devices.Remember (devices : Devices δ) (seen : δ → List (DeviceEvent × Nat × Nat)) : Prop where
  read : ∀ id a d (c : DeviceContext), seen (devices.read id a d c).2.1 = seen d
  write : ∀ id a v mask d (c : DeviceContext), seen (devices.write id a v mask d c).2.1 = seen d
  handle : ∀ e lateBy d (c : DeviceContext),
    seen (devices.handle e lateBy d c).1 = seen d ++ [(e, lateBy, c.now)]

/-- The log has just the calls by which events were handled. -/
theorem Course.remembered {seen : δ → List (DeviceEvent × Nat × Nat)} (remember : devices.Remember seen)
    {l : List Doing} {scene : Scene δ} (h : Course devices longest start l scene) :
    seen scene.devices = seen start.devices ++ l.filterMap Doing.call? := by
  induction h with
  | start => simp
  | read id a before performs ih =>
    simpa [remember.read] using ih
  | write id a v mask before performs ih =>
    simpa [remember.write] using ih
  | plan e delay journal before ih => simpa [List.filterMap_cons] using ih
  | pass before ih => simpa [List.filterMap_cons] using ih
  | handle before due performs ih =>
    simp [remember.handle, ih]
  | pause before due ih => simpa [List.filterMap_cons] using ih
  | rest before none ih => exact ih

theorem onCourse_keeps (proper : devices.Proper) :
    Hardware.Keeps devices fun h h' =>
      h.OnCourse devices longest start false → h'.OnCourse devices longest start false := fun id => {
  own := fun _ _ alone onCourse => alone.system ▸ onCourse
  trans := fun first second => second ∘ first
  memory := fun _ _ _ _ _ onCourse => onCourse
  core := fun r v mask m ⟨l, before⟩ => by
    have spared := Node.writeCore_spares id r v mask m
    exact ⟨l, spared.schedule ▸ spared.devices ▸ before⟩
  read := fun a m ⟨l, before⟩ => by
    obtain ⟨acts, performs⟩ := proper.read id a m.system.devices m.context
    exact ⟨_, .read id a before performs⟩
  write := fun a v mask m ⟨l, before⟩ => by
    obtain ⟨acts, performs⟩ := proper.write id a v mask m.system.devices m.context
    exact ⟨_, .write id a v mask before performs⟩
  control := fun _ _ _ _ onCourse => onCourse }

theorem tick_onCourse {s : Board δ} (config : s.hardware.config.longestStep = longest)
    (h : s.hardware.OnCourse devices longest start false) :
    (Drive.tick s).hardware.OnCourse devices longest start true := by
  obtain ⟨l, before⟩ := h
  subst config
  exact ⟨_, .pass before⟩

theorem dispatched_onCourse (proper : devices.Proper) {s s' : Board δ}
    (h : s.hardware.OnCourse devices longest start true) (one : Drive.Dispatched devices s s') :
    s'.hardware.OnCourse devices longest start true := by
  obtain ⟨l, before⟩ := h
  obtain ⟨due⟩ := one
  rename_i e schedule
  rcases e with ⟨_ | event, lateBy⟩
  · exact ⟨_, .pause before due⟩
  · obtain ⟨acts, performs⟩ := proper.handle event lateBy s.hardware.devices
      { schedule, raised := s.hardware.raised, journal := s.journal }
    exact ⟨_, .handle before due performs⟩

theorem dispatches_onCourse (proper : devices.Proper) {s s' : Board δ}
    (h : s.hardware.OnCourse devices longest start true)
    (run : Relation.ReflTransGen (Drive.Dispatched devices) s s') :
    s'.hardware.OnCourse devices longest start true := by
  induction run with
  | refl => exact h
  | tail _ one ih => exact dispatched_onCourse proper ih one

theorem advance_onCourse (proper : devices.Proper) {limit : Nat} {s s' : Board δ}
    (config : s.hardware.config.longestStep = longest)
    (h : s.hardware.OnCourse devices longest start false)
    (advanced : Drive.advance devices limit s = .ok () s') :
    s'.hardware.OnCourse devices longest start false := by
  obtain ⟨s₁, ran, -, dispatched, none⟩ := Drive.advance_ok advanced
  have same := (runProcessors_config (.inl ran)).1
  have caught := Drive.runProcessors_keeps (onCourse_keeps proper) (.inl ran) h
  obtain ⟨l, drained⟩ := dispatches_onCourse proper (tick_onCourse (same ▸ config) caught) dispatched
  exact ⟨l, .rest drained none⟩

/-- No call leaves the course. -/
theorem Board.Call.onCourse (proper : devices.Proper) {s s' : Board δ} (call : Board.Call devices s s')
    (config : s.hardware.config.longestStep = longest)
    (h : s.hardware.OnCourse devices longest start false) :
    s'.hardware.OnCourse devices longest start false := by
  cases call with
  | advance limit advanced => exact advance_onCourse proper config h advanced
  | @failed limit _ _ e failed returns =>
    obtain ⟨s₁, ran, rfl⟩ := (Drive.advance_error failed).resolve_right returns
    have kept := Drive.runProcessors_keeps (onCourse_keeps proper) (.inr ⟨e, ran⟩) h
    exact kept
  | processors | enterProgram => exact h
  | schedule _ e delay =>
    obtain ⟨l, before⟩ := h
    exact ⟨_, .plan e delay s.journal before⟩
  | read _ id a => exact readWord_keeps (onCourse_keeps proper) s id a h
  | write _ id a v => exact writeWord_keeps (onCourse_keeps proper) s id a v h
  | writeBytes _ id a bytes => exact writeBytes_keeps (onCourse_keeps proper) s id a bytes h

/-- Every sequence of calls is a course. -/
theorem calls_onCourse (proper : devices.Proper) {s₀ s : Board δ}
    (run : Relation.ReflTransGen (Board.Call devices) s₀ s) :
    s.hardware.config = s₀.hardware.config ∧
      s.hardware.OnCourse devices s₀.hardware.config.longestStep
        ⟨s₀.hardware.devices, s₀.hardware.schedule, false⟩ false := by
  induction run with
  | refl => exact ⟨rfl, [], .start⟩
  | tail _ call ih =>
    obtain ⟨config, onCourse⟩ := ih
    exact ⟨call.config.1.trans config, call.onCourse proper (congrArg _ config) onCourse⟩

end Lockstep.Console
