import Lockstep.Proofs.Console.Course
import Lockstep.Proofs.Console.Progress
import Lockstep.Proofs.Console.Record

/-!
Pauses. A pause that devices ask for is planned like an event of theirs, and due at once; when it comes out, the
console stops, before the advance is over. So a pause takes effect just if the schedule has room for it. A
schedule that is full drops it, and the console runs on.
-/

namespace Lockstep

/-- Along a chain that comes to its end, what some links bring about and none undoes holds at the end if it did
at the start, or if a link brought it about. -/
theorem chain_iff {α : Type} {r : α → α → Prop} (same : Relator.RightUnique r) {Q A : α → Prop}
    (link : ∀ {a b}, r a b → (Q b ↔ Q a ∨ A a)) {a z : α} (run : Relation.ReflTransGen r a z)
    (last : ∀ b, ¬r z b) : Q z ↔ Q a ∨ ∃ b c, Relation.ReflTransGen r a b ∧ r b c ∧ A b := by
  induction run using Relation.ReflTransGen.head_induction_on with
  | refl =>
    refine ⟨.inl, fun h => h.resolve_right ?_⟩
    rintro ⟨b, c, run, next, -⟩
    rcases run.cases_head with rfl | ⟨d, first, -⟩
    · exact last c next
    · exact last d first
  | @head a a' first run ih =>
    rw [ih, link first, or_assoc]
    refine or_congr_right ⟨?_, ?_⟩
    · rintro (here | ⟨b, c, more, next, there⟩)
      · exact ⟨a, a', .refl, first, here⟩
      · exact ⟨b, c, .head first more, next, there⟩
    · rintro ⟨b, c, more, next, there⟩
      rcases more.cases_head with rfl | ⟨d, first', more⟩
      · exact .inl there
      · exact .inr ⟨b, c, same first first' ▸ more, next, there⟩

namespace Schedule

variable {κ : Type}

theorem mem_insert {e x : Planned κ} {events : List (Planned κ)} : x ∈ insert e events ↔ x = e ∨ x ∈ events := by
  induction events with
  | nil => simp [insert]
  | cons f events ih =>
    unfold insert
    split_ifs
    · rw [List.mem_cons, ih, List.mem_cons, or_left_comm]
    · rw [List.mem_cons]

theorem insert_sorted (e : Planned κ) {events : List (Planned κ)}
    (sorted : events.Pairwise fun f g => f.time ≤ g.time) :
    (insert e events).Pairwise fun f g => f.time ≤ g.time := by
  induction events with
  | nil => exact List.pairwise_singleton _ _
  | cons f events ih =>
    obtain ⟨first, rest⟩ := List.pairwise_cons.1 sorted
    unfold insert
    split_ifs with before
    · refine List.pairwise_cons.2 ⟨fun g hg => ?_, ih rest⟩
      rcases mem_insert.1 hg with rfl | hg
      · exact before
      · exact first g hg
    · refine List.pairwise_cons.2 ⟨fun g hg => ?_, sorted⟩
      have sooner := Nat.le_of_lt (Nat.lt_of_not_le before)
      rcases List.mem_cons.1 hg with rfl | hg
      · exact sooner
      · exact Nat.le_trans sooner (first g hg)

/-- An event waits once it is planned, if there is room for it, and nothing else is changed. -/
theorem planAfter_cases (s : Schedule κ) (kind : κ) (delay : Nat) (journal : Journal) :
    s.pending < capacity ∧ (s.planAfter kind delay journal).1 =
        { s with events := insert ⟨kind, min (s.now + delay) lastTime⟩ s.events } ∨
      capacity ≤ s.pending ∧ (s.planAfter kind delay journal).1 = s := by
  unfold planAfter planAt plan? pending
  split_ifs with room
  · exact .inl ⟨room, rfl⟩
  · exact .inr ⟨Nat.not_lt.1 room, rfl⟩

end Schedule

namespace Console

def PauseWaits (schedule : Schedule SystemEvent) : Prop := ∃ e ∈ schedule.events, e.kind = .pause

/-- Events wait in the order of their times, and all pauses are due. -/
structure Orderly (schedule : Schedule SystemEvent) : Prop where
  sorted : schedule.events.Pairwise fun e f => e.time ≤ f.time
  due : ∀ e ∈ schedule.events, e.kind = .pause → e.time ≤ schedule.now

namespace Orderly

variable {schedule : Schedule SystemEvent}

theorem initial : Orderly {} := ⟨.nil, nofun⟩

/-- Where no event is due, no pause waits. -/
theorem not_waits (h : Orderly schedule) (none : schedule.isDue = false) : ¬PauseWaits schedule := by
  rintro ⟨e, waiting, pause⟩
  have due := h.due e waiting pause
  unfold Schedule.isDue at none
  cases listed : schedule.events with
  | nil =>
    rw [listed] at waiting
    cases waiting
  | cons f events =>
    have sorted := h.sorted
    rw [listed] at waiting sorted none
    have first : f.time ≤ e.time := by
      rcases List.mem_cons.1 waiting with rfl | waiting
      · exact Nat.le_refl _
      · exact (List.pairwise_cons.1 sorted).1 e waiting
    exact of_decide_eq_false none (Nat.le_trans first due)

theorem plan (h : Orderly schedule) (e : SystemEvent) (delay : Nat) (atOnce : e = .pause → delay = 0)
    (journal : Journal) : Orderly (schedule.planAfter e delay journal).1 := by
  rcases schedule.planAfter_cases e delay journal with ⟨-, planned⟩ | ⟨-, dropped⟩
  · rw [planned]
    refine ⟨Schedule.insert_sorted _ h.sorted, fun f waiting pause => ?_⟩
    rcases Schedule.mem_insert.1 waiting with rfl | waiting
    · rw [atOnce pause]
      exact Nat.min_le_left _ _
    · exact h.due f waiting pause
  · rwa [dropped]

theorem perform {c : DeviceContext} (h : Orderly c.schedule) (a : Action) : Orderly (a.perform c).schedule := by
  cases a with
  | raise => exact h
  | plan e delay => exact h.plan (.device e) delay nofun c.journal
  | cancel e =>
    exact ⟨h.sorted.filter _, fun f waiting => h.due f (List.mem_of_mem_filter waiting)⟩
  | pause => exact h.plan .pause 0 (fun _ => rfl) c.journal

theorem performs {c c' : DeviceContext} {acts : List Action} (h : Orderly c.schedule)
    (performs : c.Performs c' acts) : Orderly c'.schedule := by
  rw [performs.1]
  clear performs
  induction acts generalizing c with
  | nil => exact h
  | cons a acts ih => exact ih (h.perform a)

theorem takeDue {e : Due SystemEvent} {rest : Schedule SystemEvent} (h : Orderly schedule)
    (taken : schedule.takeDue = (some e, rest)) : Orderly rest := by
  obtain ⟨time, -, now, listed⟩ := Drive.takeDue_some taken
  obtain ⟨sorted, due⟩ := h
  rw [listed] at sorted due
  exact ⟨(List.pairwise_cons.1 sorted).2, fun f waiting => now ▸ due f (List.mem_cons_of_mem _ waiting)⟩

theorem advance (h : Orderly schedule) (cycles : Nat) : Orderly (schedule.advance cycles) :=
  ⟨h.sorted, fun e waiting pause => Nat.le_trans (h.due e waiting pause) (Nat.le_add_right _ _)⟩

end Orderly

variable {δ : Type} {devices : Devices δ}

theorem Course.orderly {longest : Nat} {start scene : Scene δ} {l : List Doing}
    (h : Course devices longest start l scene) (before : Orderly start.schedule) : Orderly scene.schedule := by
  induction h with
  | start => exact before
  | read id a _ performs ih => exact ih.performs performs
  | write id a v mask _ performs ih => exact ih.performs performs
  | plan e delay journal _ ih => exact ih.plan (.device e) delay nofun journal
  | pass _ ih => exact ih.advance _
  | handle _ due performs ih => exact (ih.takeDue due).performs performs
  | pause _ due ih => exact ih.takeDue due
  | rest _ _ ih => exact ih

theorem Board.Reachable.orderly (proper : devices.Proper) {s : Board δ} (h : s.Reachable devices) :
    Orderly s.hardware.schedule := by
  obtain ⟨config, d, run⟩ := h
  induction run with
  | refl => exact .initial
  | @tail s s' _ called ih =>
    rcases called with call | rfl
    · have onCourse : s'.hardware.OnCourse devices s.hardware.config.longestStep
          ⟨s.hardware.devices, s.hardware.schedule, false⟩ false := call.onCourse proper rfl ⟨[], .start⟩
      obtain ⟨l, course⟩ := onCourse
      exact course.orderly ih
    · exact .initial

/-- How many events wait each time that some actions ask for a pause. -/
def Action.pauses (c : DeviceContext) : List Action → List Nat
  | [] => []
  | a :: acts => (if a = .pause then [c.schedule.pending] else []) ++ pauses (a.perform c) acts

/-- Some pause is asked for while the schedule has room for it. -/
def HasRoom (pauses : List Nat) : Prop := ∃ n ∈ pauses, n < Schedule.capacity

theorem hasRoom_append (first second : List Nat) :
    HasRoom (first ++ second) ↔ HasRoom first ∨ HasRoom second := by
  simp only [HasRoom, List.mem_append, or_and_right, exists_or]

theorem pauseWaits_plan (schedule : Schedule SystemEvent) (e : SystemEvent) (delay : Nat) (journal : Journal) :
    PauseWaits (schedule.planAfter e delay journal).1 ↔
      PauseWaits schedule ∨ e = .pause ∧ schedule.pending < Schedule.capacity := by
  rcases schedule.planAfter_cases e delay journal with ⟨room, planned⟩ | ⟨full, dropped⟩
  · rw [planned]
    simp only [PauseWaits, Schedule.mem_insert, room, and_true, exists_eq_or_imp]
    exact or_comm
  · rw [dropped]
    exact ⟨.inl, fun h => h.resolve_right fun planned => Nat.not_lt.2 full planned.2⟩

theorem pauseWaits_perform (c : DeviceContext) (a : Action) :
    PauseWaits (a.perform c).schedule ↔
      PauseWaits c.schedule ∨ HasRoom (if a = .pause then [c.schedule.pending] else []) := by
  cases a with
  | raise => simp [Action.perform, DeviceContext.raise, HasRoom]
  | plan e delay =>
    refine (pauseWaits_plan c.schedule (.device e) delay c.journal).trans ?_
    simp [HasRoom]
  | cancel e =>
    simp only [Action.perform, DeviceContext.cancel, Schedule.cancel, PauseWaits, List.mem_filter, HasRoom]
    simp only [reduceCtorEq, if_false, List.not_mem_nil, false_and, exists_false, or_false]
    refine exists_congr fun f => ⟨fun ⟨⟨waiting, _⟩, pause⟩ => ⟨waiting, pause⟩, fun ⟨waiting, pause⟩ => ?_⟩
    exact ⟨⟨waiting, by simp [pause]⟩, pause⟩
  | pause =>
    refine (pauseWaits_plan c.schedule .pause 0 c.journal).trans ?_
    simp [HasRoom]

/-- After some actions a pause waits if one did before or one was asked for that there was room for. -/
theorem pauseWaits_performs {c c' : DeviceContext} {acts : List Action} (performs : c.Performs c' acts) :
    PauseWaits c'.schedule ↔ PauseWaits c.schedule ∨ HasRoom (Action.pauses c acts) := by
  rw [performs.1]
  clear performs
  induction acts generalizing c with
  | nil => simp [Action.pauses, HasRoom]
  | cons a acts ih =>
    rw [Action.pauses, hasRoom_append, ← or_assoc, ← pauseWaits_perform]
    exact ih

theorem Devices.Acts.proper (acts : devices.Acts) : devices.Proper where
  read id a d c := ⟨_, acts.reads id a d c⟩
  write id a v mask d c := ⟨_, acts.writes id a v mask d c⟩
  handle e lateBy d c := ⟨_, acts.handles e lateBy d c⟩

section
variable (acts : devices.Acts) (id : ProcessorId)

def readActions (w : Width) (a : Address) (m : Node δ) : List Action :=
  let word := Lane.wordOf (w.align a)
  match Place.of id false m.system.control (w.align a) with
  | .io =>
    if (CoreWord.ofAddress? word).isSome then [] else acts.read id word m.system.devices m.context
  | .video => acts.read id word m.system.devices m.context
  | .memory .. | .firmware _ | .nothing => []

def writeActions (w : Width) (a : Address) (v : Word) (m : Node δ) : List Action :=
  let a := w.align a
  let word := Lane.wordOf a
  let called := acts.write id word (v <<< Lane.shift a) (Lane.mask w a) m.system.devices m.context
  match Place.of id true m.system.control a with
  | .io => if (CoreWord.ofAddress? word).isSome then [] else called
  | .video => called
  | .memory .. | .firmware _ | .nothing => []

/-- To the schedule, an access does what devices do in it. -/
def Node.Schedules (m m' : Node δ) (actions : List Action) : Prop :=
  m'.system.schedule = (actions.foldl Action.perform m.context).schedule

theorem readNothing_schedule (w : Width) (a : Address) (m : Node δ) :
    (Node.readNothing id w a m).2.system.schedule = m.system.schedule := by
  unfold Node.readNothing
  simp only
  split_ifs <;> rfl

theorem get_schedules (w : Width) (a : Address) (m : Node δ) :
    m.Schedules ((Board.bus devices id).get w a m).2 (readActions acts id w a m) := by
  have called := (acts.reads id (Lane.wordOf (w.align a)) m.system.devices m.context).1
  rw [bus_get]
  unfold Node.Schedules readActions
  simp only
  cases Place.of id false m.system.control (w.align a) with
  | memory r offset => rfl
  | firmware offset =>
    unfold Node.readPlace
    simp only
    split
    · rfl
    · exact readNothing_schedule id w _ m
  | io =>
    unfold Node.readPlace Node.readIo
    simp only
    cases CoreWord.ofAddress? (Lane.wordOf (w.align a)) with
    | some r => rfl
    | none =>
      rcases hd : Node.readDevice devices id (Lane.wordOf (w.align a)) m with ⟨_ | v, m₁⟩ <;>
        obtain rfl := congrArg Prod.snd hd <;> exact called
  | video =>
    unfold Node.readPlace Node.readVideo
    simp only
    rcases hd : Node.readDevice devices id (Lane.wordOf (w.align a)) m with ⟨_ | v, m₁⟩ <;>
      obtain rfl := congrArg Prod.snd hd
    · exact (readNothing_schedule id w _ _).trans called
    · exact called
  | nothing => exact readNothing_schedule id w _ m

theorem set_schedules (w : Width) (a : Address) (v : Word) (m : Node δ) :
    m.Schedules ((Board.bus devices id).set w a v m) (writeActions acts id w a v m) := by
  have called := (acts.writes id (Lane.wordOf (w.align a)) (v <<< Lane.shift (w.align a))
    (Lane.mask w (w.align a)) m.system.devices m.context).1
  rw [bus_set]
  unfold Node.Schedules writeActions
  simp only
  cases Place.of id true m.system.control (w.align a) with
  | memory r offset => rfl
  | firmware | nothing => rfl
  | io =>
    unfold Node.writePlace Node.writeIo
    simp only
    cases CoreWord.ofAddress? (Lane.wordOf (w.align a)) with
    | some r => exact (Node.writeCore_spares id r _ _ m).schedule
    | none =>
      rcases hd : Node.writeDevice devices id (Lane.wordOf (w.align a)) (v <<< Lane.shift (w.align a))
        (Lane.mask w (w.align a)) m with ⟨_ | _, m₁⟩ <;> obtain rfl := congrArg Prod.snd hd <;> exact called
  | video =>
    unfold Node.writePlace Node.writeVideo
    simp only
    rcases hd : Node.writeDevice devices id (Lane.wordOf (w.align a)) (v <<< Lane.shift (w.align a))
      (Lane.mask w (w.align a)) m with ⟨_ | _, m₁⟩ <;> obtain rfl := congrArg Prod.snd hd <;> exact called

/-- How many events wait each time that a read makes devices ask for a pause. -/
def readPauses (w : Width) (a : Address) (m : Node δ) : List Nat :=
  Action.pauses m.context (readActions acts id w a m)

def writePauses (w : Width) (a : Address) (v : Word) (m : Node δ) : List Nat :=
  Action.pauses m.context (writeActions acts id w a v m)

def stepPauses (m : Node δ) : List Nat := stepNotes devices (readPauses acts id) (writePauses acts id) id m

theorem Node.Schedules.pauseWaits {m m' : Node δ} {actions : List Action} (h : m.Schedules m' actions) :
    PauseWaits m'.system.schedule ↔
      PauseWaits m.system.schedule ∨ HasRoom (Action.pauses m.context actions) := by
  rw [h]
  exact pauseWaits_performs (c := m.context) ⟨rfl, rfl⟩

theorem pauses_notes : Node.Notes devices (readPauses acts id) (writePauses acts id) id fun m pauses m' =>
    (PauseWaits m'.system.schedule ↔ PauseWaits m.system.schedule ∨ HasRoom pauses) where
  get w a m := (get_schedules acts id w a m).pauseWaits
  set w a v m := (set_schedules acts id w a v m).pauseWaits
  own _ _ alone := by simp [alone.system, HasRoom]
  controlWrite r v m := by
    have same : ((Board.bus devices id).controlWrite r v m).2.system.schedule = m.system.schedule := by
      cases id <;> rfl
    simp [same, HasRoom]
  append first second := by rw [second, first, hasRoom_append, or_assoc]

/-- After a step a pause waits if one did before or devices asked for one that there was room for. -/
theorem step_pauseWaits (m : Node δ) :
    PauseWaits ((Exec.step (Board.bus devices id)).final m).system.schedule ↔
      PauseWaits m.system.schedule ∨ HasRoom (stepPauses acts id m) :=
  (pauses_notes acts id).step m

end

namespace Drive

/-- The handler of the next event asks for pauses, so many events waiting each time. -/
def handlerPauses (acts : devices.Acts) (s : Board δ) : List Nat :=
  match s.hardware.schedule.takeDue with
  | (some ⟨.device e, lateBy⟩, schedule) =>
    let c : DeviceContext := { schedule, raised := s.hardware.raised, journal := s.journal }
    Action.pauses c (acts.handle e lateBy s.hardware.devices c)
  | _ => []

/-- In an advance, devices ask for pauses, so many events waiting each time. -/
inductive Asks (acts : devices.Acts) (s : Board δ) : List Nat → Prop where
  | step {id : ProcessorId} {m m' : Node δ} (start : StepsFrom devices s id m)
      (stepped : Exec.step (Board.bus devices id) m = .ok () m') : Asks acts s (stepPauses acts id m)
  | handler {s₁ s₂ : Board δ} (ran : runProcessors devices s = .ok () s₁)
      (dispatched : Relation.ReflTransGen (Dispatched devices) (tick s₁) s₂) :
      Asks acts s (handlerPauses acts s₂)

theorem ends_pauseWaits (acts : devices.Acts) {id : ProcessorId} {target : Nat} {m m' : Node δ}
    (h : Ends (Node.Behind target) (Exec.step (Board.bus devices id)) m (.ok () m')) :
    PauseWaits m'.system.schedule ↔ PauseWaits m.system.schedule ∨
      ∃ m₁ m₂, Rounds (Node.Behind target) (Exec.step (Board.bus devices id)) m m₁ ∧
        (m₁.Behind target ∧ Exec.step (Board.bus devices id) m₁ = .ok () m₂) ∧
        HasRoom (stepPauses acts id m₁) := by
  cases h with
  | done rounds finished =>
    refine chain_iff (Q := fun m : Node δ => PauseWaits m.system.schedule)
      (A := fun m => HasRoom (stepPauses acts id m)) Rounds.same ?_ rounds fun m₁ round => finished round.1
    intro m₁ m₂ round
    have stepped := step_pauseWaits acts id m₁
    simp only [Exec.final, round.2] at stepped
    exact stepped

/-- While the processors catch up, a pause comes to wait just if there is room for one that is asked for. -/
theorem runProcessors_pauseWaits (acts : devices.Acts) {s s₁ : Board δ}
    (positive : s.hardware.waitstates.Positive) (ran : runProcessors devices s = .ok () s₁) :
    PauseWaits s₁.hardware.schedule ↔ PauseWaits s.hardware.schedule ∨
      ∃ id m m', StepsFrom devices s id m ∧ Exec.step (Board.bus devices id) m = .ok () m' ∧
        HasRoom (stepPauses acts id m) := by
  have paces := runProcessors_paces devices positive
  rw [ran] at paces
  cases paces with
  | @caught m9 m7 due first second =>
    have waits9 := ends_pauseWaits acts first.ends
    have waits7 := ends_pauseWaits acts second.ends
    show PauseWaits m7.system.schedule ↔ _
    rw [waits7, waits9, or_assoc]
    refine or_congr_right ⟨?_, ?_⟩
    · rintro (⟨m, m', before, ⟨behind, stepped⟩, room⟩ | ⟨m, m', before, ⟨behind, stepped⟩, room⟩)
      · exact ⟨.arm9, m, m', .arm9 due before behind, stepped, room⟩
      · exact ⟨.arm7, m, m', .arm7 due first.ends before behind, stepped, room⟩
    · rintro ⟨id, m, m', start, stepped, room⟩
      cases start with
      | arm9 _ before behind => exact .inl ⟨m, m', before, ⟨behind, stepped⟩, room⟩
      | arm7 _ first' before behind =>
        cases first.ends.unique first'
        exact .inr ⟨m, m', before, ⟨behind, stepped⟩, room⟩

/-- A console that a pause has stopped or will stop. -/
def Pausing (s : Board δ) : Prop := s.running = false ∨ PauseWaits s.hardware.schedule

theorem dispatched_pausing (acts : devices.Acts) {s s' : Board δ} (h : Dispatched devices s s') :
    Pausing s' ↔ Pausing s ∨ HasRoom (handlerPauses acts s) := by
  obtain ⟨due⟩ := h
  rename_i e schedule
  obtain ⟨time, -, -, listed⟩ := takeDue_some due
  unfold handlerPauses
  rw [due]
  rcases e with ⟨_ | event, lateBy⟩
  · exact iff_of_true (.inl rfl) (.inl (.inr ⟨⟨.pause, time⟩, listed ▸ List.mem_cons_self, rfl⟩))
  · have handled := pauseWaits_performs (acts.handles event lateBy s.hardware.devices
      { schedule, raised := s.hardware.raised, journal := s.journal })
    have taken : PauseWaits s.hardware.schedule ↔ PauseWaits schedule := by simp [PauseWaits, listed]
    unfold Pausing
    rw [taken, or_assoc]
    exact or_congr_right handled

/-- A handler is called only where an event is dispatched. -/
theorem dispatched_of_room {acts : devices.Acts} {s : Board δ} (h : HasRoom (handlerPauses acts s)) :
    ∃ s', Dispatched devices s s' := by
  rcases due : s.hardware.schedule.takeDue with ⟨_ | e, schedule⟩
  · simp [handlerPauses, due, HasRoom] at h
  · exact ⟨_, .one due⟩

theorem not_dispatched {s s' : Board δ} (none : s.hardware.schedule.isDue = false) :
    ¬Dispatched devices s s' := by
  rintro ⟨due⟩
  rw [isDue_eq, due] at none
  cases none

theorem dispatched_same (devices : Devices δ) : Relator.RightUnique (Dispatched devices) := by
  rintro s _ _ ⟨due⟩ ⟨due'⟩
  cases due.symm.trans due'
  rfl

/-- After an advance the console is stopped just if it was before, a pause was waiting, or one was asked for
that there was room for. -/
theorem advance_running (acts : devices.Acts) {s s' : Board δ} (reached : s.Reachable devices) {limit : Nat}
    (h : advance devices limit s = .ok () s') :
    s'.running = false ↔ Pausing s ∨ ∃ pauses, Asks acts s pauses ∧ HasRoom pauses := by
  obtain ⟨s₁, ran, -, dispatched, none⟩ := advance_ok h
  have orderly : Orderly s'.hardware.schedule := (reached.call (.advance limit h)).orderly acts.proper
  have stopped : s'.running = false ↔ Pausing s' := (or_iff_left (orderly.not_waits none)).symm
  have running : s₁.running = s.running := by
    have paces := runProcessors_paces devices reached.positive
    rw [ran] at paces
    cases paces
    rfl
  have ticked : Pausing (tick s₁) ↔ s.running = false ∨ PauseWaits s₁.hardware.schedule := by
    rw [← running]
    rfl
  rw [stopped, chain_iff (dispatched_same devices) (dispatched_pausing acts) dispatched
    (fun _ => not_dispatched none), ticked, runProcessors_pauseWaits acts reached.positive ran, ← or_assoc, or_assoc]
  refine or_congr_right ⟨?_, ?_⟩
  · rintro (⟨id, m, m', start, stepped, room⟩ | ⟨s₂, s₃, before, -, room⟩)
    · exact ⟨_, .step start stepped, room⟩
    · exact ⟨_, .handler ran before, room⟩
  · rintro ⟨pauses, asks, room⟩
    cases asks with
    | step start stepped => exact .inl ⟨_, _, _, start, stepped, room⟩
    | @handler s₁' s₂ ran' before =>
      cases ran.symm.trans ran'
      obtain ⟨s₃, one⟩ := dispatched_of_room room
      exact .inr ⟨s₂, s₃, before, one, room⟩

theorem rounds_reachable {limit target : Nat} {s s' : Board δ} (reached : s.Reachable devices)
    (h : Rounds (Underway target) (advance devices limit) s s') : s'.Reachable devices := by
  induction h with
  | refl => exact reached
  | tail _ round ih => exact ih.call (.advance limit round.2)

end Drive

open Drive

/-- An advance stops the console just if a pause was waiting, or devices ask for one while the schedule has room
for it; a run, to a time that the clock can show, is over with that advance. -/
theorem pauses_stop (acts : devices.Acts) {s : Board δ} (reached : s.Reachable devices) (limit : Nat) :
    (∀ s', advance devices limit s = .ok () s' →
      (s'.running = false ↔ s.running = false ∨ PauseWaits s.hardware.schedule ∨
        ∃ pauses, Asks acts s pauses ∧ HasRoom pauses)) ∧
    ∀ cycles s₁ s₂, s.now + cycles ≤ Schedule.lastTime →
      Rounds (Underway (s.now + cycles)) (advance devices limit) { s with running := true } s₁ →
      Underway (s.now + cycles) s₁ → advance devices limit s₁ = .ok () s₂ →
      (∃ pauses, Asks acts s₁ pauses ∧ HasRoom pauses) → runFor devices limit cycles s = .ok () s₂ := by
  refine ⟨fun s' h => (advance_running acts reached h).trans or_assoc, ?_⟩
  intro cycles s₁ s₂ due rounds underway advanced asked
  have started : Board.Reachable devices { s with running := true } :=
    reached.call (.processors s s.cpu9 s.cpu7 true)
  have stopped := (advance_running acts (rounds_reachable started rounds) advanced).2 (.inr asked)
  refine (runFor_ends acts.proper limit due).unique (.done (rounds.tail ⟨underway, advanced⟩) fun more => ?_)
  exact Bool.false_ne_true (stopped.symm.trans more.1)

/-- Devices that at the end of a line plan some events for later, and then ask for a pause. -/
def pausing (events : Nat) : Script where
  onEvent := [(.display .lineBlankStart, List.replicate events (.plan (.display .frameBlankStart) 1000) ++ [.pause])]

/-- A console just before the end of a line. -/
def lineEnding : Board ScriptState := (Board.powerOn {} {}).scheduleAfter (.display .lineBlankStart) 1

theorem lineEnding_reachable (script : Script) : lineEnding.Reachable script.devices :=
  ⟨_, _, .single (.inl (.schedule _ _ _))⟩

theorem lineEnding_asks (script : Script) :
    Asks script.acts lineEnding (handlerPauses script.acts (tick lineEnding)) :=
  .handler rfl .refl

/-- One place is left in the schedule for the pause. -/
theorem pausing_stops :
    lineEnding.Reachable (pausing 31).devices ∧ Asks (pausing 31).acts lineEnding [31] ∧
      ∃ s', advance (pausing 31).devices 2 lineEnding = .ok () s' ∧ s'.running = false := by
  have asked : handlerPauses (pausing 31).acts (tick lineEnding) = [31] := by decide +kernel
  have asks := asked ▸ lineEnding_asks (pausing 31)
  have reached := lineEnding_reachable (pausing 31)
  obtain ⟨stops, -⟩ := pauses_stop (pausing 31).acts reached 2
  refine ⟨reached, asks, ?_⟩
  cases h : advance (pausing 31).devices 2 lineEnding with
  | ok _ s' => exact ⟨s', rfl, (stops s' h).2 (.inr (.inr ⟨_, asks, 31, List.mem_singleton_self 31, by decide⟩))⟩
  | error e s' =>
    have ended : (match advance (pausing 31).devices 2 lineEnding with
      | .ok _ _ => true | .error _ _ => false) = true := by decide +kernel
    rw [h] at ended
    cases ended

/-- No place is left: the pause is dropped, and the console runs on. -/
theorem pausing_runs_on :
    lineEnding.Reachable (pausing 32).devices ∧ Asks (pausing 32).acts lineEnding [32] ∧
      ∃ s', advance (pausing 32).devices 2 lineEnding = .ok () s' ∧ s'.running = true := by
  have asked : handlerPauses (pausing 32).acts (tick lineEnding) = [32] := by decide +kernel
  refine ⟨lineEnding_reachable _, asked ▸ lineEnding_asks (pausing 32), ?_⟩
  have runs : (match advance (pausing 32).devices 2 lineEnding with
    | .ok _ s' => s'.running | .error _ _ => false) = true := by decide +kernel
  cases h : advance (pausing 32).devices 2 lineEnding with
  | ok _ s' =>
    rw [h] at runs
    exact ⟨s', rfl, runs⟩
  | error e s' =>
    rw [h] at runs
    cases runs

end Console

end Lockstep
