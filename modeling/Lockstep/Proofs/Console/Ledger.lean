import Lockstep.Proofs.Console.Course

/-!
The books of the schedule. All that is done to the schedule in the course of things is entered with what came
of it, and the books are in order: they are the history of a queue by the book, events come out in the order
of their times and numbers, and none comes out late, but for those planned for at once while the clock stood
still, which are late by one cycle. What carries this is that no event waits whose time is past, and that
after each dispatch none waits whose time has come, unless it was planned since for at once.
-/

namespace Lockstep.Console

/-- Everything done to the schedule, each with what came of it. -/
abbrev Log := List (Doing × Queue.Outcome SystemEvent)

namespace Log

def history (log : Log) : Queue.History SystemEvent := log.map fun x => (x.1.operation, x.2)

@[simp] theorem history_snoc (log : Log) (doing : Doing) (o : Queue.Outcome SystemEvent) :
    history (log ++ [(doing, o)]) = history log ++ [(doing.operation, o)] := by
  simp [history]

/-- An event that was planned for at once, and not by a handler. -/
def Hasty (log : Log) (t : Ticket SystemEvent) : Prop :=
  ∃ now e, (Doing.planned false now e 0, Queue.Outcome.accepted t) ∈ log

theorem Hasty.snoc {log : Log} {t : Ticket SystemEvent} (h : log.Hasty t)
    (x : Doing × Queue.Outcome SystemEvent) : Hasty (log ++ [x]) t := by
  obtain ⟨now, e, entered⟩ := h
  exact ⟨now, e, List.mem_append_left _ entered⟩

end Log

/-- What can come of something done. An event is planned for its delay from now, but for no later than the
clock can show; one that is handled is late by the time that has passed since it was due. -/
inductive Doing.Fits : Doing → Queue.Outcome SystemEvent → Prop where
  | accepted {byHandler : Bool} {now delay : Nat} {t : Ticket SystemEvent}
      (time : t.time = min (now + delay) Schedule.lastTime) :
      Fits (.planned byHandler now t.kind delay) (.accepted t)
  | dropped {byHandler : Bool} {now delay : Nat} {e : SystemEvent} :
      Fits (.planned byHandler now e delay) (.dropped (min (now + delay) Schedule.lastTime))
  | cancelled {e : SystemEvent} {ts : Multiset (Ticket SystemEvent)} (kind : ∀ t ∈ ts, t.kind = e) :
      Fits (.cancelled e) (.cancelled ts)
  | passed {cycles : Nat} : Fits (.passed cycles) .passed
  | handled {now lateBy : Nat} {t : Ticket SystemEvent} (time : now = t.time + lateBy) :
      Fits (.handled now ⟨t.kind, lateBy⟩) (.returned t lateBy)

structure Ledger (log : Log) (q : Queue SystemEvent) (dispatching : Bool) : Prop where
  run : Queue.Run {} log.history q
  fits : ∀ x ∈ log, x.1.Fits x.2
  late : ∀ doing t lateBy, (doing, .returned t lateBy) ∈ log → lateBy = 0 ∨ lateBy = 1 ∧ log.Hasty t
  inOrder : log.history.returned.Pairwise Ticket.Before
  past : ∀ r ∈ log.history.returned, r.time ≤ q.now ∧ ∀ t ∈ q.waiting, r.Before t
  waiting : ∀ t ∈ q.waiting, q.now ≤ t.time ∨ dispatching = true ∧ q.now = t.time + 1 ∧ log.Hasty t
  punctual : dispatching = false → ∀ t ∈ q.waiting, t.time = q.now → log.Hasty t ∨ q.now = Schedule.lastTime

namespace Ledger

theorem initial : Ledger [] {} false where
  run := .start
  fits _ h := absurd h List.not_mem_nil
  late _ _ _ h := absurd h List.not_mem_nil
  inOrder := .nil
  past _ h := absurd h List.not_mem_nil
  waiting _ h := absurd h (Multiset.notMem_zero _)
  punctual _ _ h := absurd h (Multiset.notMem_zero _)

variable {log : Log} {q q' : Queue SystemEvent} {b : Bool} (h : Ledger log q b)
include h

/-- An entry by which nothing comes out. -/
theorem enter {doing : Doing} {o : Queue.Outcome SystemEvent} {b' : Bool}
    (step : Queue.Step doing.operation q o q') (fits : doing.Fits o) (none : o.returns = [])
    (later : q.now ≤ q'.now) (past : ∀ r ∈ log.history.returned, ∀ t ∈ q'.waiting, r.Before t)
    (waiting : ∀ t ∈ q'.waiting, q'.now ≤ t.time ∨
      b' = true ∧ q'.now = t.time + 1 ∧ Log.Hasty (log ++ [(doing, o)]) t)
    (punctual : b' = false → ∀ t ∈ q'.waiting, t.time = q'.now →
      Log.Hasty (log ++ [(doing, o)]) t ∨ q'.now = Schedule.lastTime) :
    Ledger (log ++ [(doing, o)]) q' b' where
  run := by
    rw [Log.history_snoc]
    exact .step h.run step
  fits x hx := by
    rcases List.mem_append.1 hx with hx | hx
    · exact h.fits x hx
    · rw [List.mem_singleton.1 hx]
      exact fits
  late doing' t lateBy hx := by
    rcases List.mem_append.1 hx with hx | hx
    · exact (h.late doing' t lateBy hx).imp id fun ⟨one, hasty⟩ => ⟨one, hasty.snoc _⟩
    · cases List.mem_singleton.1 hx
      cases none
  inOrder := by
    rw [Log.history_snoc, Queue.History.returned_snoc, none, List.append_nil]
    exact h.inOrder
  past r hr := by
    rw [Log.history_snoc, Queue.History.returned_snoc, none, List.append_nil] at hr
    exact ⟨(h.past r hr).1.trans later, past r hr⟩
  waiting := waiting
  punctual := punctual

theorem waiting_snoc (x : Doing × Queue.Outcome SystemEvent) : ∀ t ∈ q.waiting,
    q.now ≤ t.time ∨ b = true ∧ q.now = t.time + 1 ∧ Log.Hasty (log ++ [x]) t := fun t ht =>
  (h.waiting t ht).imp id fun ⟨dispatching, late, hasty⟩ => ⟨dispatching, late, hasty.snoc x⟩

theorem punctual_snoc (x : Doing × Queue.Outcome SystemEvent) : b = false → ∀ t ∈ q.waiting,
    t.time = q.now → Log.Hasty (log ++ [x]) t ∨ q.now = Schedule.lastTime := fun quiet t ht now =>
  (h.punctual quiet t ht now).imp (·.snoc x) id

/-- Handlers plan while events are dispatched, all others in between. -/
theorem plan {o : Queue.Outcome SystemEvent} (inTime : q.now ≤ Schedule.lastTime) (e : SystemEvent)
    (delay : Nat) (step : Queue.Step (.planAfter e delay) q o q') :
    Ledger (log ++ [(.planned b q.now e delay, o)]) q' b := by
  cases step with
  | after planned =>
    cases planned with
    | drop full =>
      exact h.enter (.after (.drop full)) .dropped rfl (Nat.le_refl _) (fun r hr => (h.past r hr).2)
        (h.waiting_snoc _) (h.punctual_snoc _)
    | accept room =>
      have number : ∀ r ∈ log.history.returned, r.number < q.issued := h.run.inTurn.number
      have fits : (Doing.planned b q.now e delay).Fits
          (.accepted (q.issue e (min (q.now + delay) Schedule.lastTime))) :=
        .accepted (t := q.issue e _) rfl
      refine h.enter (.after (.accept room)) fits rfl (Nat.le_refl _) ?_ ?_ ?_
      · intro r hr t ht
        rcases Multiset.mem_cons.1 ht with rfl | ht
        · have out := (h.past r hr).1
          have lower := number r hr
          unfold Ticket.Before Queue.issue
          simp only
          omega
        · exact (h.past r hr).2 t ht
      · intro t ht
        rcases Multiset.mem_cons.1 ht with rfl | ht
        · left
          show q.now ≤ min (q.now + delay) Schedule.lastTime
          omega
        · exact h.waiting_snoc _ t ht
      · intro quiet t ht now
        rcases Multiset.mem_cons.1 ht with rfl | ht
        · have now : min (q.now + delay) Schedule.lastTime = q.now := now
          rcases Nat.eq_zero_or_pos delay with rfl | some
          · left
            subst quiet
            exact ⟨q.now, e, List.mem_append_right _ List.mem_cons_self⟩
          · right
            show q.now = Schedule.lastTime
            omega
        · exact h.punctual_snoc _ quiet t ht now

theorem cancel {o : Queue.Outcome SystemEvent} (e : SystemEvent) (step : Queue.Step (.cancel e) q o q') :
    Ledger (log ++ [(.cancelled e, o)]) q' b := by
  cases step with
  | cancel =>
    have kept : ∀ t ∈ q.waiting.filter (·.kind ≠ e), t ∈ q.waiting := fun t => Multiset.mem_of_mem_filter
    refine h.enter .cancel (.cancelled fun t ht => (Multiset.mem_filter.1 ht).2) rfl (Nat.le_refl _) ?_ ?_ ?_
    · exact fun r hr t ht => (h.past r hr).2 t (kept t ht)
    · exact fun t ht => h.waiting_snoc _ t (kept t ht)
    · exact fun quiet t ht => h.punctual_snoc _ quiet t (kept t ht)

omit h in
/-- The clock moves no further than to the next event, if there is one ahead. -/
theorem pass {o : Queue.Outcome SystemEvent} (h : Ledger log q false) {cycles : Nat} (some : 1 ≤ cycles)
    (near : ∀ t ∈ q.waiting, q.now + cycles ≤ max t.time (q.now + 1))
    (inTime : q.now + cycles ≤ Schedule.lastTime) (step : Queue.Step (.advance cycles) q o q') :
    Ledger (log ++ [(.passed cycles, o)]) q' true := by
  cases step with
  | advance =>
    refine h.enter .advance .passed rfl (Nat.le_add_right _ _) (fun r hr => (h.past r hr).2) ?_ nofun
    intro t ht
    have reach := near t ht
    have ahead : q.now ≤ t.time := (h.waiting t ht).resolve_right (fun late => nomatch late.1)
    rcases Nat.lt_or_eq_of_le ahead with ahead | now
    · left
      show q.now + cycles ≤ t.time
      omega
    · right
      have hasty := (h.punctual rfl t ht now.symm).resolve_right (by omega)
      refine ⟨rfl, ?_, hasty.snoc _⟩
      show q.now + cycles = t.time + 1
      omega

omit h in
theorem handle (h : Ledger log q true) {t : Ticket SystemEvent} (first : q.First t) (due : t.time ≤ q.now) :
    Ledger (log ++ [(.handled q.now ⟨t.kind, q.now - t.time⟩, .returned t (q.now - t.time))]) (q.remove t)
      true where
  run := by
    rw [Log.history_snoc]
    exact .step h.run (.due first due)
  fits x hx := by
    rcases List.mem_append.1 hx with hx | hx
    · exact h.fits x hx
    · rw [List.mem_singleton.1 hx]
      exact .handled (Nat.add_sub_of_le due).symm
  late doing t' lateBy hx := by
    rcases List.mem_append.1 hx with hx | hx
    · exact (h.late doing t' lateBy hx).imp id fun ⟨one, hasty⟩ => ⟨one, hasty.snoc _⟩
    · cases List.mem_singleton.1 hx
      rcases h.waiting t first.1 with ahead | ⟨-, late, hasty⟩
      · exact .inl (Nat.sub_eq_zero_of_le ahead)
      · exact .inr ⟨by omega, hasty.snoc _⟩
  inOrder := by
    rw [Log.history_snoc, Queue.History.returned_snoc]
    refine List.pairwise_append.2 ⟨h.inOrder, List.pairwise_singleton _ _, fun r hr t' ht' => ?_⟩
    rw [List.mem_singleton.1 ht']
    exact (h.past r hr).2 t first.1
  past r hr := by
    rw [Log.history_snoc, Queue.History.returned_snoc] at hr
    have sound := h.run.sound .initial
    have others : ∀ t' ∈ (q.remove t).waiting, t' ≠ t ∧ t' ∈ q.waiting := fun t' ht' =>
      sound.nodup.mem_erase_iff.1 ht'
    rcases List.mem_append.1 hr with hr | hr
    · exact ⟨(h.past r hr).1, fun t' ht' => (h.past r hr).2 t' (others t' ht').2⟩
    · rw [List.mem_singleton.1 hr]
      exact ⟨due, fun t' ht' => first.2 t' (others t' ht').2 (others t' ht').1⟩
  waiting t' ht' := h.waiting_snoc _ t' (Multiset.mem_of_mem_erase ht')
  punctual := nofun

omit h in
theorem rest (h : Ledger log q true) (none : ∀ t ∈ q.waiting, q.now < t.time) : Ledger log q false where
  run := h.run
  fits := h.fits
  late := h.late
  inOrder := h.inOrder
  past := h.past
  waiting t ht := .inl (Nat.le_of_lt (none t ht))
  punctual _ t ht now := absurd now (Nat.ne_of_gt (none t ht))

end Ledger

/-- The clock does not move past an event that is ahead. -/
theorem stride_near {schedule : Schedule SystemEvent} {q : Queue SystemEvent} (agrees : schedule.Agrees q)
    (longest : Nat) : ∀ t ∈ q.waiting, q.now + stride longest schedule ≤ max t.time (q.now + 1) := by
  intro t ht
  rcases agrees.head with ⟨-, none⟩ | ⟨first, _, -, isFirst, -⟩
  · exact absurd (none ▸ ht) (Multiset.notMem_zero t)
  · have next : schedule.untilNext = some (first.time - q.now) :=
      (agrees.untilNext_eq_some_iff _).2 ⟨first, isFirst, rfl⟩
    have sooner : first.time ≤ t.time := by
      by_cases same : t = first
      · rw [same]
      · rcases isFirst.2 t ht same with earlier | ⟨together, -⟩ <;> omega
    unfold stride
    rw [next]
    simp only
    omega

def Booked (l : List Doing) (schedule : Schedule SystemEvent) (dispatching : Bool) : Prop :=
  ∃ (log : Log) (q : Queue SystemEvent), log.map (·.1) = l ∧ Ledger log q dispatching ∧ schedule.Agrees q

namespace Booked

variable {l : List Doing} {schedule : Schedule SystemEvent} {b : Bool}

theorem plan (h : Booked l schedule b) (inTime : schedule.now ≤ Schedule.lastTime) (e : SystemEvent)
    (delay : Nat) (journal : Journal) :
    Booked (l ++ [.planned b schedule.now e delay]) (schedule.planAfter e delay journal).1 b := by
  obtain ⟨log, q, rfl, ledger, agrees⟩ := h
  obtain ⟨o, q', step, -, agrees', -⟩ :=
    Schedule.perform_agrees agrees (ledger.run.sound .initial) journal (.planAfter e delay)
  rw [agrees.now] at inTime ⊢
  exact ⟨_, q', List.map_append, ledger.plan inTime e delay step, agrees'⟩

theorem cancel (h : Booked l schedule b) (e : SystemEvent) :
    Booked (l ++ [.cancelled e]) (schedule.cancel e) b := by
  obtain ⟨log, q, rfl, ledger, agrees⟩ := h
  obtain ⟨o, q', step, -, agrees', -⟩ :=
    Schedule.perform_agrees agrees (ledger.run.sound .initial) #[] (.cancel e)
  exact ⟨_, q', List.map_append, ledger.cancel e step, agrees'⟩

theorem act {c : DeviceContext} (h : Booked l c.schedule b) (inTime : c.now ≤ Schedule.lastTime) (a : Action) :
    Booked (l ++ Doing.ofAction b c.now a) (a.perform c).schedule b := by
  cases a with
  | raise id line => exact (List.append_nil l).symm ▸ h
  | plan e delay => exact h.plan inTime _ _ _
  | cancel e => exact h.cancel _
  | pause => exact h.plan inTime _ _ _

theorem acts {c c' : DeviceContext} (h : Booked l c.schedule b) (inTime : c.now ≤ Schedule.lastTime)
    {acts : List Action} (performs : c.Performs c' acts) :
    Booked (l ++ Doing.ofActions b c.now acts) c'.schedule b := by
  rw [performs.1]
  clear performs
  induction acts generalizing l c with
  | nil => exact (List.append_nil l).symm ▸ h
  | cons a acts ih =>
    have now : (a.perform c).now = c.now := Action.perform_now c a
    have rest := ih (h.act inTime a) (now ▸ inTime)
    rw [now, List.append_assoc] at rest
    exact rest

theorem pass (h : Booked l schedule false) (longest : Nat)
    (inTime : schedule.now + stride longest schedule ≤ Schedule.lastTime) :
    Booked (l ++ [.passed (stride longest schedule)]) (schedule.advance (stride longest schedule)) true := by
  obtain ⟨log, q, rfl, ledger, agrees⟩ := h
  obtain ⟨o, q', step, -, agrees', -⟩ :=
    Schedule.perform_agrees agrees (ledger.run.sound .initial) #[] (.advance (stride longest schedule))
  rw [agrees.now] at inTime
  exact ⟨_, q', List.map_append, ledger.pass (stride_pos longest schedule) (stride_near agrees longest) inTime step,
    agrees'⟩

theorem handle (h : Booked l schedule true) {e : Due SystemEvent} {rest : Schedule SystemEvent}
    (due : schedule.takeDue = (some e, rest)) : Booked (l ++ [.handled rest.now e]) rest true := by
  obtain ⟨log, q, rfl, ledger, agrees⟩ := h
  obtain ⟨o, q', step, out, agrees', -⟩ :=
    Schedule.perform_agrees agrees (ledger.run.sound .initial) #[] .takeDue
  have same : rest.now = schedule.now := takeDue_now due
  simp only [Schedule.perform, due] at out agrees'
  cases step with
  | early none => cases out
  | @due _ t first time =>
    cases out
    rw [same, agrees.now]
    exact ⟨_, _, List.map_append, ledger.handle first time, agrees'⟩

theorem rest (h : Booked l schedule true) (none : schedule.isDue = false) : Booked l schedule false := by
  obtain ⟨log, q, listed, ledger, agrees⟩ := h
  refine ⟨log, q, listed, ledger.rest fun t ht => ?_, agrees⟩
  by_contra due
  have isDue := agrees.isDue_iff.2 ⟨t, ht, Nat.not_lt.1 due⟩
  exact Bool.false_ne_true (none.symm.trans isDue)

end Booked

/-- As long as the clock does not run over, the books of every course are in order. -/
theorem Course.booked {δ : Type} {devices : Devices δ} {longest : Nat} {start scene : Scene δ} {l : List Doing}
    (empty : start.schedule = {}) (quiet : start.dispatching = false)
    (h : Course devices longest start l scene) (inTime : scene.schedule.now ≤ Schedule.lastTime) :
    Booked l scene.schedule scene.dispatching := by
  induction h with
  | start =>
    rw [empty, quiet]
    exact ⟨[], {}, rfl, .initial, .initial⟩
  | read id a before performs ih =>
    have inTime := performs.now ▸ inTime
    exact (ih inTime).acts inTime performs
  | write id a v mask before performs ih =>
    have inTime := performs.now ▸ inTime
    exact (ih inTime).acts inTime performs
  | @plan l d schedule e delay journal before ih =>
    have inTime : schedule.now ≤ Schedule.lastTime := Schedule.planAfter_now schedule _ _ _ ▸ inTime
    exact (ih inTime).plan inTime _ _ _
  | pass before ih => exact (ih ((Nat.le_add_right _ _).trans inTime)).pass longest inTime
  | @handle l d schedule c e lateBy acts before due performs ih =>
    have inTime := performs.now ▸ inTime
    have same : c.schedule.now = schedule.now := takeDue_now due
    have handled := ((ih (same ▸ inTime)).handle due).acts inTime performs
    rw [List.append_assoc] at handled
    exact handled
  | @pause l d schedule rest lateBy before due ih =>
    have same : rest.now = schedule.now := takeDue_now due
    exact (ih (same ▸ inTime)).handle due
  | rest before none ih => exact (ih inTime).rest none

end Lockstep.Console
