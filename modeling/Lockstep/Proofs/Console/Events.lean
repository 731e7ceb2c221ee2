import Lockstep.Console.ScriptedDevices
import Lockstep.Proofs.Console.Ledger

/-!
Events come to the devices once each, in order and in time, whatever is done with the console. Of what is done
to the schedule there is a log, which is a course of the console and the history of a queue by the book. All
events that it says were accepted, and not cancelled, it says were handled, but for those that still wait;
and these are ahead after every advance.
-/

namespace Lockstep.Console

variable {δ : Type} {devices : Devices δ}

/-- A ticket is accepted by one entry alone. -/
theorem Log.accepted_once {log : Log} (nodup : log.history.accepted.Nodup)
    {x y : Doing × Queue.Outcome SystemEvent} (hx : x ∈ log) (hy : y ∈ log) {t : Ticket SystemEvent}
    (ax : x.2 = .accepted t) (ay : y.2 = .accepted t) : x = y := by
  let accepts (x : Doing × Queue.Outcome SystemEvent) : List (Ticket SystemEvent) := x.2.accepts
  have nodup : (log.flatMap accepts).Nodup := by
    unfold Log.history Queue.History.accepted at nodup
    rwa [List.flatMap_map] at nodup
  have symmetric : Std.Symm (Function.onFun List.Disjoint accepts) := ⟨fun _ _ h => h.symm⟩
  have entered : ∀ {z}, z.2 = Queue.Outcome.accepted t → t ∈ accepts z := fun {z} h => by
    show t ∈ z.2.accepts
    rw [h]
    exact List.mem_singleton_self t
  by_contra ne
  exact (List.nodup_flatMap.1 nodup).2.forall hx hy ne (entered ax) (entered ay)

/-- In books that are in order, an event is late only if it was planned for at once, and not by a handler. -/
theorem Ledger.lateness {log : Log} {q : Queue SystemEvent} {b : Bool} (h : Ledger log q b)
    {byHandler : Bool} {now delay lateBy : Nat} {e : SystemEvent} {doing : Doing} {t : Ticket SystemEvent}
    (planned : (.planned byHandler now e delay, .accepted t) ∈ log)
    (returned : (doing, .returned t lateBy) ∈ log) :
    lateBy ≤ 1 ∧ (1 ≤ delay ∨ byHandler = true → lateBy = 0) := by
  rcases h.late doing t lateBy returned with rfl | ⟨rfl, now', e', hasty⟩
  · exact ⟨Nat.zero_le 1, fun _ => rfl⟩
  · have nodup : log.history.accepted.Nodup := by
      refine List.Nodup.of_map (·.number) ?_
      rw [h.run.numbers]
      exact List.nodup_range'
    cases Log.accepted_once nodup planned hasty rfl rfl
    exact ⟨Nat.le_refl 1, fun h => by simp at h⟩

theorem planned_of_mem {schedule : Schedule SystemEvent} {q : Queue SystemEvent} (agrees : schedule.Agrees q)
    {e : Planned SystemEvent} (he : e ∈ schedule.events) : ∃ t ∈ q.waiting, t.planned = e := by
  obtain ⟨l, listed, -, events⟩ := agrees.listed
  rw [events] at he
  obtain ⟨t, ht, same⟩ := List.mem_map.1 he
  exact ⟨t, listed ▸ ht, same⟩

/-- No call overruns the clock. -/
theorem Board.Call.shown (proper : devices.Proper) {s s' : Board δ} (call : Board.Call devices s s')
    (h : s.now ≤ Schedule.lastTime) : s'.now ≤ Schedule.lastTime := by
  have keeps := Hardware.now_keeps devices proper
  have same : ∀ {hardware : Hardware δ}, hardware.schedule.now = s.hardware.schedule.now →
      hardware.schedule.now ≤ Schedule.lastTime := fun kept => kept.symm ▸ h
  cases call with
  | advance limit advanced => exact advance_shown proper advanced
  | @failed limit _ _ e failed returns =>
    obtain ⟨s₁, ran, rfl⟩ := (Drive.advance_error failed).resolve_right returns
    have kept : s₁.now = s.now := runProcessors_now proper (.inr ⟨e, ran⟩)
    exact same kept
  | processors | enterProgram => exact h
  | schedule _ e delay => exact same (Schedule.planAfter_now s.hardware.schedule _ _ _)
  | read _ id a => exact same (readWord_keeps keeps s id a)
  | write _ id a v => exact same (writeWord_keeps keeps s id a v)
  | writeBytes _ id a bytes => exact same (writeBytes_keeps keeps s id a bytes)

theorem calls_shown (proper : devices.Proper) {s₀ s : Board δ} (fresh : s₀.hardware.schedule = {})
    (run : Relation.ReflTransGen (Board.Call devices) s₀ s) : s.now ≤ Schedule.lastTime := by
  induction run with
  | refl =>
    unfold Board.now
    rw [fresh]
    exact Nat.zero_le _
  | tail _ call ih => exact call.shown proper ih

/-- From a console with an empty schedule, whatever is done with it and whatever its devices do, each event
that is accepted and not cancelled is handled once, in order and in time, and every advance that succeeds
leaves all events ahead that wait. -/
theorem events_in_time (proper : devices.Proper) {s₀ s : Board δ} (fresh : s₀.hardware.schedule = {})
    (run : Relation.ReflTransGen (Board.Call devices) s₀ s) :
    (∃ (log : Log) (q : Queue SystemEvent),
      Course devices s₀.hardware.config.longestStep ⟨s₀.hardware.devices, {}, false⟩ (log.map (·.1))
        ⟨s.hardware.devices, s.hardware.schedule, false⟩ ∧
      Queue.Run {} log.history q ∧ s.hardware.schedule.Agrees q ∧
      (∀ x ∈ log, x.1.Fits x.2) ∧
      log.history.accepted.map (·.number) = List.range q.issued ∧
      (log.history.accepted : Multiset (Ticket SystemEvent)) =
        log.history.returned + log.history.cancelled + q.waiting ∧
      log.history.returned.Pairwise Ticket.Before ∧
      (∀ byHandler now e delay t doing lateBy, (.planned byHandler now e delay, .accepted t) ∈ log →
        (doing, .returned t lateBy) ∈ log → lateBy ≤ 1 ∧ (1 ≤ delay ∨ byHandler = true → lateBy = 0)) ∧
      (∀ seen, devices.Remember seen → seen s.hardware.devices =
        seen s₀.hardware.devices ++ (log.map (·.1)).filterMap Doing.call?)) ∧
    (∀ limit s', Drive.advance devices limit s = .ok () s' →
      s.now + 1 ≤ s'.now ∧ s'.now ≤ s.now + max s.hardware.config.longestStep 1 ∧
      s'.now ≤ Schedule.lastTime ∧ ∀ e ∈ s'.hardware.schedule.events, s'.now < e.time) := by
  have booked : ∀ {s : Board δ}, Relation.ReflTransGen (Board.Call devices) s₀ s →
      ∃ (log : Log) (q : Queue SystemEvent),
        Course devices s₀.hardware.config.longestStep ⟨s₀.hardware.devices, {}, false⟩ (log.map (·.1))
          ⟨s.hardware.devices, s.hardware.schedule, false⟩ ∧
        Ledger log q false ∧ s.hardware.schedule.Agrees q := by
    intro s run
    obtain ⟨-, l, course⟩ := calls_onCourse proper run
    rw [fresh] at course
    obtain ⟨log, q, rfl, ledger, agrees⟩ := course.booked rfl rfl (calls_shown proper fresh run)
    exact ⟨log, q, course, ledger, agrees⟩
  refine ⟨?_, fun limit s' advanced => ?_⟩
  · obtain ⟨log, q, course, ledger, agrees⟩ := booked run
    have numbers := ledger.run.numbers
    have account := ledger.run.account
    refine ⟨log, q, course, ledger.run, agrees, ledger.fits, ?_, ?_, ledger.inOrder, ?_, ?_⟩
    · rw [numbers, List.range_eq_range']
      rfl
    · rw [← account]
      exact (zero_add _).symm
    · exact fun byHandler now e delay t doing lateBy => ledger.lateness
    · exact fun seen remember => course.remembered remember
  · obtain ⟨least, most⟩ := advance_now proper advanced
    refine ⟨least, most, advance_shown proper advanced, fun e he => ?_⟩
    obtain ⟨log, q, -, -, agrees⟩ := booked (run.tail (.advance limit advanced))
    obtain ⟨-, -, -, -, none⟩ := Drive.advance_ok advanced
    obtain ⟨t, ht, rfl⟩ := planned_of_mem agrees he
    by_contra due
    have isDue := agrees.isDue_iff.2 ⟨t, ht, by rw [← agrees.now]; exact Nat.not_lt.1 due⟩
    exact Bool.false_ne_true (none.symm.trans isDue)

def DeviceCall.handled? : DeviceCall → Option (DeviceEvent × Nat × Nat)
  | .event e lateBy now => some (e, lateBy, now)
  | _ => none

def ScriptState.handled (d : ScriptState) : List (DeviceEvent × Nat × Nat) :=
  d.calls.reverse.filterMap DeviceCall.handled?

theorem Script.devices_remember (script : Script) : script.devices.Remember ScriptState.handled where
  read _ _ _ _ := by simp [Script.devices, ScriptState.handled, DeviceCall.handled?]
  write _ _ _ _ _ _ := by simp [Script.devices, ScriptState.handled, DeviceCall.handled?]
  handle _ _ _ _ := by simp [Script.devices, ScriptState.handled, DeviceCall.handled?]

/-- When a transfer on the first channel goes on, one on the second has to follow at once. -/
def relay : Script := { onEvent := [(.transfer .arm9 0, [.plan (.transfer .arm9 1) 0])] }

/-- A console with these devices, and with processors that are far ahead. -/
def relaying (schedule : Schedule SystemEvent) (calls : List DeviceCall) : Board ScriptState where
  cpu9 := { Processor.powerOn .v5 with timestamp := 100 }
  cpu7 := { Processor.powerOn .v4 with timestamp := 100 }
  hardware := { Hardware.powerOn { longestStep := 4 } ({} : ScriptState) with schedule, devices := { calls } }
  running := true
  journal := #[]

/-- The calls made to the devices while a transfer on either channel goes on, latest first. -/
def relayed (lateBy now : Nat) : List DeviceCall :=
  [.event (.transfer .arm9 1) 0 now, .event (.transfer .arm9 0) lateBy now]

theorem relaying_run :
    Relation.ReflTransGen (Board.Call relay.devices) (relaying {} [])
      (relaying ⟨3, []⟩ (relayed 1 3 ++ relayed 0 2)) := by
  have planned : Board.Call relay.devices (relaying {} [])
      (relaying ⟨0, [⟨.device (.transfer .arm9 0), 2⟩]⟩ []) := .schedule _ (.transfer .arm9 0) 2
  have first : Board.Call relay.devices (relaying ⟨0, [⟨.device (.transfer .arm9 0), 2⟩]⟩ [])
      (relaying ⟨2, []⟩ (relayed 0 2)) := .advance 2 rfl
  have hasty : Board.Call relay.devices (relaying ⟨2, []⟩ (relayed 0 2))
      (relaying ⟨2, [⟨.device (.transfer .arm9 0), 2⟩]⟩ (relayed 0 2)) := .schedule _ (.transfer .arm9 0) 0
  have second : Board.Call relay.devices (relaying ⟨2, [⟨.device (.transfer .arm9 0), 2⟩]⟩ (relayed 0 2))
      (relaying ⟨3, []⟩ (relayed 1 3 ++ relayed 0 2)) := .advance 2 rfl
  exact .tail (.tail (.tail (.single planned) first) hasty) second

/-- The first event is planned two cycles ahead and comes in time; planned for at once, it comes late by a
cycle. What its handler plans for at once comes in time. -/
theorem relay_in_time :
    relay.devices.Proper ∧ (relaying {} []).hardware.schedule = {} ∧
    Relation.ReflTransGen (Board.Call relay.devices) (relaying {} [])
      (relaying ⟨3, []⟩ (relayed 1 3 ++ relayed 0 2)) ∧
    ∃ log : Log, Course relay.devices 4 ⟨{}, {}, false⟩ (log.map (·.1))
        ⟨{ calls := relayed 1 3 ++ relayed 0 2 }, ⟨3, []⟩, false⟩ ∧
      (log.map (·.1)).filterMap Doing.call? =
        [(.transfer .arm9 0, 0, 2), (.transfer .arm9 1, 0, 2), (.transfer .arm9 0, 1, 3),
          (.transfer .arm9 1, 0, 3)] := by
  obtain ⟨⟨log, q, course, -, -, -, -, -, -, -, remembered⟩, -⟩ :=
    events_in_time relay.devices_proper rfl relaying_run
  refine ⟨relay.devices_proper, rfl, relaying_run, log, course, ?_⟩
  have handled := remembered _ relay.devices_remember
  exact handled.symm

end Lockstep.Console
