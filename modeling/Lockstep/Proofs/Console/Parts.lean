import Lockstep.Proofs.Console.InStep

/-!
What happens in a console, part by part. Whatever callers do with it, it is a run of steps, accesses,
deliveries and dispatches, one after the other; so what every part keeps, every operation keeps.
-/

namespace Lockstep.Console

variable {δ : Type} (devices : Devices δ)

namespace Board

theorem node_put (s : Board δ) (id : ProcessorId) (m : Node δ) : (s.put id m).node id = m := by
  cases id <;> rfl

theorem put_node (s : Board δ) (id : ProcessorId) : s.put id (s.node id) = s := by
  cases id <;> rfl

theorem put_put (s : Board δ) (id : ProcessorId) (m m' : Node δ) :
    (s.put id m).put id m' = s.put id m' := by
  cases id <;> rfl

end Board

/-- What a console does at once. -/
inductive Part where
  | step (id : ProcessorId)
  | get (id : ProcessorId) (w : Width) (a : Address)
  | set (id : ProcessorId) (w : Width) (a : Address) (v : Word)
  | deliver
  | clock
  | dispatch
  | plan (e : DeviceEvent) (delay : Nat)
  | mark (running : Bool) (journal : Journal)
  | enterProgram (entry9 entry7 : Address)
  | reset

def Part.apply (s : Board δ) : Part → Board δ
  | .step id => s.put id ((Exec.step (Board.bus devices id)).final (s.node id))
  | .get id w a => s.put id ((Board.bus devices id).get w a (s.node id)).2
  | .set id w a v => s.put id ((Board.bus devices id).set w a v (s.node id))
  | .deliver => s.deliverInterrupts
  | .clock =>
    { s with hardware :=
        { s.hardware with schedule := s.hardware.schedule.advance (Drive.stepLength s) } }
  | .dispatch =>
    match s.hardware.schedule.takeDue with
    | (none, _) => s
    | (some e, schedule) => Drive.dispatch devices e { s with hardware := { s.hardware with schedule } }
  | .plan e delay => s.scheduleAfter e delay
  | .mark running journal => { s with running, journal }
  | .enterProgram entry9 entry7 => s.enterProgram entry9 entry7
  | .reset => s.reset

def Part.run (s : Board δ) (parts : List Part) : Board δ := parts.foldl (Part.apply devices) s

/-- What callers can do with a console that goes on, whether or not it fails. -/
inductive Operation : Board δ → Board δ → Prop where
  | step (s : Board δ) (id : ProcessorId) :
      Operation s (s.put id ((Exec.step (Board.bus devices id)).final (s.node id)))
  | load (s : Board δ) (id : ProcessorId) (w : Width) (a : Address) :
      Operation s (s.withNode id ((Board.bus devices id).load w a)).2
  | store (s : Board δ) (id : ProcessorId) (w : Width) (a : Address) (v : Word) :
      Operation s (s.withNode id fun m => ((), (Board.bus devices id).store w a v m)).2
  | writeBytes (s : Board δ) (id : ProcessorId) (a : Address) (bytes : List (BitVec 8)) :
      Operation s (s.writeBytes devices id a bytes)
  | advance (limit : Nat) {s s' : Board δ} (h : Drive.Leaves (Drive.advance devices limit) s s') :
      Operation s s'
  | runFor (limit cycles : Nat) {s s' : Board δ}
      (h : Drive.Leaves (Drive.runFor devices limit cycles) s s') : Operation s s'
  | schedule (s : Board δ) (e : DeviceEvent) (delay : Nat) : Operation s (s.scheduleAfter e delay)
  | enterProgram (s : Board δ) (entry9 entry7 : Address) : Operation s (s.enterProgram entry9 entry7)

/-- A console that was switched on and has since been operated, reset and booted any number of times. -/
def Board.Operated (s : Board δ) : Prop :=
  ∃ config d, Relation.ReflTransGen
    (fun s s' => Operation devices s s' ∨ s' = s.reset ∨ ∃ entry9 entry7, s' = s.boot entry9 entry7)
    (.powerOn config d) s

/-- What goes on in a console that nobody reaches into from outside. -/
def Part.Inner : Part → Prop
  | .step _ | .deliver | .clock | .dispatch | .mark _ _ => True
  | .get .. | .set .. | .plan .. | .enterProgram .. | .reset => False

def Part.Leads (allowed : Part → Prop) (s s' : Board δ) : Prop :=
  ∃ parts, Part.run devices s parts = s' ∧ ∀ p ∈ parts, allowed p

variable {devices} {allowed : Part → Prop} {s s₁ s' : Board δ}

namespace Part.Leads

theorem refl (s : Board δ) : Leads devices allowed s s := ⟨[], rfl, nofun⟩

theorem one (p : Part) (h : allowed p) (hs : p.apply devices s = s') : Leads devices allowed s s' :=
  ⟨[p], hs, fun _ m => List.mem_singleton.1 m ▸ h⟩

theorem trans (h : Leads devices allowed s s₁) (h' : Leads devices allowed s₁ s') :
    Leads devices allowed s s' := by
  obtain ⟨parts, rfl, all⟩ := h
  obtain ⟨parts', rfl, all'⟩ := h'
  refine ⟨parts ++ parts', List.foldl_append .., fun p m => ?_⟩
  rcases List.mem_append.1 m with m | m
  · exact all p m
  · exact all' p m

theorem mono {allowed' : Part → Prop} (h : Leads devices allowed s s') (all : ∀ p, allowed p → allowed' p) :
    Leads devices allowed' s s' := by
  obtain ⟨parts, ran, only⟩ := h
  exact ⟨parts, ran, fun p m => all p (only p m)⟩

theorem run {id : ProcessorId} {m : Node δ} (h : Exec.Run (Board.bus devices id) (s.node id) m) :
    Leads devices Part.Inner s (s.put id m) := by
  induction h with
  | refl =>
    rw [s.put_node id]
    exact refl s
  | tail _ one ih =>
    subst one
    refine ih.trans (.one (.step id) trivial ?_)
    simp only [Part.apply, Board.node_put, Board.put_put]

theorem runProcessors (h : Drive.Leaves (Drive.runProcessors devices) s s') :
    Leads devices Part.Inner s s' := by
  obtain ⟨m9, m7, run9, run7, rfl⟩ := Drive.runProcessors_run h
  exact (run run9).trans (run run7)

theorem tick (s : Board δ) : Leads devices Part.Inner s (Drive.tick s) :=
  .trans (.one .deliver trivial rfl) (.one .clock trivial rfl)

theorem dispatches (h : Relation.ReflTransGen (Drive.Dispatched devices) s s') :
    Leads devices Part.Inner s s' := by
  induction h with
  | refl => exact refl _
  | tail _ one ih =>
    obtain ⟨due⟩ := one
    refine ih.trans (.one .dispatch trivial ?_)
    simp only [Part.apply, due]

theorem advance {limit : Nat} (h : Drive.Leaves (Drive.advance devices limit) s s') :
    Leads devices Part.Inner s s' := by
  unfold Drive.Leaves at h
  rw [Drive.advance_eq] at h
  cases hr : Drive.runProcessors devices s with
  | error e s₁ =>
    rw [hr] at h
    rcases h with h | ⟨_, h⟩ <;> cases h
    exact (runProcessors (.inr ⟨e, hr⟩)).trans (.one (.mark false _) trivial rfl)
  | ok _ s₁ =>
    rw [hr] at h
    have ran := runProcessors (.inl hr)
    have dispatched := Drive.dispatchDue_dispatches devices limit (Drive.tick s₁)
    simp only at h
    split_ifs at h with shown
    · rcases h with h | ⟨_, h⟩ <;> rw [h] at dispatched <;> cases dispatched
      all_goals exact (ran.trans (tick s₁)).trans (dispatches ‹_›)
    · rcases h with h | ⟨_, h⟩ <;> cases h
      exact ran.trans (.one .deliver trivial rfl)

theorem advanceUntil {limit target steps : Nat}
    (h : Drive.Leaves (Drive.advanceUntil devices limit target steps) s s') :
    Leads devices Part.Inner s s' := by
  induction steps generalizing s with
  | zero =>
    rcases h with h | ⟨_, h⟩ <;> cases h
    exact refl _
  | succ steps ih =>
    unfold Drive.Leaves at h
    rw [Drive.advanceUntil_succ] at h
    split_ifs at h with underway
    · cases ha : Drive.advance devices limit s with
      | error e s₁ =>
        rw [ha] at h
        rcases h with h | ⟨_, h⟩ <;> cases h
        exact advance (.inr ⟨e, ha⟩)
      | ok _ s₁ =>
        rw [ha] at h
        exact (advance (.inl ha)).trans (ih h)
    · rcases h with h | ⟨_, h⟩ <;> cases h
      exact refl _

theorem runFor {limit cycles : Nat} (h : Drive.Leaves (Drive.runFor devices limit cycles) s s') :
    Leads devices Part.Inner s s' := by
  unfold Drive.Leaves at h
  rw [Drive.runFor_eq] at h
  split_ifs at h with shown
  · exact .trans (.one (.mark true s.journal) trivial rfl) (advanceUntil h)
  · rcases h with h | ⟨_, h⟩ <;> cases h
    exact refl s

theorem storeBytes (id : ProcessorId) (bytes : List (BitVec 8)) (a : Address) (s : Board δ) :
    Leads devices (· ≠ .reset) s (s.storeBytes devices id bytes a) := by
  induction bytes generalizing a s with
  | nil => exact refl _
  | cons b bytes ih =>
    unfold Board.storeBytes
    rw [Board.withNode_eq]
    exact .trans (.one (.set id .byte a _) (by simp) rfl) (ih _ _)

end Part.Leads

theorem Part.Inner.ne_reset {p : Part} (h : p.Inner) : p ≠ .reset := by
  rintro rfl
  exact h

/-- Every operation is a run of parts, none of which is a reset. -/
theorem Operation.leads (h : Operation devices s s') : Part.Leads devices (· ≠ .reset) s s' := by
  cases h with
  | step s id => exact .one (.step id) (by simp) rfl
  | load s id w a => exact .one (.get id w a) (by simp) (by rw [Board.withNode_eq]; rfl)
  | store s id w a v => exact .one (.set id w a (w.truncate v)) (by simp) (by rw [Board.withNode_eq]; rfl)
  | writeBytes s id a bytes => exact .storeBytes id bytes a s
  | advance limit h => exact (Part.Leads.advance h).mono fun _ => Part.Inner.ne_reset
  | runFor limit cycles h => exact (Part.Leads.runFor h).mono fun _ => Part.Inner.ne_reset
  | schedule s e delay => exact .one (.plan e delay) (by simp) rfl
  | enterProgram s entry9 entry7 => exact .one (.enterProgram entry9 entry7) (by simp) rfl

theorem Operation.all_lead (h : Relation.ReflTransGen (Operation devices) s s') :
    Part.Leads devices (· ≠ .reset) s s' := by
  induction h with
  | refl => exact .refl s
  | tail _ one ih => exact ih.trans one.leads

end Lockstep.Console
