import Lockstep.Proofs.Console.Record

/-!
No interrupt that devices raise is lost or reaches the wrong processor. It is pending, raised or requested,
until ones are written over it on the processor's own bus, or until a reset; and it is requested once the
access or the event is over in which it was raised for that processor.
-/

namespace Lockstep.Console

theorem Each.get_set {α : Type} (e : Each α) (id id' : ProcessorId) (a : α) :
    (e.set id a).get id' = if id' = id then a else e.get id' := by
  cases id <;> cases id' <;> rfl

namespace Wires

/-- The lines of a processor that were raised or are requested. -/
def pending (w : Wires) (id : ProcessorId) : Word := w.raised.get id ||| w.requested.get id

variable {w : Wires} {id : ProcessorId} {line : Nat}

theorem getLsbD_pending (w : Wires) (id : ProcessorId) (line : Nat) :
    (w.pending id).getLsbD line = ((w.raised.get id).getLsbD line || (w.requested.get id).getLsbD line) :=
  BitVec.getLsbD_or

theorem after_cons (w : Wires) (x : Signal) (signals : List Signal) :
    w.after (x :: signals) = (x.apply w).after signals := rfl

/-- A line that was raised is pending, and so is what was pending before. -/
theorem pending_raise (w : Wires) (id' : ProcessorId) (line' : Nat) :
    (((Signal.raise id' line').apply w).pending id).getLsbD line =
      ((w.pending id).getLsbD line || decide (id = id' ∧ line' < 32 ∧ line' = line)) := by
  have bit : (1#32 <<< line').getLsbD line = (decide (line' < 32) && decide (line' = line)) :=
    BitVec.getLsbD_twoPow ..
  simp only [Signal.apply, getLsbD_pending, Each.get_set]
  split_ifs with same
  · subst same
    simp only [BitVec.getLsbD_or, bit, true_and, Bool.decide_and]
    grind
  · simp only [same, false_and, decide_false, Bool.or_false]

theorem pending_deliver (w : Wires) (id' : ProcessorId) :
    ((Signal.deliver id').apply w).pending id = w.pending id := by
  simp only [Signal.apply, pending, Each.get_set]
  split_ifs with same
  · subst same
    exact (BitVec.zero_or ..).trans (BitVec.or_comm ..)
  · rfl

theorem pending_acknowledge (w : Wires) (id' : ProcessorId) (lines : Word) :
    (((Signal.acknowledge id' lines).apply w).pending id).getLsbD line =
      ((w.raised.get id).getLsbD line ||
        (w.requested.get id).getLsbD line && !(decide (id = id') && lines.getLsbD line)) := by
  simp only [Signal.apply, getLsbD_pending, Each.get_set]
  split_ifs with same
  · simp only [same, BitVec.getLsbD_and, BitVec.getLsbD_not]
    by_cases inside : line < 32
    · simp [inside]
    · simp [inside, BitVec.getLsbD_of_ge _ _ (Nat.le_of_not_lt inside)]
  · simp only [same, decide_false, Bool.false_and, Bool.not_false, Bool.and_true]

/-- Only a write of ones to a pending line, or a reset, takes it back. -/
theorem pending_apply {x : Signal} (h : (w.pending id).getLsbD line)
    (kept : ∀ lines, x = .acknowledge id lines → lines.getLsbD line = false) (going : x ≠ .reset) :
    ((x.apply w).pending id).getLsbD line := by
  cases x with
  | raise id' line' =>
    rw [pending_raise, h]
    rfl
  | deliver id' => rwa [pending_deliver]
  | acknowledge id' lines =>
    have spared : (decide (id = id') && lines.getLsbD line) = false := by
      by_cases same : id = id'
      · rw [kept lines (congrArg (Signal.acknowledge · lines) same.symm), Bool.and_false]
      · rw [decide_eq_false same, Bool.false_and]
    rwa [pending_acknowledge, spared, Bool.not_false, Bool.and_true, ← getLsbD_pending]
  | reset => exact absurd rfl going

theorem pending_after {signals : List Signal} (h : (w.pending id).getLsbD line)
    (kept : ∀ lines, .acknowledge id lines ∈ signals → lines.getLsbD line = false)
    (going : .reset ∉ signals) : ((w.after signals).pending id).getLsbD line := by
  induction signals generalizing w with
  | nil => exact h
  | cons x signals ih =>
    refine ih (pending_apply h (fun lines hx => ?_) fun hx => ?_) (fun lines hx => ?_) fun hx => ?_
    · exact kept lines (hx ▸ List.mem_cons_self)
    · exact going (hx ▸ List.mem_cons_self)
    · exact kept lines (List.mem_cons_of_mem x hx)
    · exact going (List.mem_cons_of_mem x hx)

/-- What is raised stays pending until it is taken back. -/
theorem raised_pending (w : Wires) {before after : List Signal} (h : line < 32)
    (kept : ∀ lines, .acknowledge id lines ∈ after → lines.getLsbD line = false) (going : .reset ∉ after) :
    ((w.after (before ++ .raise id line :: after)).pending id).getLsbD line := by
  rw [after_append, after_cons]
  refine pending_after ?_ kept going
  simp only [pending_raise, h, and_self, decide_true, Bool.or_true]

/-- A line is pending only for a processor that it was raised for. -/
theorem pending_origin (signals : List Signal) (h : ((w.after signals).pending id).getLsbD line) :
    (w.pending id).getLsbD line ∨ .raise id line ∈ signals := by
  induction signals generalizing w with
  | nil => exact .inl h
  | cons x signals ih =>
    rcases ih h with h | h
    · cases x with
      | raise id' line' =>
        rw [pending_raise, Bool.or_eq_true, decide_eq_true_eq] at h
        rcases h with h | ⟨rfl, -, rfl⟩
        · exact .inl h
        · exact .inr List.mem_cons_self
      | deliver id' => exact .inl (pending_deliver w id' ▸ h)
      | acknowledge id' lines =>
        rw [pending_acknowledge] at h
        rw [getLsbD_pending]
        exact .inl (by grind)
      | reset =>
        have none : (Signal.reset.apply w).pending id = 0#32 := by cases id <;> exact BitVec.or_zero
        rw [none, BitVec.getLsbD_zero] at h
        cases h
    · exact .inr (List.mem_cons_of_mem x h)

/-- Nothing waits for a processor that has just got what was raised for it. -/
theorem requested_of_pending (h : (w.pending id).getLsbD line) (delivered : w.raised.get id = 0) :
    (w.requested.get id).getLsbD line := by
  simpa [getLsbD_pending, delivered] using h

end Wires

-- Nothing is taken back in calls of devices, and at their end what was raised is delivered.

theorem Action.mem_raises {acts : List Action} {x : Signal} (h : x ∈ raises acts) :
    ∃ id line, x = .raise id line := by
  obtain ⟨a, -, ha⟩ := List.mem_filterMap.1 h
  cases a <;> cases ha
  exact ⟨_, _, rfl⟩

theorem Wires.raised_after_deliver (w : Wires) (ids : List ProcessorId) (id : ProcessorId) :
    (w.after (ids.map .deliver)).raised.get id = if id ∈ ids then 0 else w.raised.get id := by
  induction ids generalizing w with
  | nil => rfl
  | cons id' ids ih =>
    rw [List.map_cons, after_cons, ih, Signal.apply, Each.get_set]
    simp only [List.mem_cons]
    grind

theorem Action.mem_raises_deliver (acts : List Action) (ids : List ProcessorId) {x : Signal}
    (h : x ∈ raises acts ++ ids.map .deliver) : (∃ id line, x = .raise id line) ∨ ∃ id, x = .deliver id := by
  rcases List.mem_append.1 h with h | h
  · exact .inl (mem_raises h)
  · obtain ⟨id, -, rfl⟩ := List.mem_map.1 h
    exact .inr ⟨id, rfl⟩

/-- What is raised for a processor among those that then get it, is requested of it. -/
theorem Wires.requested_after_raises (w : Wires) {acts : List Action} (ids : List ProcessorId)
    {id : ProcessorId} {line : Nat} (raised : .raise id line ∈ Action.raises acts) (h : line < 32)
    (reached : id ∈ ids) :
    ((w.after (Action.raises acts ++ ids.map .deliver)).requested.get id).getLsbD line := by
  obtain ⟨before, after, split⟩ := List.append_of_mem raised
  have gentle : ∀ x ∈ after ++ ids.map .deliver, (∃ id line, x = .raise id line) ∨ ∃ id, x = .deliver id := by
    intro x hx
    refine Action.mem_raises_deliver acts ids ?_
    rw [split, List.append_assoc]
    exact List.mem_append_right before (List.mem_cons_of_mem _ hx)
  refine requested_of_pending ?_ ?_
  · rw [split, List.append_assoc, List.cons_append]
    refine raised_pending w h (fun lines hx => ?_) fun hx => ?_
    · rcases gentle _ hx with ⟨_, _, h⟩ | ⟨_, h⟩ <;> cases h
    · rcases gentle _ hx with ⟨_, _, h⟩ | ⟨_, h⟩ <;> cases h
  · rw [after_append, raised_after_deliver, if_pos reached]

variable {δ : Type} {devices : Devices δ}

theorem raise_mem_of_mem_append {acts : List Action} (ids : List ProcessorId) {id : ProcessorId} {line : Nat}
    (h : .raise id line ∈ Action.raises acts ++ ids.map .deliver) : .raise id line ∈ Action.raises acts := by
  rcases List.mem_append.1 h with h | h
  · exact h
  · obtain ⟨_, -, h⟩ := List.mem_map.1 h
    cases h

section
variable (acts : devices.Acts) {id : ProcessorId} {line : Nat}

/-- What devices raise for the processor that calls them is requested of it after the call. -/
theorem requested_after_call {s : Board δ} {m m' : Node δ} {actions : List Action}
    (wires : (s.put id m').wires = (s.put id m).wires.after (callSignals id actions))
    (raised : .raise id line ∈ callSignals id actions) (h : line < 32) :
    m'.cpu.interrupts.requested.getLsbD line := by
  have requested := Wires.requested_after_raises (s.put id m).wires [id]
    (raise_mem_of_mem_append [id] raised) h List.mem_cons_self
  have all : (s.put id m').wires.requested.get id = m'.cpu.interrupts.requested := by
    rw [put_wires, Each.get_set, if_pos rfl]
  rw [← all, wires]
  exact requested

theorem requested_after_get {w : Width} {a : Address} {m : Node δ}
    (raised : .raise id line ∈ readSignals acts id w a m) (h : line < 32) :
    ((Board.bus devices id).get w a m).2.cpu.interrupts.requested.getLsbD line := by
  -- The access does not depend on the other processor, so any console around this one will do.
  have wires := wires_get acts ⟨m.cpu, m.cpu, m.system, true, m.journal⟩ id w a m
  rcases readSignals_cases acts id w a m with none | ⟨actions, called⟩
  · rw [none] at raised
    cases raised
  · rw [called] at raised wires
    exact requested_after_call wires raised h

theorem requested_after_set {w : Width} {a : Address} {v : Word} {m : Node δ}
    (raised : .raise id line ∈ writeSignals acts id w a v m) (h : line < 32) :
    ((Board.bus devices id).set w a v m).cpu.interrupts.requested.getLsbD line := by
  have wires := wires_set acts ⟨m.cpu, m.cpu, m.system, true, m.journal⟩ id w a v m
  rcases writeSignals_cases acts id w a v m with none | ⟨lines, taken⟩ | ⟨actions, called⟩
  · rw [none] at raised
    cases raised
  · rw [taken] at raised
    cases List.mem_singleton.1 raised
  · rw [called] at raised wires
    exact requested_after_call wires raised h

theorem Board.requested_eq (s : Board δ) (id : ProcessorId) :
    s.wires.requested.get id = (s.processor id).interrupts.requested := by
  cases id <;> rfl

theorem Board.pending_eq (s : Board δ) (id : ProcessorId) :
    s.wires.pending id = s.hardware.raised.get id ||| (s.processor id).interrupts.requested :=
  congrArg (s.hardware.raised.get id ||| ·) (s.requested_eq id)

/-- What devices raise while they handle an event is requested before anything else happens. -/
theorem requested_after_dispatch {s : Board δ} (raised : .raise id line ∈ Part.dispatch.signals acts s)
    (h : line < 32) :
    ((Part.dispatch.apply devices s).processor id).interrupts.requested.getLsbD line := by
  have raised : .raise id line ∈ dispatchSignals acts s := raised
  rw [← Board.requested_eq, wires_dispatch acts s]
  unfold dispatchSignals at raised ⊢
  split at raised
  · exact Wires.requested_after_raises s.wires [.arm9, .arm7]
      (raise_mem_of_mem_append [.arm9, .arm7] raised) h (by cases id <;> decide)
  · cases raised

end

/-- Nothing that was raised is left behind by an advance that comes to its end. -/
theorem advance_delivers {limit : Nat} {s s' : Board δ} (h : Drive.advance devices limit s = .ok () s') :
    s'.hardware.raised = .both 0 := by
  obtain ⟨s₁, -, -, dispatched, -⟩ := Drive.advance_ok h
  clear h
  -- Nothing is left behind before the first event is dispatched, and each event delivers what it raised.
  induction dispatched with
  | refl => rfl
  | tail _ one ih =>
    obtain ⟨due⟩ := one
    rename_i e schedule
    rcases e with ⟨_ | event, lateBy⟩
    · exact ih
    · rfl

/-- Requests are taken back by a processor's own steps and by writes from outside on its bus, and by a reset. -/
theorem Part.signals_cases (acts : devices.Acts) {s : Board δ} {p : Part} {x : Signal}
    (h : x ∈ p.signals acts s) :
    (∃ id line, x = .raise id line) ∨ (∃ id, x = .deliver id) ∨
      (∃ id lines, x = .acknowledge id lines ∧ (p = .step id ∨ ∃ w a v, p = .set id w a v)) ∨
        x = .reset ∧ p = .reset := by
  have called (actions : List Action) (ids : List ProcessorId)
      (h : x ∈ Action.raises actions ++ ids.map .deliver) :
      (∃ id line, x = .raise id line) ∨ (∃ id, x = .deliver id) ∨
        (∃ id lines, x = .acknowledge id lines ∧ (p = .step id ∨ ∃ w a v, p = .set id w a v)) ∨
          x = .reset ∧ p = .reset :=
    (Action.mem_raises_deliver actions ids h).imp_right .inl
  cases p with
  | step id =>
    have caused := (wires_step acts s id).1 x h
    cases x with
    | raise id' line => exact .inl ⟨_, _, rfl⟩
    | deliver id' => exact .inr (.inl ⟨_, rfl⟩)
    | acknowledge id' lines =>
      cases caused
      exact .inr (.inr (.inl ⟨_, _, rfl, .inl rfl⟩))
    | reset => cases caused
  | get id w a =>
    have h : x ∈ readSignals acts id w a (s.node id) := h
    rcases readSignals_cases acts id w a (s.node id) with none | ⟨actions, same⟩
    · rw [none] at h
      cases h
    · rw [same] at h
      exact called actions [id] h
  | set id w a v =>
    have h : x ∈ writeSignals acts id w a v (s.node id) := h
    rcases writeSignals_cases acts id w a v (s.node id) with none | ⟨lines, taken⟩ | ⟨actions, same⟩
    · rw [none] at h
      cases h
    · rw [taken] at h
      exact .inr (.inr (.inl ⟨id, lines, List.mem_singleton.1 h, .inr ⟨w, a, v, rfl⟩⟩))
    · rw [same] at h
      exact called actions [id] h
  | deliver => exact called [] [.arm9, .arm7] h
  | dispatch =>
    have h : x ∈ dispatchSignals acts s := h
    unfold dispatchSignals at h
    split at h
    · exact called _ [.arm9, .arm7] h
    · cases h
  | reset => exact .inr (.inr (.inr ⟨List.mem_singleton.1 h, rfl⟩))
  | clock | plan | mark | enterProgram => cases h

/-- No interrupt is lost or misdelivered. Whatever is done with a console, short of a reset, is a run of
parts, and what an advance does has no access from outside among its parts. In every run of parts, a line
that devices raise stays pending for its processor until ones are written over it or a reset comes; only
steps of that processor and writes from outside on its bus do the former. A line is requested of a processor
only if it was pending for it at the start or was raised for it. It is requested once the access or the event
is over in which it was raised, and an advance that comes to its end leaves nothing behind. -/
theorem interrupts_arrive (acts : devices.Acts) :
    (∀ s s', Relation.ReflTransGen (Operation devices) s s' → Part.Leads devices (· ≠ .reset) s s') ∧
    (∀ limit s s', Drive.Leaves (Drive.advance devices limit) s s' → Part.Leads devices Part.Inner s s') ∧
    (∀ limit cycles s s', Drive.Leaves (Drive.runFor devices limit cycles) s s' →
      Part.Leads devices Part.Inner s s') ∧
    (∀ s parts before after id line, Part.record acts s parts = before ++ .raise id line :: after → line < 32 →
      (∀ lines, .acknowledge id lines ∈ after → lines.getLsbD line = false) → .reset ∉ after →
        let s' := Part.run devices s parts
        (s'.hardware.raised.get id ||| (s'.processor id).interrupts.requested).getLsbD line) ∧
    (∀ s (p : Part) id lines, .acknowledge id lines ∈ p.signals acts s →
      p = .step id ∨ ∃ w a v, p = .set id w a v) ∧
    (∀ s (p : Part), .reset ∈ p.signals acts s → p = .reset) ∧
    (∀ s parts id line, ((Part.run devices s parts).processor id).interrupts.requested.getLsbD line →
      (s.hardware.raised.get id ||| (s.processor id).interrupts.requested).getLsbD line ∨
        .raise id line ∈ Part.record acts s parts) ∧
    (∀ id w a m line, .raise id line ∈ readSignals acts id w a m → line < 32 →
      ((Board.bus devices id).get w a m).2.cpu.interrupts.requested.getLsbD line) ∧
    (∀ id w a v m line, .raise id line ∈ writeSignals acts id w a v m → line < 32 →
      ((Board.bus devices id).set w a v m).cpu.interrupts.requested.getLsbD line) ∧
    (∀ s id line, .raise id line ∈ Part.dispatch.signals acts s → line < 32 →
      ((Part.dispatch.apply devices s).processor id).interrupts.requested.getLsbD line) ∧
    (∀ limit s s', Drive.advance devices limit s = .ok () s' → s'.hardware.raised = .both 0) := by
  refine ⟨fun s s' => Operation.all_lead, fun limit s s' => Part.Leads.advance,
    fun limit cycles s s' => Part.Leads.runFor, ?_, ?_, ?_, ?_, fun id w a m line => requested_after_get acts,
    fun id w a v m line => requested_after_set acts, fun s id line => requested_after_dispatch acts,
    fun limit s s' => advance_delivers⟩
  · intro s parts before after id line record h kept going s'
    rw [← Board.pending_eq, Part.run_wires acts, record]
    exact Wires.raised_pending s.wires h kept going
  · intro s p id lines h
    rcases Part.signals_cases acts h with ⟨_, _, h⟩ | ⟨_, h⟩ | ⟨_, _, h, taken⟩ | ⟨h, -⟩ <;> cases h
    exact taken
  · intro s p h
    rcases Part.signals_cases acts h with ⟨_, _, h⟩ | ⟨_, h⟩ | ⟨_, _, h, -⟩ | ⟨-, reset⟩
    · cases h
    · cases h
    · cases h
    · exact reset
  · intro s parts id line h
    rw [← Board.requested_eq, Part.run_wires acts] at h
    rw [← Board.pending_eq]
    refine Wires.pending_origin (Part.record acts s parts) ?_
    rw [Wires.getLsbD_pending, h, Bool.or_true]

/-- Devices that raise the first line of the ARM9 when a line of the display ends. -/
def lineEnd : Script where
  onEvent := [(.display .lineBlankStart, [.raise .arm9 0])]

/-- A console about to come to the end of a line. -/
def beforeLineEnd : Board ScriptState := (Board.powerOn {} {}).scheduleAfter (.display .lineBlankStart) 1

/-- In the record of what happens then, the line is raised and delivered, so that it arrives. -/
theorem lineEnd_arrives :
    let parts := [Part.deliver, .clock, .dispatch]
    let s := Part.run lineEnd.devices beforeLineEnd parts
    Part.record lineEnd.acts beforeLineEnd parts = deliverSignals ++ .raise .arm9 0 :: deliverSignals ∧
      (s.hardware.raised.get .arm9 ||| (s.processor .arm9).interrupts.requested).getLsbD 0 := by
  intro parts s
  have record :
      Part.record lineEnd.acts beforeLineEnd parts = deliverSignals ++ .raise .arm9 0 :: deliverSignals := by
    decide +kernel
  obtain ⟨-, -, -, pending, -⟩ := interrupts_arrive lineEnd.acts
  refine ⟨record, pending beforeLineEnd parts _ _ .arm9 0 record (by decide) (fun lines h => ?_) (by decide)⟩
  simp [deliverSignals] at h

/-- The console after an advance to the end of the line. -/
def afterLineEnd : Board ScriptState :=
  match Drive.advance lineEnd.devices 1 beforeLineEnd with
  | .ok _ s | .error _ s => s

theorem afterLineEnd_operated : afterLineEnd.Operated lineEnd.devices := by
  have left : Drive.Leaves (Drive.advance lineEnd.devices 1) beforeLineEnd afterLineEnd := by
    unfold Drive.Leaves afterLineEnd
    cases Drive.advance lineEnd.devices 1 beforeLineEnd with
    | ok _ s => exact .inl rfl
    | error e s => exact .inr ⟨e, rfl⟩
  exact ⟨_, _, .tail (.single (.inl (.schedule _ _ _))) (.inl (.advance 1 left))⟩

/-- A write from outside takes the request back as well, with no step of the processor and no reset. -/
theorem taken_back_from_outside :
    let s := afterLineEnd.writeWord lineEnd.devices .arm9 0x04000214 1
    afterLineEnd.Operated lineEnd.devices ∧ afterLineEnd.cpu9.interrupts.requested = 1 ∧
      Operation lineEnd.devices afterLineEnd s ∧
      s.hardware.raised.get .arm9 ||| s.cpu9.interrupts.requested = 0 := by
  refine ⟨afterLineEnd_operated, ?_, .store _ .arm9 .word _ _, ?_⟩
  · decide +kernel
  · decide +kernel

end Lockstep.Console
