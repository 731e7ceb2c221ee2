import Lockstep.Proofs.Console.Noting

/-!
A record of what happens to the interrupt lines. Devices raise lines, what they raised is delivered, and
processors acknowledge what was delivered to them. Every part of what goes on in a console has its record; that
of a step is taken by a bus that does the same as the processor's own and writes down each access on the way.
What is raised and what is requested after any parts is what their record makes of it.
-/

namespace Lockstep

namespace Console

inductive Signal where
  /-- Devices raise a line of a processor. -/
  | raise (id : ProcessorId) (line : Nat)
  /-- What was raised for a processor reaches it. -/
  | deliver (id : ProcessorId)
  /-- Ones are written over requests of a processor. -/
  | acknowledge (id : ProcessorId) (lines : Word)
  | reset
deriving DecidableEq, Repr

/-- The interrupt lines: what was raised and has not reached the processors, and what is requested of them. -/
structure Wires where
  raised : Each Word
  requested : Each Word
deriving DecidableEq, Repr

def Signal.apply (w : Wires) : Signal → Wires
  | .raise id line => { w with raised := w.raised.set id (w.raised.get id ||| 1#32 <<< line) }
  | .deliver id =>
    { raised := w.raised.set id 0
      requested := w.requested.set id (w.requested.get id ||| w.raised.get id) }
  | .acknowledge id lines => { w with requested := w.requested.set id (w.requested.get id &&& ~~~lines) }
  | .reset => ⟨.both 0, .both 0⟩

/-- What an access of a processor can bring about. It can make devices raise lines of either processor. -/
def Signal.CausedBy (id : ProcessorId) : Signal → Prop
  | .raise .. => True
  | .deliver id' | .acknowledge id' _ => id' = id
  | .reset => False

def Wires.after (w : Wires) (signals : List Signal) : Wires := signals.foldl Signal.apply w

theorem Wires.after_append (w : Wires) (first second : List Signal) :
    w.after (first ++ second) = (w.after first).after second := List.foldl_append

variable {δ : Type}

def Board.wires (s : Board δ) : Wires :=
  ⟨s.hardware.raised, ⟨s.cpu7.interrupts.requested, s.cpu9.interrupts.requested⟩⟩

/-- The actions that devices take when they are called, where they use the console only as it offers itself to
them. -/
structure Devices.Acts (devices : Devices δ) where
  read : ProcessorId → Address → δ → DeviceContext → List Action
  write : ProcessorId → Address → (v mask : Word) → δ → DeviceContext → List Action
  handle : DeviceEvent → (lateBy : Nat) → δ → DeviceContext → List Action
  reads : ∀ id a d (c : DeviceContext), c.Performs (devices.read id a d c).2.2 (read id a d c)
  writes : ∀ id a v mask d (c : DeviceContext),
    c.Performs (devices.write id a v mask d c).2.2 (write id a v mask d c)
  handles : ∀ e lateBy d (c : DeviceContext), c.Performs (devices.handle e lateBy d c).2 (handle e lateBy d c)

def Script.acts (s : Script) : s.devices.Acts where
  read _ a _ _ := (s.onRead.lookup a).getD []
  write _ a _ _ _ _ := (s.onWrite.lookup a).getD []
  handle e _ _ _ := (s.onEvent.lookup e).getD []
  reads _ _ _ _ := ⟨rfl, rfl⟩
  writes _ _ _ _ _ _ := ⟨rfl, rfl⟩
  handles _ _ _ _ := ⟨rfl, rfl⟩

def Action.signal? : Action → Option Signal
  | .raise id line => some (.raise id line)
  | .plan .. | .cancel _ | .pause => none

def Action.raises (acts : List Action) : List Signal := acts.filterMap Action.signal?

theorem Action.raises_after (acts : List Action) (c : DeviceContext) (requested : Each Word) :
    Wires.after ⟨c.raised, requested⟩ (raises acts) = ⟨(acts.foldl Action.perform c).raised, requested⟩ := by
  induction acts generalizing c with
  | nil => rfl
  | cons a acts ih =>
    cases a with
    | raise id line => exact ih (c.raise id line)
    | plan e delay => exact ih (c.scheduleAfter e delay)
    | cancel e => exact ih (c.cancel e)
    | pause => exact ih c.pause

section
variable {devices : Devices δ} (acts : devices.Acts) (id : ProcessorId)

def callSignals (acts : List Action) : List Signal := Action.raises acts ++ [.deliver id]

def readSignals (w : Width) (a : Address) (m : Node δ) : List Signal :=
  let a := w.align a
  let called := callSignals id (acts.read id (Lane.wordOf a) m.system.devices m.context)
  match Place.of id false m.system.control a with
  | .io => if (CoreWord.ofAddress? (Lane.wordOf a)).isSome then [] else called
  | .video => called
  | .memory .. | .firmware _ | .nothing => []

def writeSignals (w : Width) (a : Address) (v : Word) (m : Node δ) : List Signal :=
  let a := w.align a
  let v := v <<< Lane.shift a
  let mask := Lane.mask w a
  let called := callSignals id (acts.write id (Lane.wordOf a) v mask m.system.devices m.context)
  match Place.of id true m.system.control a with
  | .io =>
    match CoreWord.ofAddress? (Lane.wordOf a) with
    | some .requested => [.acknowledge id (v &&& mask)]
    | some _ => []
    | none => called
  | .video => called
  | .memory .. | .firmware _ | .nothing => []

end

section
variable {devices : Devices δ} (acts : devices.Acts) (id : ProcessorId)

theorem callSignals_caused {acts : List Action} : ∀ x ∈ callSignals id acts, x.CausedBy id := by
  intro x hx
  rcases List.mem_append.1 hx with hx | hx
  · obtain ⟨a, -, ha⟩ := List.mem_filterMap.1 hx
    cases a <;> cases ha
    trivial
  · cases List.mem_singleton.1 hx
    rfl

/-- A read calls the devices, or nothing happens in it. -/
theorem readSignals_cases (w : Width) (a : Address) (m : Node δ) :
    readSignals acts id w a m = [] ∨ ∃ actions, readSignals acts id w a m = callSignals id actions := by
  unfold readSignals
  simp only
  split
  · split_ifs
    · exact .inl rfl
    · exact .inr ⟨_, rfl⟩
  · exact .inr ⟨_, rfl⟩
  all_goals exact .inl rfl

/-- A write calls the devices or takes back requests, or nothing happens in it. -/
theorem writeSignals_cases (w : Width) (a : Address) (v : Word) (m : Node δ) :
    writeSignals acts id w a v m = [] ∨ (∃ lines, writeSignals acts id w a v m = [.acknowledge id lines]) ∨
      ∃ actions, writeSignals acts id w a v m = callSignals id actions := by
  unfold writeSignals
  simp only
  split
  · split
    · exact .inr (.inl ⟨_, rfl⟩)
    · exact .inl rfl
    · exact .inr (.inr ⟨_, rfl⟩)
  · exact .inr (.inr ⟨_, rfl⟩)
  all_goals exact .inl rfl

theorem readSignals_caused (w : Width) (a : Address) (m : Node δ) :
    ∀ x ∈ readSignals acts id w a m, x.CausedBy id := by
  rcases readSignals_cases acts id w a m with none | ⟨actions, called⟩
  · exact none ▸ nofun
  · exact called ▸ callSignals_caused id

theorem writeSignals_caused (w : Width) (a : Address) (v : Word) (m : Node δ) :
    ∀ x ∈ writeSignals acts id w a v m, x.CausedBy id := by
  rcases writeSignals_cases acts id w a v m with none | ⟨lines, taken⟩ | ⟨actions, called⟩
  · exact none ▸ nofun
  · rw [taken]
    exact fun x hx => List.mem_singleton.1 hx ▸ rfl
  · exact called ▸ callSignals_caused id

end

section
variable {devices : Devices δ} (acts : devices.Acts) (s : Board δ) (id : ProcessorId)

/-- The interrupt lines of a console with a processor and what is around it put back. -/
theorem put_wires (m : Node δ) :
    (s.put id m).wires = ⟨m.system.raised, s.wires.requested.set id m.cpu.interrupts.requested⟩ := by
  cases id <;> rfl

variable {s id} in
theorem put_wires_congr {m m' : Node δ} (raised : m'.system.raised = m.system.raised)
    (requested : m'.cpu.interrupts.requested = m.cpu.interrupts.requested) :
    (s.put id m').wires = (s.put id m).wires := by
  rw [put_wires, put_wires, raised, requested]

theorem wires_call {m : Node δ} {c : DeviceContext} {actions : List Action}
    (performs : m.context.Performs c actions) (devices : δ) :
    (s.put id (Node.receiveInterrupts id
      { m with
        system := { m.system with devices, schedule := c.schedule, raised := c.raised }
        journal := c.journal })).wires =
      (s.put id m).wires.after (callSignals id actions) := by
  rw [callSignals, Wires.after_append, put_wires s id m]
  have raised : m.system.raised = m.context.raised := rfl
  rw [raised, Action.raises_after, ← performs.2]
  cases id <;> rfl

theorem wires_readDevice (word : Address) (m : Node δ) :
    (s.put id (Node.readDevice devices id word m).2).wires =
      (s.put id m).wires.after (callSignals id (acts.read id word m.system.devices m.context)) :=
  wires_call s id (acts.reads id word m.system.devices m.context) _

theorem wires_writeDevice (word : Address) (v mask : Word) (m : Node δ) :
    (s.put id (Node.writeDevice devices id word v mask m).2).wires =
      (s.put id m).wires.after (callSignals id (acts.write id word v mask m.system.devices m.context)) :=
  wires_call s id (acts.writes id word v mask m.system.devices m.context) _

theorem wires_note (m : Node δ) (l : Level) (t : String) :
    (s.put id (m.note l t)).wires = (s.put id m).wires := by
  cases id <;> rfl

theorem wires_readNothing (w : Width) (a : Address) (m : Node δ) :
    (s.put id (Node.readNothing id w a m).2).wires = (s.put id m).wires := by
  unfold Node.readNothing
  simp only
  split_ifs
  · rfl
  · exact wires_note s id m _ _

/-- A read does to the interrupt lines what happens in it. -/
theorem wires_get (w : Width) (a : Address) (m : Node δ) :
    (s.put id ((Board.bus devices id).get w a m).2).wires =
      (s.put id m).wires.after (readSignals acts id w a m) := by
  rw [bus_get]
  unfold readSignals
  simp only
  cases Place.of id false m.system.control (w.align a) with
  | memory r offset => rfl
  | firmware offset =>
    unfold Node.readPlace
    simp only
    split
    · rfl
    · exact wires_readNothing s id w _ m
  | io =>
    have called := wires_readDevice acts s id (Lane.wordOf (w.align a)) m
    unfold Node.readPlace Node.readIo
    simp only
    cases CoreWord.ofAddress? (Lane.wordOf (w.align a)) with
    | some r => rfl
    | none =>
      rcases hd : Node.readDevice devices id (Lane.wordOf (w.align a)) m with ⟨_ | v, m₁⟩ <;>
        rw [hd] at called
      · exact (wires_note s id m₁ _ _).trans called
      · exact called
  | video =>
    have called := wires_readDevice acts s id (Lane.wordOf (w.align a)) m
    unfold Node.readPlace Node.readVideo
    simp only
    rcases hd : Node.readDevice devices id (Lane.wordOf (w.align a)) m with ⟨_ | v, m₁⟩ <;>
      rw [hd] at called
    · exact (wires_readNothing s id w _ m₁).trans called
    · exact called
  | nothing => exact wires_readNothing s id w _ m

theorem wires_writeCore (r : CoreWord) (v mask : Word) (m : Node δ) :
    (s.put id (Node.writeCore id r v mask m)).wires =
      (s.put id m).wires.after
        (match r with
          | .requested => [.acknowledge id (v &&& mask)]
          | _ => []) := by
  cases r with
  | requested =>
    rw [put_wires, put_wires]
    cases id <;> rfl
  | externalMemory | enabled => exact put_wires_congr rfl rfl
  | masterEnable =>
    refine put_wires_congr ?_ ?_
    all_goals unfold Node.writeCore
    all_goals simp only
    all_goals split_ifs <;> rfl
  | bootFlag =>
    have powered : ∀ (v : BitVec 8) (m : Node δ),
        (s.put id (Node.setPower v m)).wires = (s.put id m).wires := by
      intro v m
      unfold Node.setPower
      split <;> cases id <;> rfl
    unfold Node.writeCore
    simp only
    split_ifs
    · exact (powered _ _).trans (put_wires_congr rfl rfl)
    · exact powered _ m
    · exact put_wires_congr rfl rfl
    · rfl

/-- A write does to the interrupt lines what happens in it. -/
theorem wires_set (w : Width) (a : Address) (v : Word) (m : Node δ) :
    (s.put id ((Board.bus devices id).set w a v m)).wires =
      (s.put id m).wires.after (writeSignals acts id w a v m) := by
  rw [bus_set]
  unfold writeSignals
  simp only
  cases Place.of id true m.system.control (w.align a) with
  | memory r offset => exact put_wires_congr rfl rfl
  | firmware | nothing => exact wires_note s id m _ _
  | io =>
    have called := wires_writeDevice acts s id (Lane.wordOf (w.align a))
      (v <<< Lane.shift (w.align a)) (Lane.mask w (w.align a)) m
    unfold Node.writePlace Node.writeIo
    simp only
    cases CoreWord.ofAddress? (Lane.wordOf (w.align a)) with
    | some r =>
      have written := wires_writeCore s id r (v <<< Lane.shift (w.align a)) (Lane.mask w (w.align a)) m
      cases r <;> exact written
    | none =>
      rcases hd : Node.writeDevice devices id (Lane.wordOf (w.align a)) (v <<< Lane.shift (w.align a))
        (Lane.mask w (w.align a)) m with ⟨_ | _, m₁⟩ <;> rw [hd] at called
      · exact (wires_note s id m₁ _ _).trans called
      · exact called
  | video =>
    have called := wires_writeDevice acts s id (Lane.wordOf (w.align a))
      (v <<< Lane.shift (w.align a)) (Lane.mask w (w.align a)) m
    unfold Node.writePlace Node.writeVideo
    simp only
    rcases hd : Node.writeDevice devices id (Lane.wordOf (w.align a)) (v <<< Lane.shift (w.align a))
      (Lane.mask w (w.align a)) m with ⟨_ | _, m₁⟩ <;> rw [hd] at called
    · exact (wires_note s id m₁ _ _).trans called
    · exact called

end

section
variable {devices : Devices δ} (acts : devices.Acts) (s : Board δ) (id : ProcessorId)

/-- The bus of a processor with a record of what happens to the interrupt lines. Firmware calls access memory,
so what they do is recorded as well. -/
def recordingBus : Bus (Hardware δ × List Signal) :=
  { (Board.bus devices id).noting (readSignals acts id) (writeSignals acts id) with
    softwareCall := fun number => do
      if (← get).system.1.config.emulateCalls then
        Firmware.call ((Board.memoryBus devices id).noting (readSignals acts id) (writeSignals acts id)) number
      else return false }

/-- What happens in an access does to the interrupt lines what has to be written down. -/
theorem signals_notes : Node.Notes devices (readSignals acts id) (writeSignals acts id) id fun m signals m' =>
    (∀ x ∈ signals, x.CausedBy id) ∧ (s.put id m').wires = (s.put id m).wires.after signals where
  get w a m := ⟨readSignals_caused acts id w a m, wires_get acts s id w a m⟩
  set w a v m := ⟨writeSignals_caused acts id w a v m, wires_set acts s id w a v m⟩
  own _ _ alone :=
    ⟨nofun, put_wires_congr (congrArg Hardware.raised alone.system)
      (congrArg Interrupts.requested alone.interrupts)⟩
  controlWrite r v m := by
    refine ⟨nofun, ?_⟩
    cases id with
    | arm7 => rfl
    | arm9 =>
      refine put_wires_congr rfl ?_
      show Interrupts.requested (if SystemControl.waits r then m.cpu.halt else m.cpu).interrupts = _
      split_ifs <;> rfl
  append := by
    rintro m₁ m₂ m₃ first second ⟨caused, wires⟩ ⟨caused', wires'⟩
    refine ⟨fun x hx => (List.mem_append.1 hx).elim (caused x) (caused' x), ?_⟩
    rw [wires', wires, Wires.after_append]

def stepSignals : List Signal :=
  ((Exec.step (recordingBus acts id)).final ⟨s.processor id, (s.hardware, []), s.journal⟩).system.2

/-- A step does to the interrupt lines what happens in it, and it brings nothing else about. -/
theorem wires_step :
    (∀ x ∈ stepSignals acts s id, x.CausedBy id) ∧
      (s.put id ((Exec.step (Board.bus devices id)).final (s.node id))).wires =
        s.wires.after (stepSignals acts s id) := by
  have noted := (signals_notes acts s id).step (s.node id)
  have before : (s.put id (s.node id)).wires = s.wires := congrArg Board.wires (s.put_node id)
  rw [before] at noted
  exact noted

end

section
variable {devices : Devices δ} (acts : devices.Acts)

def deliverSignals : List Signal := [.deliver .arm9, .deliver .arm7]

def dispatchSignals (s : Board δ) : List Signal :=
  match s.hardware.schedule.takeDue with
  | (some ⟨.device e, lateBy⟩, schedule) =>
    Action.raises (acts.handle e lateBy s.hardware.devices
      { schedule, raised := s.hardware.raised, journal := s.journal }) ++ deliverSignals
  | _ => []

def Part.signals (s : Board δ) : Part → List Signal
  | .step id => stepSignals acts s id
  | .get id w a => readSignals acts id w a (s.node id)
  | .set id w a v => writeSignals acts id w a v (s.node id)
  | .deliver => deliverSignals
  | .dispatch => dispatchSignals acts s
  | .reset => [.reset]
  | .clock | .plan .. | .mark .. | .enterProgram .. => []

def Part.record : Board δ → List Part → List Signal
  | _, [] => []
  | s, p :: parts => p.signals acts s ++ record (p.apply devices s) parts

theorem wires_deliver (s : Board δ) : s.deliverInterrupts.wires = s.wires.after deliverSignals := rfl

theorem wires_dispatch (s : Board δ) :
    (Part.dispatch.apply devices s).wires = s.wires.after (dispatchSignals acts s) := by
  unfold Part.apply dispatchSignals
  rcases s.hardware.schedule.takeDue with ⟨_ | ⟨_ | e, lateBy⟩, schedule⟩
  · rfl
  · rfl
  · have handled := acts.handles e lateBy s.hardware.devices
      { schedule, raised := s.hardware.raised, journal := s.journal }
    have raised := Action.raises_after (acts.handle e lateBy s.hardware.devices
      { schedule, raised := s.hardware.raised, journal := s.journal })
      { schedule, raised := s.hardware.raised, journal := s.journal } s.wires.requested
    rw [← handled.2] at raised
    rw [Wires.after_append]
    exact (wires_deliver _).trans (congrArg (Wires.after · deliverSignals) raised.symm)

/-- A part does to the interrupt lines what happens in it. -/
theorem Part.wires (s : Board δ) (p : Part) :
    (p.apply devices s).wires = s.wires.after (p.signals acts s) := by
  have here (id : ProcessorId) : (s.put id (s.node id)).wires = s.wires := by rw [s.put_node]
  cases p with
  | step id => exact (wires_step acts s id).2
  | get id w a => exact (wires_get acts s id w a (s.node id)).trans (by rw [here]; rfl)
  | set id w a v => exact (wires_set acts s id w a v (s.node id)).trans (by rw [here]; rfl)
  | dispatch => exact wires_dispatch acts s
  | deliver | clock | plan | mark | enterProgram | reset => rfl

/-- Any parts do to the interrupt lines what their record says. -/
theorem Part.run_wires (s : Board δ) (parts : List Part) :
    (Part.run devices s parts).wires = s.wires.after (Part.record acts s parts) := by
  induction parts generalizing s with
  | nil => rfl
  | cons p parts ih =>
    rw [Part.record, Wires.after_append, ← Part.wires]
    exact ih (p.apply devices s)

end

end Console

end Lockstep
