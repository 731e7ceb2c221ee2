import Lockstep.Console.ScriptedDevices
import Lockstep.Proofs.Console.Viewed

/-!
The journal of a console. Nothing reads it: whatever has been written before, all that callers can do with a console
comes to the same and adds the same to its journal.
-/

namespace Lockstep

def View.after (σ : Type) (before : Journal) : View σ σ where
  system := id
  journal j := before ++ j
  note _ _ _ := Array.append_push

theorem Schedule.planAfter_after {κ : Type} (s : Schedule κ) (kind : κ) (delay : Nat) (before j : Journal) :
    s.planAfter kind delay (before ++ j) =
      ((s.planAfter kind delay j).1, before ++ (s.planAfter kind delay j).2) := by
  unfold planAfter planAt
  cases s.plan? kind (min (s.now + delay) lastTime) with
  | some s => rfl
  | none => exact congrArg (Prod.mk s) Array.append_push.symm

namespace Console

variable {δ α : Type} (before : Journal)

def DeviceContext.after (c : DeviceContext) : DeviceContext := { c with journal := before ++ c.journal }

/-- Devices that may add to the journal, but do not look at what has been written before. -/
structure Devices.Oblivious (devices : Devices δ) : Prop where
  read : ∀ before id a d c, devices.read id a d (c.after before) =
    ((devices.read id a d c).1, (devices.read id a d c).2.1, (devices.read id a d c).2.2.after before)
  write : ∀ before id a v mask d c, devices.write id a v mask d (c.after before) =
    ((devices.write id a v mask d c).1, (devices.write id a v mask d c).2.1,
      (devices.write id a v mask d c).2.2.after before)
  handle : ∀ before e lateBy d c, devices.handle e lateBy d (c.after before) =
    ((devices.handle e lateBy d c).1, (devices.handle e lateBy d c).2.after before)

theorem DeviceContext.plan_after (c : DeviceContext) (e : SystemEvent) (delay : Nat) :
    (c.after before).plan e delay = (c.plan e delay).after before := by
  have planned := c.schedule.planAfter_after e delay before c.journal
  show DeviceContext.mk (c.schedule.planAfter e delay (before ++ c.journal)).1 c.raised
    (c.schedule.planAfter e delay (before ++ c.journal)).2 = _
  rw [planned]
  rfl

theorem Action.perform_after (c : DeviceContext) (a : Action) :
    a.perform (c.after before) = (a.perform c).after before := by
  cases a with
  | raise | cancel => rfl
  | plan e delay => exact c.plan_after before (.device e) delay
  | pause => exact c.plan_after before .pause 0

theorem Script.run_after (actions : Option (List Action)) (c : DeviceContext) :
    Script.run actions (c.after before) = (Script.run actions c).after before := by
  unfold Script.run
  induction actions.getD [] generalizing c with
  | nil => rfl
  | cons a acts ih =>
    rw [List.foldl_cons, List.foldl_cons, Action.perform_after]
    exact ih (a.perform c)

/-- Devices that follow a script do not look at the journal. -/
theorem Script.devices_oblivious (s : Script) : s.devices.Oblivious where
  read before _ a _ c := congrArg (fun c => (_, _, c)) (run_after before (s.onRead.lookup a) c)
  write before _ a _ _ _ c := congrArg (fun c => (_, _, c)) (run_after before (s.onWrite.lookup a) c)
  handle before e _ _ c := congrArg (fun c => (_, c)) (run_after before (s.onEvent.lookup e) c)

theorem Node.setPower_after (v : BitVec 8) (m : Node δ) :
    Node.setPower v (m.viewed (.after _ before)) = (Node.setPower v m).viewed (.after _ before) := by
  unfold Node.setPower
  split
  · rfl
  · rfl
  · exact Machine.viewed_note (.after _ before) m _ _

theorem Node.writeCore_after (id : ProcessorId) (r : CoreWord) (v mask : Word) (m : Node δ) :
    Node.writeCore id r v mask (m.viewed (.after _ before)) =
      (Node.writeCore id r v mask m).viewed (.after _ before) := by
  cases r with
  | externalMemory | enabled | requested => rfl
  | masterEnable =>
    unfold Node.writeCore
    split_ifs <;> rfl
  | bootFlag =>
    unfold Node.writeCore
    simp only
    split_ifs
    · exact Node.setPower_after before _ { m with system := { m.system with bootFlags := _ } }
    · exact Node.setPower_after before _ m
    · rfl
    · rfl

theorem Node.withDevices_after {act : δ → DeviceContext → α × δ × DeviceContext}
    (same : ∀ d c, act d (c.after before) = ((act d c).1, (act d c).2.1, (act d c).2.2.after before)) (m : Node δ) :
    Node.withDevices act (m.viewed (.after _ before)) = seenWith (.after _ before) (Node.withDevices act m) :=
  congrArg (fun r : α × δ × DeviceContext => (r.1, (⟨m.cpu, { m.system with
    devices := r.2.1, schedule := r.2.2.schedule, raised := r.2.2.raised }, r.2.2.journal⟩ : Node δ)))
    (same m.system.devices m.context)

theorem SystemControl.read_after (s : SystemControl) (reg : ControlRegister) (j : Journal) :
    s.read reg (before ++ j) = ((s.read reg j).1, before ++ (s.read reg j).2) := by
  unfold SystemControl.read
  split_ifs
  · exact congrArg (Prod.mk _) Array.append_push.symm
  · rfl

theorem SystemControl.write_after (s : SystemControl) (reg : ControlRegister) (v : Word) (j : Journal) :
    s.write reg v (before ++ j) = ((s.write reg v j).1, before ++ (s.write reg v j).2) := by
  unfold SystemControl.write
  split_ifs
  · exact congrArg (Prod.mk _) Array.append_push.symm
  · rfl

/-- Accesses do the same whatever has been written before. -/
theorem Devices.Oblivious.sees {devices : Devices δ} (oblivious : devices.Oblivious) (id : ProcessorId) :
    Node.Sees devices id (.after _ before) where
  readCore r _ := by cases r <;> rfl
  writeCore := Node.writeCore_after before id
  readDevice a m := by
    have called := Node.withDevices_after before (oblivious.read before id a) m
    unfold Node.readDevice
    rw [called]
    rfl
  writeDevice a v mask m := by
    have called := Node.withDevices_after before (oblivious.write before id a v mask) m
    unfold Node.writeDevice
    rw [called]
    rfl
  firmware _ := by cases id <;> rfl
  read _ _ _ _ := rfl
  write _ _ _ _ _ := rfl
  waitstates _ := rfl
  emulateCalls _ := rfl
  traceInstructions _ := rfl
  dozeLength _ := rfl
  control _ _ := rfl
  readControl _ reg m :=
    congrArg (fun r : Word × Journal => (some r.1, (⟨m.cpu, m.system, r.2⟩ : Node δ)))
      (SystemControl.read_after before m.system.control reg m.journal)
  writeControl _ reg v m :=
    congrArg (fun r : SystemControl × Journal =>
      (true, (⟨{ if SystemControl.waits reg then m.cpu.halt else m.cpu with exceptionBase := r.1.exceptionBase },
        { m.system with control := r.1 }, r.2⟩ : Node δ)))
      (SystemControl.write_after before m.system.control reg v m.journal)

def Board.after (s : Board δ) : Board δ := { s with journal := before ++ s.journal }

namespace Board

variable (s : Board δ)

theorem node_after (id : ProcessorId) : (s.after before).node id = (s.node id).viewed (.after _ before) := by
  cases id <;> rfl

theorem put_after (id : ProcessorId) (m : Node δ) :
    (s.after before).put id (m.viewed (.after _ before)) = (s.put id m).after before := by
  cases id <;> rfl

theorem note_after (level : Level) (text : String) :
    (s.after before).note level text = (s.note level text).after before :=
  congrArg (fun j => { s with journal := j }) Array.append_push.symm

theorem withNode_after (act : Node δ → α × Node δ)
    (same : ∀ m, act (m.viewed (.after _ before)) = seenWith (.after _ before) (act m)) (id : ProcessorId) :
    (s.after before).withNode id act = ((s.withNode id act).1, (s.withNode id act).2.after before) := by
  simp only [withNode_eq, node_after, same, seenWith, put_after]

theorem scheduleAfter_after (e : DeviceEvent) (delay : Nat) :
    (s.after before).scheduleAfter e delay = (s.scheduleAfter e delay).after before :=
  congrArg (fun r : Schedule SystemEvent × Journal =>
      { s with hardware := { s.hardware with schedule := r.1 }, journal := r.2 })
    (s.hardware.schedule.planAfter_after (.device e) delay before s.journal)

theorem enterProgram_after (entry9 entry7 : Address) :
    (s.after before).enterProgram entry9 entry7 = (s.enterProgram entry9 entry7).after before :=
  note_after before
    { s with
      cpu9 := s.cpu9.enterProgram entry9 stacks9
      cpu7 := s.cpu7.enterProgram entry7 stacks7
      hardware := { s.hardware with bootFlags := .both 1 } } .info _

theorem boot_after (entry9 entry7 : Address) :
    (s.after before).boot entry9 entry7 = (s.boot entry9 entry7).after before := by
  unfold boot
  simp only
  split_ifs with skips skips'
  · exact s.reset.enterProgram_after before entry9 entry7
  · exact absurd skips skips'
  · exact absurd ‹_› skips
  · rfl

end Board

def Drive.after : EStateM.Result Failure (Board δ) α → EStateM.Result Failure (Board δ) α
  | .ok a s => .ok a (s.after before)
  | .error e s => .error e (s.after before)

section
variable {devices : Devices δ} (oblivious : devices.Oblivious)
include oblivious

theorem Board.storeBytes_after (id : ProcessorId) (bytes : List (BitVec 8)) (a : Address) (s : Board δ) :
    (s.after before).storeBytes devices id bytes a = (s.storeBytes devices id bytes a).after before := by
  induction bytes generalizing a s with
  | nil => rfl
  | cons b bytes ih =>
    have stored := s.withNode_after before (fun m => ((), (Board.bus devices id).store .byte a (b.setWidth 32) m))
      (fun m => congrArg (Prod.mk ()) ((oblivious.sees before id).bus.store .byte a _ m)) id
    unfold storeBytes
    rw [stored]
    exact ih _ _

namespace Drive

theorem catchUp_after (id : ProcessorId) (target : Nat) (s : Board δ) :
    catchUp devices id target (s.after before) = after before (catchUp devices id target s) := by
  have stepped := Exec.stepWhile_seen (oblivious.sees before id).bus
    (fun m => decide (m.cpu.timestamp < target)) (fun m => decide (m.cpu.timestamp < target)) (fun _ => rfl)
    (2 * (target - (s.node id).cpu.timestamp)) (s.node id)
  rw [catchUp_eq, catchUp_eq, s.node_after, Machine.viewed_cpu]
  unfold Exec.final
  simp only [stepped]
  cases Exec.stepWhile (Board.bus devices id) _ _ (s.node id) with
  | ok answer m =>
    have same := s.put_after before id m
    show (if m.cpu.timestamp ≤ Schedule.lastTime then _ else _) = after before (if m.cpu.timestamp ≤ _ then _ else _)
    split_ifs
    · cases answer <;> exact congrArg _ same
    · exact congrArg _ same
  | error e m =>
    have same := s.put_after before id m
    show (if m.cpu.timestamp ≤ Schedule.lastTime then _ else _) = after before (if m.cpu.timestamp ≤ _ then _ else _)
    split_ifs <;> exact congrArg _ same

theorem runProcessors_after (s : Board δ) :
    runProcessors devices (s.after before) = after before (runProcessors devices s) := by
  have now : (s.after before).now = s.now := rfl
  rw [runProcessors_eq, runProcessors_eq, now, catchUp_after before oblivious]
  split_ifs
  · cases catchUp devices .arm9 (2 * s.now) s with
    | ok _ s₁ => exact catchUp_after before oblivious .arm7 s.now s₁
    | error e s₁ => rfl
  · rfl

theorem dispatch_after (e : Due SystemEvent) (s : Board δ) :
    dispatch devices e (s.after before) = (dispatch devices e s).after before := by
  rcases e with ⟨_ | event, lateBy⟩
  · rfl
  · have handled := oblivious.handle before event lateBy s.hardware.devices
      ⟨s.hardware.schedule, s.hardware.raised, s.journal⟩
    exact congrArg (fun r : δ × DeviceContext =>
      Board.deliverInterrupts
        { s with
          hardware := { s.hardware with devices := r.1, schedule := r.2.schedule, raised := r.2.raised }
          journal := r.2.journal }) handled

theorem dispatchDue_after (limit : Nat) (s : Board δ) :
    dispatchDue devices limit (s.after before) = after before (dispatchDue devices limit s) := by
  induction limit generalizing s with
  | zero =>
    rw [dispatchDue_zero, dispatchDue_zero]
    show (if s.hardware.schedule.isDue then _ else _) = _
    split_ifs <;> rfl
  | succ limit ih =>
    have schedule : (s.after before).hardware.schedule = s.hardware.schedule := rfl
    rw [dispatchDue_succ, dispatchDue_succ, schedule]
    rcases s.hardware.schedule.takeDue with ⟨_ | e, schedule⟩
    · rfl
    · have dispatched := dispatch_after before oblivious e { s with hardware := { s.hardware with schedule } }
      exact (congrArg (dispatchDue devices limit) dispatched).trans (ih _)

theorem advance_after (limit : Nat) (s : Board δ) :
    advance devices limit (s.after before) = after before (advance devices limit s) := by
  rw [advance_eq, advance_eq, runProcessors_after before oblivious]
  cases runProcessors devices s with
  | ok _ s₁ =>
    show (if (tick s₁).now ≤ Schedule.lastTime then dispatchDue devices limit ((tick s₁).after before) else _) =
      after before (if (tick s₁).now ≤ Schedule.lastTime then _ else _)
    split_ifs
    · exact dispatchDue_after before oblivious limit (tick s₁)
    · rfl
  | error e s₁ =>
    have halted : halt e (s₁.after before) = (halt e s₁).after before :=
      congrArg (fun s : Board δ => { s with running := false }) (s₁.note_after before .error _)
    exact congrArg (EStateM.Result.error e) halted

theorem advanceUntil_after (limit target steps : Nat) (s : Board δ) :
    advanceUntil devices limit target steps (s.after before) =
      after before (advanceUntil devices limit target steps s) := by
  induction steps generalizing s with
  | zero => rfl
  | succ steps ih =>
    rw [advanceUntil_succ, advanceUntil_succ, advance_after before oblivious]
    show (if s.running = true ∧ s.now < target then _ else _) = _
    split_ifs
    · cases advance devices limit s with
      | ok _ s₁ => exact ih s₁
      | error e s₁ => rfl
    · rfl

theorem runFor_after (limit cycles : Nat) (s : Board δ) :
    runFor devices limit cycles (s.after before) = after before (runFor devices limit cycles s) := by
  have now : (s.after before).now = s.now := rfl
  rw [runFor_eq, runFor_eq, now]
  split_ifs
  · exact advanceUntil_after before oblivious limit (s.now + cycles) cycles { s with running := true }
  · rfl

end Drive

end

inductive Command where
  | boot (entry9 entry7 : Address)
  | reset
  | enterProgram (entry9 entry7 : Address)
  | advance (limit : Nat)
  | runFor (limit cycles : Nat)
  | load (id : ProcessorId) (w : Width) (a : Address)
  | store (id : ProcessorId) (w : Width) (a : Address) (v : Word)
  | writeBytes (id : ProcessorId) (a : Address) (bytes : List (BitVec 8))
  | requestInterrupt (id : ProcessorId) (line : Nat)
  | takesInterrupt (id : ProcessorId)
  | schedule (e : DeviceEvent) (delay : Nat)
  /-- Look at a processor, and change it. -/
  | processor (id : ProcessorId) (f : Processor → Processor)

inductive Answer where
  | done
  | word (v : Word)
  | flag (b : Bool)
  | state (p : Processor)
  | failed (e : Failure)

namespace Command

def ofResult : EStateM.Result Failure (Board δ) Unit → Answer × Board δ
  | .ok _ s => (.done, s)
  | .error e s => (.failed e, s)

/-- What comes back, and the console afterwards. -/
def run (devices : Devices δ) (s : Board δ) : Command → Answer × Board δ
  | boot entry9 entry7 => (.done, s.boot entry9 entry7)
  | reset => (.done, s.reset)
  | enterProgram entry9 entry7 => (.done, s.enterProgram entry9 entry7)
  | advance limit => ofResult (Drive.advance devices limit s)
  | runFor limit cycles => ofResult (Drive.runFor devices limit cycles s)
  | load id w a =>
    let (v, s) := s.withNode id ((Board.bus devices id).load w a)
    (.word v, s)
  | store id w a v => (.done, (s.withNode id fun m => ((), (Board.bus devices id).store w a v m)).2)
  | writeBytes id a bytes => (.done, s.writeBytes devices id a bytes)
  | requestInterrupt id line => (.done, s.requestInterrupt id line)
  | takesInterrupt id => (.flag (s.takesInterrupt id), s)
  | schedule e delay => (.done, s.scheduleAfter e delay)
  | processor id f => (.state (s.processor id), s.mapProcessor id f)

def runAll (devices : Devices δ) : List Command → Board δ → List Answer × Board δ
  | [], s => ([], s)
  | c :: commands, s =>
    let (answer, s) := c.run devices s
    let (answers, s) := runAll devices commands s
    (answer :: answers, s)

theorem ofResult_after (r : EStateM.Result Failure (Board δ) Unit) :
    ofResult (Drive.after before r) = ((ofResult r).1, (ofResult r).2.after before) := by
  cases r <;> rfl

variable {devices : Devices δ} (oblivious : devices.Oblivious)
include oblivious

theorem run_after (s : Board δ) (c : Command) :
    c.run devices (s.after before) = ((c.run devices s).1, (c.run devices s).2.after before) := by
  cases c with
  | boot entry9 entry7 => exact congrArg (Prod.mk _) (s.boot_after before entry9 entry7)
  | reset => rfl
  | enterProgram entry9 entry7 => exact congrArg (Prod.mk _) (s.enterProgram_after before entry9 entry7)
  | advance limit =>
    exact (congrArg ofResult (Drive.advance_after before oblivious limit s)).trans (ofResult_after before _)
  | runFor limit cycles =>
    exact (congrArg ofResult (Drive.runFor_after before oblivious limit cycles s)).trans (ofResult_after before _)
  | load id w a =>
    have loaded := s.withNode_after before _ ((oblivious.sees before id).bus.load w a) id
    exact congrArg (fun r : Word × Board δ => (Answer.word r.1, r.2)) loaded
  | store id w a v =>
    have stored := s.withNode_after before (fun m => ((), (Board.bus devices id).store w a v m))
      (fun m => congrArg (Prod.mk ()) ((oblivious.sees before id).bus.store w a v m)) id
    exact congrArg (fun r : Unit × Board δ => (Answer.done, r.2)) stored
  | writeBytes id a bytes => exact congrArg (Prod.mk _) (Board.storeBytes_after before oblivious id bytes a s)
  | requestInterrupt id line => cases id <;> rfl
  | takesInterrupt id => cases id <;> rfl
  | schedule e delay => exact congrArg (Prod.mk _) (s.scheduleAfter_after before e delay)
  | processor id f => cases id <;> rfl

/-- Whatever has been written before, commands are answered in the same way and leave the same behind. -/
theorem runAll_after (commands : List Command) (s : Board δ) :
    runAll devices commands (s.after before) =
      ((runAll devices commands s).1, (runAll devices commands s).2.after before) := by
  induction commands generalizing s with
  | nil => rfl
  | cons c commands ih =>
    unfold runAll
    simp only [run_after before oblivious, ih]

end Command

end Console

end Lockstep
