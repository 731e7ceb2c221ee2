import Lockstep.Proofs.Console.Parts
import Lockstep.Proofs.StepSeen

/-!
Views of the console. If a view leaves alone whatever the accesses of a processor reach, then its bus looks the same
through the view, and so do its steps.
-/

namespace Lockstep.Console

variable {δ : Type}

/-- Whether a processor's map leads to a region of memory. -/
def Memory.Region.VisibleTo (id : ProcessorId) : Memory.Region → Prop
  | .main | .shared => True
  | .private7 => id = .arm7
  | .tcm _ => id = .arm9

namespace Place

theorem of7_visible {a : Address} {r : Memory.Region} {offset : Nat} (h : of7 a = .memory r offset) :
    r.VisibleTo .arm7 := by
  unfold of7 at h
  split at h <;> cases h
  · trivial
  · split_ifs
    · trivial
    · rfl

theorem of9_visible {a : Address} {r : Memory.Region} {offset : Nat} (h : of9 a = .memory r offset) :
    r.VisibleTo .arm9 := by
  unfold of9 at h
  split at h
  case h_7 => split_ifs at h
  all_goals cases h
  all_goals trivial

theorem read9_visible {s : SystemControl} {a : Address} {r : Memory.Region} {offset : Nat}
    (h : read9 s a = .memory r offset) : r.VisibleTo .arm9 := by
  unfold read9 at h
  split at h
  · cases h
    rfl
  · exact of9_visible h

theorem write9_visible {s : SystemControl} {a : Address} {r : Memory.Region} {offset : Nat}
    (h : write9 s a = .memory r offset) : r.VisibleTo .arm9 := by
  unfold write9 at h
  split at h
  · cases h
    rfl
  · exact of9_visible h

end Place

/-- A view that leaves alone whatever a processor can reach: what accesses do looks the same through it. -/
structure Node.Sees (devices : Devices δ) (id : ProcessorId) (φ : View (Hardware δ) (Hardware δ)) : Prop where
  readCore : ∀ r m, Node.readCore id r (m.viewed φ) = Node.readCore id r m
  writeCore : ∀ r v mask m, Node.writeCore id r v mask (m.viewed φ) = (Node.writeCore id r v mask m).viewed φ
  readDevice : ∀ a m, Node.readDevice devices id a (m.viewed φ) = seenWith φ (Node.readDevice devices id a m)
  writeDevice : ∀ a v mask m,
    Node.writeDevice devices id a v mask (m.viewed φ) = seenWith φ (Node.writeDevice devices id a v mask m)
  firmware : ∀ m, Node.firmware id (m.viewed φ) = Node.firmware id m
  read : ∀ {r : Memory.Region}, r.VisibleTo id → ∀ offset w h,
    (φ.system h).memory.read r offset w = h.memory.read r offset w
  write : ∀ {r : Memory.Region}, r.VisibleTo id → ∀ offset w v h,
    (φ.system h).mapMemory (·.write r offset w v) = φ.system (h.mapMemory (·.write r offset w v))
  waitstates : ∀ h, (φ.system h).waitstates = h.waitstates
  emulateCalls : ∀ h, (φ.system h).config.emulateCalls = h.config.emulateCalls
  traceInstructions : ∀ h, (φ.system h).config.traceInstructions = h.config.traceInstructions
  dozeLength : ∀ h, (φ.system h).config.dozeLength = h.config.dozeLength
  control : id = .arm9 → ∀ h, (φ.system h).control = h.control
  readControl : id = .arm9 → ∀ reg m, Console.readControl reg (m.viewed φ) = seenWith φ (Console.readControl reg m)
  writeControl : id = .arm9 → ∀ reg v m,
    Console.writeControl reg v (m.viewed φ) = seenWith φ (Console.writeControl reg v m)

namespace Node.Sees

variable {devices : Devices δ} {id : ProcessorId} {φ : View (Hardware δ) (Hardware δ)}

theorem readNothing (φ : View (Hardware δ) (Hardware δ)) (id : ProcessorId) (w : Width) (a : Address) (m : Node δ) :
    Node.readNothing id w a (m.viewed φ) = seenWith φ (Node.readNothing id w a m) := by
  unfold Node.readNothing
  simp only [Machine.viewed_note]
  split_ifs <;> rfl

variable (h : Sees devices id φ)
include h

theorem readIo (w : Width) (a : Address) (m : Node δ) :
    Node.readIo devices id w a (m.viewed φ) = seenWith φ (Node.readIo devices id w a m) := by
  unfold Node.readIo
  simp only [h.readCore, h.readDevice]
  cases CoreWord.ofAddress? (Lane.wordOf a) with
  | some r => rfl
  | none =>
    rcases Node.readDevice devices id (Lane.wordOf a) m with ⟨_ | v, m₁⟩
    · simp only [seenWith, Machine.viewed_note]
    · rfl

theorem writeIo (w : Width) (a : Address) (v : Word) (m : Node δ) :
    Node.writeIo devices id w a v (m.viewed φ) = (Node.writeIo devices id w a v m).viewed φ := by
  unfold Node.writeIo
  simp only [h.writeCore, h.writeDevice]
  cases CoreWord.ofAddress? (Lane.wordOf a) with
  | some r => rfl
  | none =>
    rcases Node.writeDevice devices id (Lane.wordOf a) (v <<< Lane.shift a) (Lane.mask w a) m with ⟨_ | _, m₁⟩
    · exact Machine.viewed_note φ m₁ _ _
    · rfl

theorem readPlace (w : Width) (a : Address) {p : Place}
    (visible : ∀ {r offset}, p = .memory r offset → r.VisibleTo id) (m : Node δ) :
    Node.readPlace devices id w a p (m.viewed φ) = seenWith φ (Node.readPlace devices id w a p m) := by
  cases p with
  | memory r offset => exact congrArg (·, m.viewed φ) (h.read (visible rfl) offset w m.system)
  | firmware offset =>
    unfold Node.readPlace
    simp only [h.firmware, readNothing]
    split <;> rfl
  | io => exact h.readIo w a m
  | video =>
    unfold Node.readPlace Node.readVideo
    simp only [h.readDevice]
    rcases Node.readDevice devices id (Lane.wordOf a) m with ⟨_ | v, m₁⟩
    · exact readNothing φ id w a m₁
    · rfl
  | nothing => exact readNothing φ id w a m

theorem writePlace (w : Width) (a : Address) (v : Word) {p : Place}
    (visible : ∀ {r offset}, p = .memory r offset → r.VisibleTo id) (m : Node δ) :
    Node.writePlace devices id w a v p (m.viewed φ) = (Node.writePlace devices id w a v p m).viewed φ := by
  cases p with
  | memory r offset =>
    exact congrArg (fun s => (⟨m.cpu, s, φ.journal m.journal⟩ : Node δ)) (h.write (visible rfl) offset w v m.system)
  | firmware | nothing => exact Machine.viewed_note φ m _ _
  | io => exact h.writeIo w a v m
  | video =>
    unfold Node.writePlace Node.writeVideo
    simp only [h.writeDevice]
    rcases Node.writeDevice devices id (Lane.wordOf a) (v <<< Lane.shift a) (Lane.mask w a) m with ⟨_ | _, m₁⟩
    · exact Machine.viewed_note φ m₁ _ _
    · rfl

omit h in
theorem offerCall {bus : Bus (Hardware δ)} (shows : bus.Shows φ bus)
    (config : ∀ h, (φ.system h).config.emulateCalls = h.config.emulateCalls) (number : BitVec 8) :
    Exec.Shows φ (Console.offerCall bus number) (Console.offerCall bus number) := by
  refine Exec.shows_get fun m => ?_
  rw [Machine.viewed_system, config]
  exact Exec.shows_unless (Firmware.call_seen shows number) (Exec.shows_pure false) m

end Node.Sees

variable {devices : Devices δ} {φ : View (Hardware δ) (Hardware δ)}

theorem Node.Sees.memoryBus7 (h : Node.Sees devices .arm7 φ) :
    (Console.memoryBus7 devices).Shows φ (Console.memoryBus7 devices) where
  architecture := rfl
  get w _ m := h.readPlace w _ Place.of7_visible m
  set w _ v m := h.writePlace w _ v Place.of7_visible m
  waitTime w a k m := congrArg (fun t : Waitstates => (t.get .arm7 a (.of w k), m.viewed φ)) (h.waitstates m.system)
  softwareCall _ _ := rfl
  controlRead _ _ := rfl
  controlWrite _ _ _ := rfl
  tracing _ := rfl
  dozeLength _ := rfl

theorem Node.Sees.memoryBus9 (h : Node.Sees devices .arm9 φ) :
    (Console.memoryBus9 devices).Shows φ (Console.memoryBus9 devices) where
  architecture := rfl
  get w a m := by
    show Node.readPlace devices .arm9 w (w.align a) (.read9 (φ.system m.system).control (w.align a)) _ = _
    rw [h.control rfl]
    exact h.readPlace w _ Place.read9_visible m
  set w a v m := by
    show Node.writePlace devices .arm9 w (w.align a) v (.write9 (φ.system m.system).control (w.align a)) _ = _
    rw [h.control rfl]
    exact h.writePlace w _ v Place.write9_visible m
  waitTime w a k m := by
    have same : waitTime9 w a k (φ.system m.system) = waitTime9 w a k m.system := by
      unfold waitTime9
      rw [h.control rfl, h.waitstates]
    exact congrArg (·, m.viewed φ) same
  softwareCall _ _ := rfl
  controlRead _ _ := rfl
  controlWrite _ _ _ := rfl
  tracing _ := rfl
  dozeLength _ := rfl

/-- The bus of the processor looks the same through the view. -/
theorem Node.Sees.bus {id : ProcessorId} (h : Node.Sees devices id φ) :
    (Board.bus devices id).Shows φ (Board.bus devices id) := by
  cases id with
  | arm7 =>
    exact {
      h.memoryBus7 with
      softwareCall := offerCall h.memoryBus7 h.emulateCalls
      tracing := h.traceInstructions
      dozeLength := h.dozeLength }
  | arm9 =>
    exact {
      h.memoryBus9 with
      softwareCall := offerCall h.memoryBus9 h.emulateCalls
      controlRead := h.readControl rfl
      controlWrite := h.writeControl rfl
      tracing := h.traceInstructions
      dozeLength := h.dozeLength }

end Lockstep.Console
