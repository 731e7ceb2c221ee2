import Lockstep.Console.ScriptedDevices
import Lockstep.Proofs.Console.Accesses

/-!
What accesses leave alone: no access turns a processor's clock back, changes the configuration, or makes any
access free of charge; devices that use the console only as it offers itself to them leave the system clock
alone.
-/

namespace Lockstep.Console

variable {δ : Type}

def AccessTimes.Positive (t : AccessTimes) : Prop := ∀ c, 1 ≤ t.get c

def Waitstates.Positive (t : Waitstates) : Prop := ∀ id i, ((t.regions id).get i).Positive

namespace AccessTimes.Positive

theorem scale {t : AccessTimes} (h : t.Positive) {k : Nat} (hk : 1 ≤ k) : (t.scale k).Positive := by
  intro c
  have ht := h c
  cases c <;> exact Nat.mul_le_mul ht hk

end AccessTimes.Positive

namespace ExternalMemory

theorem firstTime_pos : ∀ n, 1 ≤ firstTime n := by decide

theorem secondTime_pos : ∀ n, 1 ≤ secondTime n := by decide

theorem romTimes_positive (c : ExternalMemory) : c.romTimes.Positive := by
  have first := firstTime_pos c.romFirstTime
  have second := secondTime_pos c.romSecondTime
  intro k
  cases k <;> simp only [romTimes, AccessTimes.get] <;> omega

theorem sramTimes_positive (c : ExternalMemory) : c.sramTimes.Positive := by
  have time := firstTime_pos c.sramTime
  intro k
  cases k <;> simp only [sramTimes, AccessTimes.get] <;> omega

end ExternalMemory

namespace Waitstates

theorem factor_pos (id : ProcessorId) : 1 ≤ factor id := by cases id <;> decide

theorem get_setTimes (t : Waitstates) (id id' : ProcessorId) (region i : Fin 16) (times : AccessTimes) :
    ((t.setTimes id region times).regions id').get i =
      if id' = id ∧ i = region then times else (t.regions id').get i := by
  have set : ∀ v : Vector AccessTimes 16,
      (v.set region times).get i = if i = region then times else v.get i := by
    intro v
    show (v.set region times)[i.val] = if i = region then times else v[i.val]
    simp only [Vector.getElem_set, Fin.ext_iff, eq_comm]
  cases id <;> cases id' <;> simp [setTimes, regions, set]

/-- The external memory control sets the times of the three regions of slot 2. -/
theorem get_applyExternal (t : Waitstates) (c : ExternalMemory) (id : ProcessorId) (i : Fin 16) :
    ((t.applyExternal c).regions id).get i =
      if i.val = 8 ∨ i.val = 9 then c.romTimes.scale (factor id)
      else if i.val = 10 then c.sramTimes.scale (factor id) else (t.regions id).get i := by
  simp only [applyExternal, get_setTimes, Fin.ext_iff]
  cases id <;> grind

/-- The times of slot 2 are positive whatever the external memory control holds. -/
theorem applyExternal_positive {t : Waitstates} (h : t.Positive) (c : ExternalMemory) :
    (t.applyExternal c).Positive := by
  intro id i
  rw [get_applyExternal]
  split_ifs
  · exact c.romTimes_positive.scale (factor_pos id)
  · exact c.sramTimes_positive.scale (factor_pos id)
  · exact h id i

theorem base_positive : ∀ i, (base.get i).Positive := by
  intro i c
  revert i
  cases c <;> decide

theorem initial_positive : initial.Positive := by
  refine applyExternal_positive (fun id i => ?_) 0
  cases id with
  | arm7 => exact base_positive i
  | arm9 =>
    show ((base.map fun t : AccessTimes => t.scale (factor .arm9))[i.val]).Positive
    rw [Vector.getElem_map]
    exact (base_positive i).scale (factor_pos .arm9)

theorem get_pos {t : Waitstates} (h : t.Positive) (id : ProcessorId) (a : Address) (c : TimingClass) :
    1 ≤ t.get id a c := h id (regionOf a) c

end Waitstates

theorem Memory.firmware_write (m : Memory) (r : Region) (offset : Nat) (w : Width) (v : Word) :
    (m.write r offset w v).firmware7 = m.firmware7 ∧ (m.write r offset w v).firmware9 = m.firmware9 := by
  rcases r with _ | _ | _ | ⟨_ | _⟩ <;> exact ⟨rfl, rfl⟩

/-- What no write of such a word touches. -/
structure Node.SparedByCore (m m' : Node δ) : Prop where
  regs : m'.cpu.regs = m.cpu.regs
  timestamp : m'.cpu.timestamp = m.cpu.timestamp
  exceptionBase : m'.cpu.exceptionBase = m.cpu.exceptionBase
  memory : m'.system.memory = m.system.memory
  control : m'.system.control = m.system.control
  schedule : m'.system.schedule = m.system.schedule
  devices : m'.system.devices = m.system.devices
  config : m'.system.config = m.system.config
  waitstates :
    m'.system.waitstates = m.system.waitstates ∧ m'.system.externalMemory = m.system.externalMemory ∨
      m'.system.waitstates = m.system.waitstates.applyExternal m'.system.externalMemory

namespace Node

theorem SparedByCore.refl (m : Node δ) : m.SparedByCore m :=
  ⟨rfl, rfl, rfl, rfl, rfl, rfl, rfl, rfl, .inl ⟨rfl, rfl⟩⟩

theorem SparedByCore.of_system {m m₁ m' : Node δ} (h : m.SparedByCore m₁)
    (hr : m'.cpu.regs = m₁.cpu.regs) (ht : m'.cpu.timestamp = m₁.cpu.timestamp)
    (hb : m'.cpu.exceptionBase = m₁.cpu.exceptionBase) (hs : m'.system = m₁.system) : m.SparedByCore m' := by
  obtain ⟨r, a, b, c, d, e, f, g, h⟩ := h
  exact ⟨hr.trans r, ht.trans a, hb.trans b, hs ▸ c, hs ▸ d, hs ▸ e, hs ▸ f, hs ▸ g, hs ▸ h⟩

theorem setPower_spares (v : BitVec 8) (m : Node δ) :
    (setPower v m).cpu.regs = m.cpu.regs ∧ (setPower v m).cpu.timestamp = m.cpu.timestamp ∧
      (setPower v m).cpu.exceptionBase = m.cpu.exceptionBase ∧ (setPower v m).system = m.system := by
  unfold setPower
  split <;> exact ⟨rfl, rfl, rfl, rfl⟩

theorem writeCore_spares (id : ProcessorId) (r : CoreWord) (v mask : Word) (m : Node δ) :
    m.SparedByCore (writeCore id r v mask m) := by
  cases r with
  | externalMemory => exact ⟨rfl, rfl, rfl, rfl, rfl, rfl, rfl, rfl, .inr rfl⟩
  | masterEnable =>
    unfold writeCore
    simp only
    split_ifs <;> exact .of_system (.refl m) rfl rfl rfl rfl
  | enabled | requested => exact .of_system (.refl m) rfl rfl rfl rfl
  | bootFlag =>
    have flagged : ∀ flags, m.SparedByCore { m with system := { m.system with bootFlags := flags } } :=
      fun _ => ⟨rfl, rfl, rfl, rfl, rfl, rfl, rfl, rfl, .inl ⟨rfl, rfl⟩⟩
    unfold writeCore
    simp only
    split
    · obtain ⟨hr, ht, hb, hs⟩ := setPower_spares (v.extractLsb' 8 8)
        (if mask &&& 0xFF ≠ 0 then
          { m with system := { m.system with
            bootFlags := m.system.bootFlags.set id
              (bootFlag id (m.system.bootFlags.get id) (v.setWidth 8)) } }
        else m)
      refine .of_system ?_ hr ht hb hs
      split_ifs
      · exact flagged _
      · exact .refl m
    · split_ifs
      · exact flagged _
      · exact .refl m

end Node

def Node.context (m : Node δ) : DeviceContext :=
  { schedule := m.system.schedule, raised := m.system.raised, journal := m.journal }

/-- What a call does to the schedule and to the interrupt lines, some actions do. -/
def DeviceContext.Performs (c c' : DeviceContext) (acts : List Action) : Prop :=
  c'.schedule = (acts.foldl Action.perform c).schedule ∧ c'.raised = (acts.foldl Action.perform c).raised

/-- Devices that use the console only as it offers itself to them. -/
structure Devices.Proper (devices : Devices δ) : Prop where
  read : ∀ id a d (c : DeviceContext), ∃ acts, c.Performs (devices.read id a d c).2.2 acts
  write : ∀ id a v mask d (c : DeviceContext), ∃ acts, c.Performs (devices.write id a v mask d c).2.2 acts
  handle : ∀ e lateBy d (c : DeviceContext), ∃ acts, c.Performs (devices.handle e lateBy d c).2 acts

/-- Devices that follow a script are proper. -/
theorem Script.devices_proper (s : Script) : s.devices.Proper where
  read _ a _ _ := ⟨(s.onRead.lookup a).getD [], rfl, rfl⟩
  write _ a _ _ _ _ := ⟨(s.onWrite.lookup a).getD [], rfl, rfl⟩
  handle e _ _ _ := ⟨(s.onEvent.lookup e).getD [], rfl, rfl⟩

theorem Schedule.planAfter_now {κ : Type} (s : Schedule κ) (kind : κ) (delay : Nat) (journal : Journal) :
    (s.planAfter kind delay journal).1.now = s.now := by
  unfold Schedule.planAfter Schedule.planAt Schedule.plan?
  split_ifs <;> rfl

theorem Action.perform_now (c : DeviceContext) (a : Action) : (a.perform c).schedule.now = c.schedule.now := by
  cases a with
  | raise => rfl
  | plan e delay => exact Schedule.planAfter_now _ _ _ _
  | cancel => rfl
  | pause => exact Schedule.planAfter_now _ _ _ _

theorem DeviceContext.Performs.now {c c' : DeviceContext} {acts : List Action} (h : c.Performs c' acts) :
    c'.schedule.now = c.schedule.now := by
  rw [h.1]
  clear h
  induction acts generalizing c with
  | nil => rfl
  | cons a acts ih => exact ih.trans (Action.perform_now c a)

variable (devices : Devices δ)

/-- No access turns a clock back. -/
theorem Node.timestamp_keeps (id : ProcessorId) :
    Node.Keeps devices id fun m m' => m.cpu.timestamp ≤ m'.cpu.timestamp where
  own _ _ alone := alone.timestamp
  trans := Nat.le_trans
  memory _ _ _ _ _ := Nat.le_refl _
  core r v mask m := Nat.le_of_eq (Node.writeCore_spares id r v mask m).timestamp.symm
  read _ _ := Nat.le_refl _
  write _ _ _ _ := Nat.le_refl _
  control _ reg v m := by
    unfold writeControl
    simp only
    split_ifs <;> exact Nat.le_refl _

/-- The configuration stays as it is, and no access becomes free of charge. -/
theorem Hardware.config_keeps :
    Hardware.Keeps devices fun h h' => h'.config = h.config ∧
      (h.waitstates.Positive → h'.waitstates.Positive) := fun id => {
  own := fun _ _ alone => alone.system ▸ ⟨rfl, fun h => h⟩
  trans := fun h h' => ⟨h'.1.trans h.1, h'.2 ∘ h.2⟩
  memory := fun _ _ _ _ _ => ⟨rfl, fun h => h⟩
  core := fun r v mask m => by
    have spared := Node.writeCore_spares id r v mask m
    refine ⟨spared.config, fun h => ?_⟩
    rcases spared.waitstates with ⟨same, -⟩ | applied
    · exact same ▸ h
    · exact applied ▸ Waitstates.applyExternal_positive h _
  read := fun _ _ => ⟨rfl, fun h => h⟩
  write := fun _ _ _ _ => ⟨rfl, fun h => h⟩
  control := fun _ _ _ _ => ⟨rfl, fun h => h⟩ }

/-- No access reaches the firmware. -/
theorem Hardware.firmware_keeps :
    Hardware.Keeps devices fun h h' =>
      h'.memory.firmware7 = h.memory.firmware7 ∧ h'.memory.firmware9 = h.memory.firmware9 := fun id => {
  own := fun _ _ alone => alone.system ▸ ⟨rfl, rfl⟩
  trans := fun h h' => ⟨h'.1.trans h.1, h'.2.trans h.2⟩
  memory := fun r offset w v m => m.system.memory.firmware_write r offset w v
  core := fun r v mask m => by
    have same := (Node.writeCore_spares id r v mask m).memory
    exact ⟨congrArg Memory.firmware7 same, congrArg Memory.firmware9 same⟩
  read := fun _ _ => ⟨rfl, rfl⟩
  write := fun _ _ _ _ => ⟨rfl, rfl⟩
  control := fun _ _ _ _ => ⟨rfl, rfl⟩ }

/-- Proper devices leave the system clock to the console. -/
theorem Hardware.now_keeps (proper : devices.Proper) :
    Hardware.Keeps devices fun h h' => h'.schedule.now = h.schedule.now := fun id => {
  own := fun _ _ alone => alone.system ▸ rfl
  trans := fun h h' => h'.trans h
  memory := fun _ _ _ _ _ => rfl
  core := fun r v mask m => congrArg Schedule.now (Node.writeCore_spares id r v mask m).schedule
  read := fun a m => by
    obtain ⟨acts, h⟩ := proper.read id a m.system.devices m.context
    exact h.now
  write := fun a v mask m => by
    obtain ⟨acts, h⟩ := proper.write id a v mask m.system.devices m.context
    exact h.now
  control := fun _ _ _ _ => rfl }

end Lockstep.Console
