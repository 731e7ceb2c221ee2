import Lockstep.Proofs.Console.Viewed

/-!
The processors are isolated from each other. Some of the console belongs to one processor alone; if all of it
is taken from another console, the bus of the other processor looks the same, and so do its steps. Hence a
step neither changes nor depends on what belongs to the other processor.
-/

namespace Lockstep.Console

def ProcessorId.other : ProcessorId → ProcessorId
  | .arm7 => .arm9
  | .arm9 => .arm7

variable {δ : Type}

/-- The hardware with what belongs to one processor alone taken from a donor, and with the donor's list of
firmware, from which no processor reads. -/
def Hardware.graft (id : ProcessorId) (donor h : Hardware δ) : Hardware δ :=
  let h := { h with config := { h.config with firmware := donor.config.firmware } }
  match id with
  | .arm7 =>
    { h with
      memory :=
        { h.memory with private7 := donor.memory.private7, firmware7 := donor.memory.firmware7 }
      bootFlags := { h.bootFlags with arm7 := donor.bootFlags.arm7 } }
  | .arm9 =>
    { h with
      memory :=
        { h.memory with
          instructionTcm := donor.memory.instructionTcm
          dataTcm := donor.memory.dataTcm
          firmware9 := donor.memory.firmware9 }
      control := donor.control
      bootFlags := { h.bootFlags with arm9 := donor.bootFlags.arm9 } }

namespace Node

variable (devices : Devices δ) (id : ProcessorId) (donor : Hardware δ)

theorem readCore_seen (r : CoreWord) (m : Node δ) :
    readCore id r (m.seen (Hardware.graft id.other donor)) = readCore id r m := by
  cases id <;> cases r <;> rfl

theorem setPower_seen (φ : Hardware δ → Hardware δ) (v : BitVec 8) (m : Node δ) :
    setPower v (m.seen φ) = (setPower v m).seen φ := by
  unfold setPower
  split <;> rfl

theorem writeCore_seen (r : CoreWord) (v mask : Word) (m : Node δ) :
    writeCore id r v mask (m.seen (Hardware.graft id.other donor)) =
      (writeCore id r v mask m).seen (Hardware.graft id.other donor) := by
  cases r with
  | externalMemory => cases id <;> rfl
  | masterEnable =>
    unfold writeCore
    split_ifs <;> rfl
  | enabled | requested => rfl
  | bootFlag =>
    have flagged : ∀ flag : BitVec 8,
        { m.seen (Hardware.graft id.other donor) with
          system :=
            { (m.seen (Hardware.graft id.other donor)).system with
              bootFlags := (m.seen (Hardware.graft id.other donor)).system.bootFlags.set id flag } } =
          Machine.seen (Hardware.graft id.other donor)
            { m with system := { m.system with bootFlags := m.system.bootFlags.set id flag } } := by
      intro flag
      cases id <;> rfl
    have before : (m.seen (Hardware.graft id.other donor)).system.bootFlags.get id =
        m.system.bootFlags.get id := by cases id <;> rfl
    unfold writeCore
    simp only [before, flagged]
    split_ifs
    · exact setPower_seen _ _ _
    · exact setPower_seen _ _ m
    · rfl
    · rfl

/-- To a processor the console looks the same whatever the other processor has for itself. -/
theorem graft_sees : Sees devices id (.of (Hardware.graft id.other donor)) where
  readCore := readCore_seen id donor
  writeCore := writeCore_seen id donor
  readDevice _ _ := by cases id <;> rfl
  writeDevice _ _ _ _ := by cases id <;> rfl
  firmware _ := by cases id <;> rfl
  read {r} visible _ _ _ := by
    rcases r with _ | _ | _ | _ | _ <;> cases id <;> first | rfl | cases visible
  write {r} visible _ _ _ _ := by
    rcases r with _ | _ | _ | _ | _ <;> cases id <;> first | rfl | cases visible
  waitstates _ := by cases id <;> rfl
  emulateCalls _ := by cases id <;> rfl
  traceInstructions _ := by cases id <;> rfl
  dozeLength _ := by cases id <;> rfl
  control only _ := by
    subst only
    rfl
  readControl only _ _ := by
    subst only
    rfl
  writeControl only _ _ _ := by
    subst only
    rfl

end Node

theorem setPower_system (v : BitVec 8) (m : Node δ) : (Node.setPower v m).system = m.system :=
  (Node.setPower_spares v m).2.2.2

/-- The upper bits of the external memory control are not for the ARM7 to write. -/
theorem blend_externalMask (old new mask : BitVec 16) :
    blend (mask &&& Node.externalMask .arm7) old new >>> 7 = old >>> 7 := by
  have upper : Node.externalMask .arm7 >>> 7 = 0#16 := rfl
  have cleared : (mask &&& Node.externalMask .arm7) >>> 7 = 0#16 := by
    rw [BitVec.ushiftRight_and_distrib, upper, BitVec.and_zero]
  have none (bit : Nat) : (mask &&& Node.externalMask .arm7).getLsbD (7 + bit) = false := by
    rw [← BitVec.getLsbD_ushiftRight, cleared, BitVec.getLsbD_zero]
  ext bit h
  simp only [blend, BitVec.getElem_ushiftRight, BitVec.getLsbD_or, BitVec.getLsbD_and, BitVec.getLsbD_not,
    none, Bool.and_false, Bool.or_false, Bool.not_false, Bool.and_true, Bool.and_eq_left_iff_imp,
    decide_eq_true_eq]
  exact BitVec.lt_of_getLsbD

theorem Node.externalMemory_keeps (devices : Devices δ) :
    Node.Keeps devices .arm7 fun m m' =>
      m'.system.externalMemory >>> 7 = m.system.externalMemory >>> 7 where
  own _ _ alone := alone.system ▸ rfl
  trans h h' := h'.trans h
  memory _ _ _ _ _ := rfl
  core r v mask m := by
    cases r with
    | externalMemory => exact blend_externalMask _ _ _
    | masterEnable =>
      unfold writeCore
      simp only
      split_ifs <;> rfl
    | enabled | requested => rfl
    | bootFlag =>
      unfold writeCore
      simp only
      split_ifs <;> simp only [setPower_system]
  read _ _ := rfl
  write _ _ _ _ := rfl
  control := nofun

namespace Board

/-- The console with all that belongs to one processor alone, and the processor itself, taken from a donor. -/
def graft (s : Board δ) (id : ProcessorId) (donor : Board δ) : Board δ :=
  { s.mapProcessor id (fun _ => donor.processor id) with
    hardware := Hardware.graft id donor.hardware s.hardware }

/-- What belongs to one processor alone is the same in two consoles, and so is the processor itself. -/
def SharesOwn (s s' : Board δ) : ProcessorId → Prop
  | .arm7 =>
    s'.cpu7 = s.cpu7 ∧ s'.hardware.memory.private7 = s.hardware.memory.private7 ∧
      s'.hardware.memory.firmware7 = s.hardware.memory.firmware7 ∧
      s'.hardware.bootFlags.arm7 = s.hardware.bootFlags.arm7
  | .arm9 =>
    s'.cpu9 = s.cpu9 ∧ s'.hardware.memory.instructionTcm = s.hardware.memory.instructionTcm ∧
      s'.hardware.memory.dataTcm = s.hardware.memory.dataTcm ∧
      s'.hardware.memory.firmware9 = s.hardware.memory.firmware9 ∧
      s'.hardware.control = s.hardware.control ∧ s'.hardware.bootFlags.arm9 = s.hardware.bootFlags.arm9

variable (devices : Devices δ) (s donor : Board δ) (id : ProcessorId)

/-- A step of one processor: the fault that it ended in, if any, and the console after it. -/
def stepped : Option Fault × Board δ :=
  match Exec.step (bus devices id) (s.node id) with
  | .ok _ m => (none, s.put id m)
  | .error e m => (some e, s.put id m)

theorem stepped_console :
    (s.stepped devices id).2 = s.put id ((Exec.step (bus devices id)).final (s.node id)) := by
  unfold stepped Exec.final
  cases Exec.step (bus devices id) (s.node id) <;> rfl

theorem sharesOwn_graft : donor.SharesOwn (s.graft id donor) id := by
  cases id
  · exact ⟨rfl, rfl, rfl, rfl⟩
  · exact ⟨rfl, rfl, rfl, rfl, rfl, rfl⟩

theorem graft_self : s.graft id s = s := by
  cases id <;> rfl

/-- A step is the same whatever the other processor has for itself, and leaves it as it is. -/
theorem graft_stepped :
    (s.graft id.other donor).stepped devices id =
      ((s.stepped devices id).1, (s.stepped devices id).2.graft id.other donor) := by
  have node : (s.graft id.other donor).node id = (s.node id).seen (Hardware.graft id.other donor.hardware) := by
    cases id <;> rfl
  have put : ∀ m, (s.graft id.other donor).put id (m.seen (Hardware.graft id.other donor.hardware)) =
      (s.put id m).graft id.other donor := by
    intro m
    cases id <;> rfl
  have same := Exec.step_seen (Node.graft_sees devices id donor.hardware).bus (s.node id)
  rw [Machine.viewed_of] at same
  unfold stepped
  rw [node, same]
  cases Exec.step (bus devices id) (s.node id) with
  | ok _ m => exact congrArg (Prod.mk none) (put m)
  | error e m => exact congrArg (Prod.mk (some e)) (put m)

end Board

/-- No step of a processor changes what belongs to the other one alone, or any firmware; with all of that
taken from another console, it ends in the same fault, if any, and does the same to all the rest. The ARM7
leaves the upper nine bits of the external memory control alone. -/
theorem processors_isolated (devices : Devices δ) (s : Board δ) (id : ProcessorId) :
    (∀ donor : Board δ, (s.graft id.other donor).stepped devices id =
      ((s.stepped devices id).1, (s.stepped devices id).2.graft id.other donor)) ∧
    s.SharesOwn (s.stepped devices id).2 id.other ∧
    (s.stepped devices id).2.hardware.memory.firmware7 = s.hardware.memory.firmware7 ∧
    (s.stepped devices id).2.hardware.memory.firmware9 = s.hardware.memory.firmware9 ∧
    (s.stepped devices .arm7).2.hardware.externalMemory >>> 7 = s.hardware.externalMemory >>> 7 := by
  refine ⟨fun donor => s.graft_stepped devices donor id, ?_, ?_⟩
  · -- A console that is its own donor is itself, so after the step the donor's things are still there.
    have kept := s.graft_stepped devices s id
    rw [s.graft_self] at kept
    have same : (s.stepped devices id).2 = (s.stepped devices id).2.graft id.other s := congrArg Prod.snd kept
    exact same ▸ Board.sharesOwn_graft (s.stepped devices id).2 s id.other
  · have firmware := ((Hardware.firmware_keeps devices) id).carries.step (s.node id)
    have upper := (Node.externalMemory_keeps devices).carries.step (s.node .arm7)
    simp only [Board.stepped_console]
    refine ⟨?_, ?_, upper⟩
    · cases id <;> exact firmware.1
    · cases id <;> exact firmware.2

/-- A console whose ARM7 is about to execute `MOV r0, #v` out of its firmware. -/
def loading (v : UInt8) : Board Unit :=
  .powerOn (.setImage {} "nds7" ⟨#[v, 0x00, 0xA0, 0xE3]⟩) ()

theorem loading_operated (v : UInt8) : (loading v).Operated .none := ⟨_, (), .refl⟩

/-- A processor's own firmware does matter to it: these consoles differ in nothing else. -/
theorem loading_distinguished :
    (loading 1).Operated .none ∧ (loading 2).Operated .none ∧
    loading 2 = { loading 1 with hardware := { (loading 1).hardware with
      memory := { (loading 1).hardware.memory with firmware7 := ⟨#[2, 0x00, 0xA0, 0xE3]⟩ }
      config := { (loading 1).hardware.config with firmware := (loading 2).hardware.config.firmware } } } ∧
    ((loading 1).stepped .none .arm7).2.cpu7.regs.read 0 = 1 ∧
    ((loading 2).stepped .none .arm7).2.cpu7.regs.read 0 = 2 := by
  refine ⟨loading_operated 1, loading_operated 2, rfl, ?_, ?_⟩
  · decide +kernel
  · decide +kernel

end Lockstep.Console
