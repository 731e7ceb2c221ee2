import Lockstep.Proofs.Console.Derived
import Lockstep.Proofs.Console.Journals

/-!
Booting again. A boot forgets all that a console was used for, except what is in its memory and its devices. So a
console that is booted again goes on like one that was just switched on.
-/

namespace Lockstep.Console

variable {δ : Type} {devices : Devices δ}

/-- Consoles of one make: the ARM7 has its handlers in the same place, and the configuration and the firmware are the
same. -/
structure Board.SameMake (s s' : Board δ) : Prop where
  vectors7 : s'.cpu7.exceptionBase = s.cpu7.exceptionBase
  config : s'.hardware.config = s.hardware.config
  firmware7 : s'.hardware.memory.firmware7 = s.hardware.memory.firmware7
  firmware9 : s'.hardware.memory.firmware9 = s.hardware.memory.firmware9

namespace Board.SameMake

variable {s s₁ s' : Board δ}

theorem refl (s : Board δ) : s.SameMake s := ⟨rfl, rfl, rfl, rfl⟩

theorem trans (h : s.SameMake s₁) (h' : s₁.SameMake s') : s.SameMake s' where
  vectors7 := h'.vectors7.trans h.vectors7
  config := h'.config.trans h.config
  firmware7 := h'.firmware7.trans h.firmware7
  firmware9 := h'.firmware9.trans h.firmware9

/-- No access changes the make. -/
theorem node_keeps (devices : Devices δ) (s : Board δ) (id : ProcessorId) :
    Node.Keeps devices id fun m m' => (s.put id m).SameMake (s.put id m') where
  own m m' alone := by
    obtain ⟨system, -, -, base⟩ := alone
    cases id with
    | arm7 =>
      exact ⟨base, congrArg (·.config) system, congrArg (·.memory.firmware7) system,
        congrArg (·.memory.firmware9) system⟩
    | arm9 =>
      exact ⟨rfl, congrArg (·.config) system, congrArg (·.memory.firmware7) system,
        congrArg (·.memory.firmware9) system⟩
  trans := .trans
  core r v mask m := by
    have spared := Node.writeCore_spares id r v mask m
    cases id with
    | arm7 =>
      exact ⟨spared.exceptionBase, spared.config, congrArg (·.firmware7) spared.memory,
        congrArg (·.firmware9) spared.memory⟩
    | arm9 => exact ⟨rfl, spared.config, congrArg (·.firmware7) spared.memory, congrArg (·.firmware9) spared.memory⟩
  read _ _ := by cases id <;> exact ⟨rfl, rfl, rfl, rfl⟩
  write _ _ _ _ := by cases id <;> exact ⟨rfl, rfl, rfl, rfl⟩
  memory r offset w v m := by
    obtain ⟨firmware7, firmware9⟩ := m.system.memory.firmware_write r offset w v
    cases id <;> exact ⟨rfl, rfl, firmware7, firmware9⟩
  control only _ _ _ := by
    subst only
    exact ⟨rfl, rfl, rfl, rfl⟩

theorem part (devices : Devices δ) (s : Board δ) (p : Part) : s.SameMake (p.apply devices s) := by
  have carries (id : ProcessorId) := (node_keeps devices s id).carries
  have here (id : ProcessorId) {s' : Board δ} (h : (s.put id (s.node id)).SameMake s') : s.SameMake s' :=
    s.put_node id ▸ h
  cases p with
  | step id => exact here id ((carries id).step (s.node id))
  | get id w a => exact here id ((carries id).calls.get w a (s.node id))
  | set id w a v => exact here id ((carries id).calls.set w a v (s.node id))
  | deliver | clock | plan | mark | enterProgram | reset => exact ⟨rfl, rfl, rfl, rfl⟩
  | dispatch =>
    unfold Part.apply
    rcases s.hardware.schedule.takeDue with ⟨_ | ⟨_ | event, lateBy⟩, schedule⟩
    all_goals exact ⟨rfl, rfl, rfl, rfl⟩

theorem parts (devices : Devices δ) (s : Board δ) (parts : List Part) : s.SameMake (Part.run devices s parts) := by
  induction parts generalizing s with
  | nil => exact refl s
  | cons p parts ih => exact (part devices s p).trans (ih _)

theorem operation (h : Operation devices s s') : s.SameMake s' := by
  obtain ⟨all, rfl, -⟩ := h.leads
  exact parts devices s all

theorem boot (s : Board δ) (entry9 entry7 : Address) : s.SameMake (s.boot entry9 entry7) := by
  unfold Board.boot
  simp only
  split_ifs <;> exact ⟨rfl, rfl, rfl, rfl⟩

end Board.SameMake

/-- A console that was switched on and has since been operated, reset, booted, and changed from outside in whatever
way, except that it is still of the same make. -/
def Board.Used (devices : Devices δ) (s : Board δ) : Prop :=
  ∃ config d, Relation.ReflTransGen
    (fun s s' => Operation devices s s' ∨ s' = s.reset ∨ (∃ entry9 entry7, s' = s.boot entry9 entry7) ∨ s.SameMake s')
    (.powerOn config d) s

theorem Board.Operated.used {s : Board δ} (operated : s.Operated devices) : s.Used devices := by
  obtain ⟨config, d, run⟩ := operated
  refine ⟨config, d, Relation.ReflTransGen.mono ?_ _ _ run⟩
  exact fun _ _ done => done.imp_right (·.imp_right .inl)

theorem Board.Used.make {s : Board δ} (used : s.Used devices) :
    ∃ d, (Board.powerOn s.hardware.config d).SameMake s := by
  obtain ⟨config, d, run⟩ := used
  have make : (Board.powerOn config d).SameMake s := by
    induction run with
    | refl => exact .refl _
    | tail _ done ih =>
      rcases done with done | rfl | ⟨entry9, entry7, rfl⟩ | outside
      · exact ih.trans (.operation done)
      · exact ih.trans ⟨rfl, rfl, rfl, rfl⟩
      · exact ih.trans (.boot _ entry9 entry7)
      · exact ih.trans outside
  exact ⟨d, make.config ▸ make⟩

theorem Memory.eq_of_bytes {m m' : Memory} (bytes : ∀ r, m'.bytes r = m.bytes r)
    (firmware7 : m'.firmware7 = m.firmware7) (firmware9 : m'.firmware9 = m.firmware9) : m' = m := by
  have main : m'.main = m.main := bytes .main
  have shared : m'.shared = m.shared := bytes .shared
  have private7 : m'.private7 = m.private7 := bytes .private7
  have instructionTcm : m'.instructionTcm = m.instructionTcm := bytes (.tcm .instruction)
  have dataTcm : m'.dataTcm = m.dataTcm := bytes (.tcm .data)
  cases m
  cases m'
  simp_all only

def Board.refill (s : Board δ) (memory : Memory) (d : δ) : Board δ :=
  { s with hardware := { s.hardware with memory, devices := d } }

/-- A reset forgets all but memory and devices. -/
theorem Board.reset_eq {s : Board δ} (vectors7 : s.cpu7.exceptionBase = 0) (d : δ) :
    s.reset = ((Board.powerOn s.hardware.config d).refill s.hardware.memory s.hardware.devices).after s.journal := by
  have cpu7 : s.cpu7.reset = Processor.powerOn .v4 := by
    unfold Processor.powerOn Processor.reset
    rw [vectors7]
    rfl
  have journal : s.journal ++ #[] = s.journal := Array.append_empty
  unfold Board.after
  show _ = Board.mk _ _ _ _ (s.journal ++ #[])
  rw [journal, reset, cpu7]
  rfl

theorem Board.boot_refill (config : Configuration) (memory : Memory) (d d' : δ) (entry9 entry7 : Address) :
    ((Board.powerOn config d).refill memory d').boot entry9 entry7 =
      ((Board.powerOn config d).boot entry9 entry7).refill memory d' := by
  unfold boot
  show (if config.skipBoot then _ else _) = Board.refill (if config.skipBoot then _ else _) memory d'
  split_ifs <;> rfl

/-- So a boot leaves the same as the first one, behind what was in the journal. -/
theorem Board.boot_eq {s : Board δ} (vectors7 : s.cpu7.exceptionBase = 0) (d : δ) (entry9 entry7 : Address) :
    s.boot entry9 entry7 =
      (((Board.powerOn s.hardware.config d).boot entry9 entry7).refill s.hardware.memory
        s.hardware.devices).after s.journal := by
  have again : s.boot entry9 entry7 = s.reset.boot entry9 entry7 := rfl
  rw [again, reset_eq vectors7 d, boot_after, boot_refill]

/-- A console that was used in whatever way is booted into the state in which a new one is, but for what is in its
memory and its devices. If a new one has the same in them, both answer all later commands in the same way, and both
are in the same state after them. Devices see the journal here, so that they must not look at it. -/
theorem boot_complete {s : Board δ} (used : s.Used devices) (entry9 entry7 : Address) (d : δ) :
    let fresh := (Board.powerOn s.hardware.config d).boot entry9 entry7
    s.boot entry9 entry7 =
      { fresh with
        hardware := { fresh.hardware with memory := s.hardware.memory, devices := s.hardware.devices }
        journal := s.journal ++ fresh.journal } ∧
    ∀ memory : Memory, (∀ r, memory.bytes r = s.hardware.memory.bytes r) →
      memory.firmware7 = fresh.hardware.memory.firmware7 → memory.firmware9 = fresh.hardware.memory.firmware9 →
      devices.Oblivious → ∀ commands,
        let same := fresh.refill memory s.hardware.devices
        (Command.runAll devices commands (s.boot entry9 entry7)).1 = (Command.runAll devices commands same).1 ∧
        (Command.runAll devices commands (s.boot entry9 entry7)).2 =
          (Command.runAll devices commands same).2.after s.journal := by
  intro fresh
  obtain ⟨d', make⟩ := used.make
  have booted := Board.boot_eq make.vectors7 d entry9 entry7
  refine ⟨booted, fun memory contents firmware7 firmware9 oblivious commands => ?_⟩
  have again : (Board.powerOn s.hardware.config d).SameMake fresh := .boot _ entry9 entry7
  obtain rfl := Memory.eq_of_bytes contents (firmware7.trans (again.firmware7.trans make.firmware7.symm))
    (firmware9.trans (again.firmware9.trans make.firmware9.symm))
  have later := Command.runAll_after s.journal oblivious commands (fresh.refill s.hardware.memory s.hardware.devices)
  rw [booted, later]
  exact ⟨rfl, rfl⟩

/-- Devices that plan the end of a line again whenever it comes. -/
def repeating : Script where
  onEvent := [(.display .lineBlankStart, [.plan (.display .lineBlankStart) 3])]

/-- Their console, after its ARM9 has executed `MCR p15, 0, r0, c1, c0, 0` and then slowed down the cartridge ROM. -/
def rewired : Board ScriptState :=
  let s := Board.powerOn (Configuration.setImage {} "nds9" ⟨#[0x10, 0x0F, 0x01, 0xEE]⟩) {}
  let s := s.put .arm9 ((Exec.step (Board.bus repeating.devices .arm9)).final (s.node .arm9))
  (s.withNode .arm9 fun m => ((), (Board.bus repeating.devices .arm9).store .byte 0x04000204 0x0C m)).2

/-- It has other windows of the tightly coupled memories, and is booted. -/
theorem rewired_reboots :
    let fresh := (Board.powerOn rewired.hardware.config {}).boot 0x02000000 0x02000000
    let commands : List Command := [.schedule (.display .lineBlankStart) 1, .advance 4, .takesInterrupt .arm9]
    rewired.Used repeating.devices ∧ rewired.hardware.control ≠ fresh.hardware.control ∧
      (rewired.boot 0x02000000 0x02000000).hardware.control = fresh.hardware.control ∧
      (Command.runAll repeating.devices commands (rewired.boot 0x02000000 0x02000000)).1 =
        (Command.runAll repeating.devices commands
          (fresh.refill rewired.hardware.memory rewired.hardware.devices)).1 := by
  intro fresh commands
  have used : rewired.Used repeating.devices := Board.Operated.used
    ⟨_, _, .tail (.single (.inl (.step _ .arm9))) (.inl (.store _ .arm9 .byte 0x04000204 0x0C))⟩
  obtain ⟨booted, later⟩ := boot_complete used 0x02000000 0x02000000 {}
  obtain ⟨_, make⟩ := used.make
  have again : (Board.powerOn rewired.hardware.config {}).SameMake fresh := .boot _ _ _
  obtain ⟨answers, -⟩ := later rewired.hardware.memory (fun _ => rfl) (make.firmware7.trans again.firmware7.symm)
    (make.firmware9.trans again.firmware9.symm) repeating.devices_oblivious commands
  exact ⟨used, by decide +kernel, congrArg (·.hardware.control) booted, answers⟩

end Lockstep.Console
