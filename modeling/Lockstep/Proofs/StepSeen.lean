import Lockstep.Firmware
import Lockstep.Proofs.InstructionsSeen

/-!
A step looks the same through a view that the bus looks the same through, whether or not it fails; and so
does a firmware call.
-/

namespace Lockstep

variable {σ τ : Type} {φ : View σ τ} {bus : Bus σ} {bus' : Bus τ} (h : bus.Shows φ bus')
include h

namespace Firmware

theorem copyUnits_seen (w : Width) (fill : Option Word) (count : Nat) (src dst : Address) (m : Machine σ) :
    copyUnits bus' w fill count src dst (m.viewed φ) = (copyUnits bus w fill count src dst m).viewed φ := by
  induction count generalizing src dst m with
  | zero => rfl
  | succ count ih =>
    cases fill with
    | some v => simp only [copyUnits, h.store, ih]
    | none => simp only [copyUnits, h.load, seenWith, h.store, ih]

theorem moveUnits_seen (w : Width) (count : Nat) (filling : Bool) (m : Machine σ) :
    moveUnits bus' w count filling (m.viewed φ) = (moveUnits bus w count filling m).viewed φ := by
  simp only [moveUnits, argument, Machine.viewed_reg, h.load, seenWith, copyUnits_seen h, Machine.viewed_idle]

theorem checksumMemory_seen (count : Nat) (addr : Address) (crc : BitVec 16) (m : Machine σ) :
    checksumMemory bus' count addr crc (m.viewed φ) = seenWith φ (checksumMemory bus count addr crc m) := by
  induction count generalizing addr crc m with
  | zero => rfl
  | succ count ih => simp only [checksumMemory, h.load, seenWith, ih]

theorem checksum_seen (m : Machine σ) : checksum bus' (m.viewed φ) = (checksum bus m).viewed φ := by
  simp only [checksum, argument, result, Machine.viewed_reg, checksumMemory_seen h, seenWith,
    Machine.viewed_mapRegs]

omit h in
theorem divide_seen : Exec.Shows φ (divide : Exec σ Unit) divide := by
  refine Exec.shows_get fun m => Exec.shows_unless ?_ ?_ m
  · exact fun _ => rfl
  · exact fun _ => rfl

theorem call_seen (number : BitVec 8) : Exec.Shows φ (call bus number) (call bus' number) := by
  have done : ∀ {x : Exec σ Unit} {y : Exec τ Unit}, Exec.Shows φ x y → Exec.Shows φ
      (do
        x
        modify (·.note .trace ("Emulated BIOS call 0x" ++ Text.hexPadded 2 number.toNat))
        pure true)
      (do
        y
        modify (·.note .trace ("Emulated BIOS call 0x" ++ Text.hexPadded 2 number.toNat))
        pure true) := fun hx =>
    Exec.shows_bind hx fun _ =>
      Exec.shows_bind (Exec.shows_modify fun m => Machine.viewed_note φ m _ _) fun _ => Exec.shows_pure true
  unfold call
  split
  · exact done (Exec.shows_modify fun _ => rfl)
  · exact done (Exec.shows_modify fun _ => rfl)
  · exact done divide_seen
  · exact done (Exec.shows_modify fun m => moveUnits_seen h _ _ _ m)
  · exact done (Exec.shows_modify fun m => moveUnits_seen h _ _ _ m)
  · exact done (Exec.shows_modify fun _ => rfl)
  · exact done (Exec.shows_modify fun m => checksum_seen h m)
  · exact done (Exec.shows_modify fun _ => rfl)
  · exact Exec.shows_pure false

end Firmware

theorem Bus.Shows.trace (thumb : Bool) (inst : Word) (m : Machine σ) :
    bus'.trace thumb inst (m.viewed φ) = (bus.trace thumb inst m).viewed φ := by
  simp only [Bus.trace, h.architecture, h.tracing, Machine.viewed_system, Machine.viewed_cpu, Machine.viewed_note,
    Machine.viewed_ite]

namespace Exec

theorem instruction_seen : Shows φ (instruction bus) (instruction bus') := by
  refine shows_get fun m => ?_
  refine shows_bind (shows_modifyGet fun m => h.fetch m) (fun inst => ?_) m
  refine shows_bind (shows_modify fun m => h.trace _ inst m) fun _ => ?_
  exact shows_unless (Thumb.execute_seen h _) (Arm.execute_seen h inst)

theorem doze_seen (m : Machine σ) : doze bus' (m.viewed φ) = (doze bus m).viewed φ := by
  simp only [doze, h.dozeLength, Machine.viewed_system, Machine.viewed_idle, Machine.viewed_cpu,
    Machine.viewed_mapCpu, Machine.viewed_ite]

/-- If the calls of one bus look through the view like the calls of another, so do the steps. -/
theorem step_seen : Shows φ (step bus) (step bus') := by
  have settled : ∀ _ : Unit, Shows φ
      (do unless (← get).cpu.halted do modify bus.checkInterrupt)
      (do unless (← get).cpu.halted do modify bus'.checkInterrupt) := by
    intro _
    refine shows_get fun m => shows_unless (shows_pure ()) ?_ m
    exact shows_modify fun m => h.checkInterrupt m
  refine shows_get fun m => shows_unless ?_ ?_ m
  · exact shows_bind (shows_modify fun m => doze_seen h m) settled
  · exact shows_bind (instruction_seen h) settled

/-- Stepping while a condition holds that looks the same. -/
theorem stepWhile_seen (p : Machine σ → Bool) (p' : Machine τ → Bool) (same : ∀ m, p' (m.viewed φ) = p m)
    (fuel : Nat) : Shows φ (stepWhile bus p fuel) (stepWhile bus' p' fuel) := by
  induction fuel with
  | zero =>
    refine shows_get fun m => ?_
    rw [same]
    rfl
  | succ fuel ih =>
    refine shows_get fun m => ?_
    rw [same]
    exact shows_unless (shows_bind (step_seen h) fun _ => ih) (shows_pure true) m

end Exec

end Lockstep
