import Lockstep.Proofs.Console.Parts
import Lockstep.Proofs.Console.Store
import Lockstep.Proofs.Transcript

/-!
Notes. A bus that does the same as a processor's own can note something down at each access to memory. What each
access does is related to its notes; then so is what a whole step does to all notes that are taken in it.
-/

namespace Lockstep

section
variable {σ ν : Type}

/-- A bus that does the same as another and notes down the accesses to memory, but takes no software calls. -/
def Bus.noting (bus : Bus σ) (reading : Width → Address → Machine σ → List ν)
    (writing : Width → Address → Word → Machine σ → List ν) : Bus (σ × List ν) where
  architecture := bus.architecture
  get w a m :=
    let (v, now) := bus.get w a (m.seen Prod.fst)
    (v, m.noting now (reading w a (m.seen Prod.fst)))
  set w a v m := m.noting (bus.set w a v (m.seen Prod.fst)) (writing w a v (m.seen Prod.fst))
  waitTime w a k m :=
    let (n, now) := bus.waitTime w a k (m.seen Prod.fst)
    (n, m.noting now [])
  controlRead r m :=
    let (v, now) := bus.controlRead r (m.seen Prod.fst)
    (v, m.noting now [])
  controlWrite r v m :=
    let (taken, now) := bus.controlWrite r v (m.seen Prod.fst)
    (taken, m.noting now [])
  tracing s := bus.tracing s.1
  dozeLength s := bus.dozeLength s.1

end

namespace Console

variable {δ ν : Type}

def Board.memoryBus (devices : Devices δ) : ProcessorId → Bus (Hardware δ)
  | .arm7 => memoryBus7 devices
  | .arm9 => memoryBus9 devices

section
variable (devices : Devices δ) (reading : Width → Address → Node δ → List ν)
  (writing : Width → Address → Word → Node δ → List ν) (id : ProcessorId)

/-- The bus of a processor, noting down accesses to memory. Firmware calls access memory, so what they access is
noted down as well. -/
def notingBus : Bus (Hardware δ × List ν) :=
  { (Board.bus devices id).noting reading writing with
    softwareCall := fun number => do
      if (← get).system.1.config.emulateCalls then
        Firmware.call ((Board.memoryBus devices id).noting reading writing) number
      else return false }

/-- Without its notes, the bus is that of the processor. -/
theorem notingBus_shows : (notingBus devices reading writing id).Shows (.of Prod.fst) (Board.bus devices id) where
  architecture := rfl
  get _ _ _ := rfl
  set _ _ _ _ := rfl
  waitTime _ _ _ _ := rfl
  softwareCall number := by
    have memory : ((Board.memoryBus devices id).noting reading writing).Shows (.of Prod.fst)
        (Board.memoryBus devices id) := by
      constructor <;> cases id <;> intros <;> rfl
    have offered : Exec.Shows (.of Prod.fst) ((notingBus devices reading writing id).softwareCall number)
        (offerCall (Board.memoryBus devices id) number) :=
      Exec.shows_get fun m =>
        Exec.shows_unless (Firmware.call_seen memory number) (Exec.shows_pure false) m
    cases id <;> exact offered
  controlRead _ _ := rfl
  controlWrite _ _ _ := rfl
  tracing _ := rfl
  dozeLength _ := rfl

/-- Each access does what its notes say, and what notes nothing down does nothing of that kind. -/
structure Node.Notes (R : Node δ → List ν → Node δ → Prop) : Prop where
  get : ∀ w a m, R m (reading w a m) ((Board.bus devices id).get w a m).2
  set : ∀ w a v m, R m (writing w a v m) ((Board.bus devices id).set w a v m)
  own : ∀ m m', m.Alone m' → R m [] m'
  controlWrite : ∀ r v m, R m [] ((Board.bus devices id).controlWrite r v m).2
  append : ∀ {m₁ m₂ m₃ l l'}, R m₁ l m₂ → R m₂ l' m₃ → R m₁ (l ++ l') m₃

/-- From one machine to another, notes are added that say what has been done. -/
def Noted (R : Node δ → List ν → Node δ → Prop) (m m' : Machine (Hardware δ × List ν)) : Prop :=
  ∃ notes, m'.system.2 = m.system.2 ++ notes ∧ R (m.seen Prod.fst) notes (m'.seen Prod.fst)

def stepNotes (m : Node δ) : List ν :=
  ((Exec.step (notingBus devices reading writing id)).final ⟨m.cpu, (m.system, []), m.journal⟩).system.2

end

variable {devices : Devices δ} {reading : Width → Address → Node δ → List ν}
  {writing : Width → Address → Word → Node δ → List ν} {id : ProcessorId}
  {R : Node δ → List ν → Node δ → Prop}

namespace Node.Notes

theorem carries (h : Node.Notes devices reading writing id R) :
    (notingBus devices reading writing id).Carries (Noted R) := by
  have get : ∀ w a m, Noted R m ((notingBus devices reading writing id).get w a m).2 := fun w a m =>
    ⟨_, rfl, h.get w a _⟩
  have set : ∀ w a v m, Noted R m ((notingBus devices reading writing id).set w a v m) := fun w a v m =>
    ⟨_, rfl, h.set w a v _⟩
  have own : ∀ m m' : Machine (Hardware δ × List ν), m.Alone m' → Noted R m m' := fun m m' alone =>
    ⟨[], by rw [alone.system, List.append_nil],
      h.own _ _ ⟨congrArg Prod.fst alone.system, alone.timestamp, alone.interrupts, alone.exceptionBase⟩⟩
  have trans : ∀ {m₁ m₂ m₃ : Machine (Hardware δ × List ν)},
      Noted R m₁ m₂ → Noted R m₂ m₃ → Noted R m₁ m₃ := by
    rintro m₁ m₂ m₃ ⟨first, kept, done⟩ ⟨second, kept', done'⟩
    exact ⟨first ++ second, by rw [kept', kept, List.append_assoc], h.append done done'⟩
  -- What is left are the calls that note nothing down.
  have silent : ∀ {m : Machine (Hardware δ × List ν)} {now : Node δ},
      R (m.seen Prod.fst) [] now → Noted R m (m.noting now []) := fun done => ⟨[], rfl, done⟩
  refine ⟨⟨⟨get, fun w a k m => ?_⟩, set, fun number m => ?_, fun r m => ?_, fun r v m => ?_⟩, own, trans⟩
  · refine silent (h.own _ _ ?_)
    cases id <;> exact ⟨rfl, Nat.le_refl _, rfl, rfl⟩
  · have offered : (notingBus devices reading writing id).softwareCall number m =
        if m.system.1.config.emulateCalls then
          Firmware.call ((Board.memoryBus devices id).noting reading writing) number m
        else .ok false m := by
      refine (Exec.get_bind ..).trans ?_
      split_ifs <;> rfl
    unfold Exec.final
    rw [offered]
    split_ifs
    · refine Firmware.call_keeps ?_ ?_ (fun _ _ answers => own _ _ answers.toAlone) trans number m
      · cases id <;> exact get
      · cases id <;> exact set
    · exact own m m ⟨rfl, Nat.le_refl _, rfl, rfl⟩
  · refine silent (h.own _ _ ?_)
    cases id <;> exact ⟨rfl, Nat.le_refl _, rfl, rfl⟩
  · exact silent (h.controlWrite r v _)

/-- A step does what its notes say. -/
theorem step (h : Node.Notes devices reading writing id R) (m : Node δ) :
    R m (stepNotes devices reading writing id m) ((Exec.step (Board.bus devices id)).final m) := by
  obtain ⟨notes, kept, done⟩ := h.carries.step ⟨m.cpu, (m.system, []), m.journal⟩
  have all : stepNotes devices reading writing id m = notes := kept
  have shown : (Exec.step (Board.bus devices id)).final m = _ :=
    (Exec.step_seen (notingBus_shows devices reading writing id)).final ⟨m.cpu, (m.system, []), m.journal⟩
  rw [all, shown]
  exact done

end Node.Notes

end Console

end Lockstep
