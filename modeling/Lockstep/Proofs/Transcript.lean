import Lockstep.Proofs.StepSeen

/-!
Transcripts. A bus that writes down every call that is made to it does the same as the bus itself, so what it
has written down at the end is what a processor asked of its system on the way.
-/

namespace Lockstep

variable {σ ν α : Type}

/-- A machine that has come to `now`, with more notes in the record that its system keeps. -/
def Machine.noting (m : Machine (σ × List ν)) (now : Machine σ) (notes : List ν) : Machine (σ × List ν) :=
  ⟨now.cpu, (now.system, m.system.2 ++ notes), now.journal⟩

theorem Machine.noting_nil (m : Machine (σ × List ν)) : m.noting (m.seen Prod.fst) [] = m := by
  rw [noting, List.append_nil]
  rfl

theorem Machine.noting_noting (m : Machine (σ × List ν)) (now now' : Machine σ) (notes notes' : List ν) :
    (m.noting now notes).noting now' notes' = m.noting now' (notes ++ notes') := by
  rw [noting, noting, noting, List.append_assoc]

/-- A call of the bus, with the number or the value that came back. -/
inductive Request where
  | wait (w : Width) (a : Address) (kind : Access) (cycles : Nat)
  | get (w : Width) (a : Address) (v : Word)
  | set (w : Width) (a : Address) (v : Word)
  | softwareCall (number : BitVec 8)
  | controlRead (r : ControlRegister)
  | controlWrite (r : ControlRegister) (v : Word)
deriving DecidableEq, Repr

/-- What is asked of a system in a while, the earliest request first. -/
abbrev Transcript := List Request

def Machine.recording (m : Machine σ) (t : Transcript) : Machine (σ × Transcript) :=
  ⟨m.cpu, (m.system, t), m.journal⟩

def Bus.recorded (bus : Bus σ) : Bus (σ × Transcript) where
  architecture := bus.architecture
  get w a m :=
    let (v, now) := bus.get w a (m.seen Prod.fst)
    (v, m.noting now [.get w a (w.truncate v)])
  set w a v m := m.noting (bus.set w a v (m.seen Prod.fst)) [.set w a v]
  waitTime w a k m :=
    let (n, now) := bus.waitTime w a k (m.seen Prod.fst)
    (n, m.noting now [.wait w a k n])
  softwareCall number m :=
    match bus.softwareCall number (m.seen Prod.fst) with
    | .ok handled now => .ok handled (m.noting now [.softwareCall number])
    | .error e now => .error e (m.noting now [.softwareCall number])
  controlRead r m :=
    let (v, now) := bus.controlRead r (m.seen Prod.fst)
    (v, m.noting now [.controlRead r])
  controlWrite r v m :=
    let (taken, now) := bus.controlWrite r v (m.seen Prod.fst)
    (taken, m.noting now [.controlWrite r v])
  tracing s := bus.tracing s.1
  dozeLength s := bus.dozeLength s.1

theorem Bus.recorded_shows (bus : Bus σ) : bus.recorded.Shows (.of Prod.fst) bus where
  architecture := rfl
  get _ _ _ := rfl
  set _ _ _ _ := rfl
  waitTime _ _ _ _ := rfl
  softwareCall number m := by
    unfold recorded
    simp only [Machine.viewed_of]
    cases bus.softwareCall number (m.seen Prod.fst) <;> rfl
  controlRead _ _ := rfl
  controlWrite _ _ _ := rfl
  tracing _ := rfl
  dozeLength _ := rfl

/-- What a computation comes to is what it comes to with a record, and the record shows what was asked for. -/
theorem Exec.Shows.recording {x : Exec (σ × Transcript) α} {y : Exec σ α} (h : Exec.Shows (.of Prod.fst) x y)
    {m m' : Machine σ} {a : α} (run : y m = .ok a m') : ∃ t, x (m.recording []) = .ok a (m'.recording t) := by
  have shown : y m = Exec.seen (.of Prod.fst) (x (m.recording [])) := h (m.recording [])
  rw [run] at shown
  cases hx : x (m.recording []) with
  | ok b n =>
    rw [hx] at shown
    cases shown
    exact ⟨n.system.2, rfl⟩
  | error e n =>
    rw [hx] at shown
    cases shown

theorem Exec.Shows.of_recording {x : Exec (σ × Transcript) α} {y : Exec σ α} (h : Exec.Shows (.of Prod.fst) x y)
    {m : Machine σ} {n : Machine (σ × Transcript)} {a : α} (run : x (m.recording []) = .ok a n) :
    y m = .ok a (n.seen Prod.fst) := by
  have shown : y m = Exec.seen (.of Prod.fst) (x (m.recording [])) := h (m.recording [])
  rw [shown, run]
  rfl

end Lockstep
