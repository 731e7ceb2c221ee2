import Lockstep.Proofs.Carry
import Lockstep.Proofs.Transcript
import Mathlib.Algebra.GroupWithZero.Nat

/-!
Where the time of a processor goes. Its clock advances by the answers to its waits, and by internal cycles. The
requests of an instruction come in order: each access to data right behind its own wait, and refills of the
pipeline as two waits for code.
-/

namespace Lockstep

variable {σ α β : Type}

def Request.cycles : Request → Nat
  | .wait _ _ _ n => n
  | _ => 0

def Request.isAccess : Request → Bool
  | .get .. | .set .. => true
  | _ => false

def Transcript.waits (t : Transcript) : Nat := (t.map Request.cycles).sum

namespace Transcript

/-- Requests in which every access follows its wait, of the same width and address and marked as a write where
it is one, and all other waits are for code. -/
inductive Orderly : Transcript → Prop where
  | nil : Orderly []
  | refill {t : Transcript} {w : Width} {a : Address} {k : Access} (n : Nat) (code : k.code = true)
      (write : k.write = false) : Orderly t → Orderly (.wait w a k n :: t)
  | read {t : Transcript} {w : Width} {a : Address} {k : Access} (n : Nat) (v : Word) (code : k.code = false)
      (write : k.write = false) : Orderly t → Orderly (.wait w a k n :: .get w a v :: t)
  | write {t : Transcript} {w : Width} {a : Address} {k : Access} (n : Nat) (v : Word) (code : k.code = false)
      (write : k.write = true) : Orderly t → Orderly (.wait w a k n :: .set w a v :: t)
  | softwareCall {t : Transcript} (number : BitVec 8) : Orderly t → Orderly (.softwareCall number :: t)
  | controlRead {t : Transcript} (r : ControlRegister) : Orderly t → Orderly (.controlRead r :: t)
  | controlWrite {t : Transcript} (r : ControlRegister) (v : Word) :
      Orderly t → Orderly (.controlWrite r v :: t)

theorem Orderly.append {s t : Transcript} (hs : Orderly s) (ht : Orderly t) : Orderly (s ++ t) := by
  induction hs with
  | nil => exact ht
  | refill n code write _ ih => exact .refill n code write ih
  | read n v code write _ ih => exact .read n v code write ih
  | write n v code write _ ih => exact .write n v code write ih
  | softwareCall number _ ih => exact .softwareCall number ih
  | controlRead r _ ih => exact .controlRead r ih
  | controlWrite r v _ ih => exact .controlWrite r v ih

theorem waits_cons (r : Request) (t : Transcript) : waits (r :: t) = r.cycles + t.waits := rfl

theorem waits_append (s t : Transcript) : waits (s ++ t) = s.waits + t.waits := by
  simp only [waits, List.map_append, List.sum_append]

end Transcript

open Transcript (Orderly waits)

/-- From one machine to another, the clock has advanced by the waits on record and by `n` internal cycles. -/
def Machine.Spends (n : Nat) (m m' : Machine (σ × Transcript)) : Prop :=
  ∃ t : Transcript, m'.system.2 = m.system.2 ++ t ∧ Orderly t ∧
    m'.cpu.timestamp = m.cpu.timestamp + t.waits + n

namespace Machine.Spends

variable {i j : Nat} {m₁ m₂ m₃ : Machine (σ × Transcript)}

/-- Nothing is asked of the system. -/
theorem own (record : m₂.system.2 = m₁.system.2) (clock : m₂.cpu.timestamp = m₁.cpu.timestamp + i) :
    Spends i m₁ m₂ :=
  ⟨[], by rw [record, List.append_nil], .nil, clock⟩

theorem refl (m : Machine (σ × Transcript)) : Spends 0 m m := own rfl rfl

theorem trans (a : Spends i m₁ m₂) (b : Spends j m₂ m₃) : Spends (i + j) m₁ m₃ := by
  obtain ⟨s, records, first, clock⟩ := a
  obtain ⟨t, recordt, second, clock'⟩ := b
  refine ⟨s ++ t, ?_, first.append second, ?_⟩
  · rw [recordt, records, List.append_assoc]
  · rw [clock', clock, Transcript.waits_append]
    omega

theorem next (a : Spends 0 m₁ m₂) (b : Spends j m₂ m₃) : Spends j m₁ m₃ := by
  have h := a.trans b
  rwa [Nat.zero_add] at h

/-- What changes neither the record nor the clock can come before. -/
theorem before (record : m₂.system.2 = m₁.system.2) (clock : m₂.cpu.timestamp = m₁.cpu.timestamp)
    (b : Spends j m₂ m₃) : Spends j m₁ m₃ :=
  (own (i := 0) record clock).next b

/-- And after. -/
theorem after (a : Spends i m₁ m₂) (record : m₃.system.2 = m₂.system.2)
    (clock : m₃.cpu.timestamp = m₂.cpu.timestamp) : Spends i m₁ m₃ :=
  a.trans (own (i := 0) record clock)

theorem setFetchKind (a : Spends i m₁ m₂) (k : Access) : Spends i m₁ (m₂.setFetchKind k) := a.after rfl rfl

theorem idle (a : Spends i m₁ m₂) (n : Nat) : Spends (i + n) m₁ (m₂.idle n) := a.trans (own rfl rfl)

theorem idleNonsequential (a : Spends 0 m₁ m₂) : Spends 1 m₁ (m₂.mapCpu (·.idleNonsequential)) :=
  a.next (own rfl rfl)

theorem idleMultiplier (a : Spends i m₁ m₂) (v : Word) (signed : Bool) :
    Spends (i + multiplierCycles v signed) m₁ (m₂.idleMultiplier v signed) :=
  a.trans (own rfl rfl)

end Machine.Spends

/-- From one machine to another, the pipeline was refilled if anything happened. -/
def Machine.Refills (m m' : Machine (σ × Transcript)) : Prop :=
  ∃ t : Transcript, m'.system.2 = m.system.2 ++ t ∧ Orderly t ∧ (∀ r ∈ t, r.isAccess = false) ∧
    m'.cpu.timestamp = m.cpu.timestamp + t.waits

namespace Machine.Refills

theorem refl (m : Machine (σ × Transcript)) : Refills m m :=
  ⟨[], (List.append_nil _).symm, .nil, fun _ none => absurd none List.not_mem_nil, rfl⟩

theorem spends {m m' : Machine (σ × Transcript)} (h : Refills m m') : m.Spends 0 m' := by
  obtain ⟨t, record, orderly, -, clock⟩ := h
  exact ⟨t, record, orderly, clock⟩

end Machine.Refills

abbrev Bus.SparesClock (bus : Bus σ) : Prop := bus.Keeps fun m m' => m'.cpu.timestamp = m.cpu.timestamp

namespace Bus.SparesClock

variable {bus : Bus σ} (h : bus.SparesClock) (m : Machine (σ × Transcript))
include h

theorem read {k : Access} (code : k.code = false) (write : k.write = false) (w : Width) (a : Address) :
    m.Spends 0 (bus.recorded.read w a k m).2 := by
  have waited := h.waitTime w a k (m.seen Prod.fst)
  refine ⟨_, List.append_assoc .., .read _ _ code write .nil, ?_⟩
  exact (h.get w a _).trans (congrArg (· + (bus.waitTime w a k (m.seen Prod.fst)).1) waited)

theorem write {k : Access} (code : k.code = false) (w : Width) (a : Address) (v : Word) :
    m.Spends 0 (bus.recorded.write w a v k m) := by
  have waited := h.waitTime w a k.asWrite (m.seen Prod.fst)
  refine ⟨_, List.append_assoc .., .write _ _ (k := k.asWrite) code rfl .nil, ?_⟩
  exact (h.set w a _ _).trans (congrArg (· + (bus.waitTime w a k.asWrite (m.seen Prod.fst)).1) waited)

theorem readSignedHalf {k : Access} (code : k.code = false) (write : k.write = false) (a : Address) :
    m.Spends 0 (bus.recorded.readSignedHalf a k m).2 := h.read m code write .half a

theorem readRotated {k : Access} (code : k.code = false) (write : k.write = false) (a : Address) :
    m.Spends 0 (bus.recorded.readRotated a k m).2 := h.read m code write .word _

/-- A refill waits for two instructions. -/
theorem jump_refills (a : Address) : m.Refills (bus.recorded.jump a m) := by
  let size := m.cpu.regs.instructionSize
  let w := Bus.fetchWidth m
  let target := Word.alignDown a size
  have first := h.waitTime w target Access.nonsequential.asCode (m.seen Prod.fst)
  have second := h.waitTime w (target + size) Access.sequel.asCode
    (bus.waitTime w target Access.nonsequential.asCode (m.seen Prod.fst)).2
  refine ⟨_, List.append_assoc .., .refill _ rfl rfl (.refill _ rfl rfl .nil), by simp [Request.isAccess], ?_⟩
  exact congrArg (· + (_ + _)) (second.trans first)

theorem jumpWith_refills (f : Registers → Registers) (a : Address) :
    m.Refills (bus.recorded.jump a (m.mapRegs f)) :=
  h.jump_refills (m.mapRegs f) a

theorem jump (a : Address) : m.Spends 0 (bus.recorded.jump a m) := (h.jump_refills m a).spends

theorem jumpWith (f : Registers → Registers) (a : Address) : m.Spends 0 (bus.recorded.jump a (m.mapRegs f)) :=
  (h.jumpWith_refills m f a).spends

theorem jumpExchange (target : Word) : m.Spends 0 (bus.recorded.jumpExchange target m) :=
  h.jumpWith m _ target

theorem setReg (r : Register) (v : Word) : m.Spends 0 (bus.recorded.setReg r v m) := by
  unfold Bus.setReg
  split_ifs
  · exact h.jump m v
  · exact .own rfl rfl

theorem setRegLoaded (r : Register) (v : Word) : m.Spends 0 (bus.recorded.setRegLoaded r v m) := by
  unfold Bus.setRegLoaded
  split_ifs
  · exact h.jumpExchange m v
  · exact h.jump m v
  · exact .own rfl rfl

theorem enter (kind : Exception) (a : Address) : m.Spends 0 (bus.recorded.enter kind a m) :=
  h.jumpWith m (·.entering kind a) _

/-- The second part of a step refills the pipeline if it enters the interrupt handler. -/
theorem settle (m : Machine (σ × Transcript)) : m.Refills (Exec.settle bus.recorded m) := by
  unfold Exec.settle Bus.checkInterrupt
  split_ifs
  · exact .refl m
  · exact h.jumpWith_refills m (·.entering .irq _) _
  · exact .refl m

theorem transferNone (base : Register) (store up before : Bool) :
    m.Spends 0 (bus.recorded.transferNone base store up before m) := by
  have moved := h.setReg m base (Word.offset (m.reg base) 0x40 up)
  unfold Bus.transferNone
  simp only
  split_ifs
  · exact moved
  · exact moved.trans (h.write _ rfl .word _ _)
  · exact (moved.trans (h.read _ rfl rfl .word _)).trans (h.jump _ _)

theorem controlRead_spends (r : ControlRegister) : m.Spends 0 (bus.recorded.controlRead r m).2 :=
  ⟨_, rfl, .controlRead r .nil, h.controlRead r (m.seen Prod.fst)⟩

theorem controlWrite_spends (r : ControlRegister) (v : Word) :
    m.Spends 0 (bus.recorded.controlWrite r v m).2 :=
  ⟨_, rfl, .controlWrite r v .nil, h.controlWrite r v (m.seen Prod.fst)⟩

end Bus.SparesClock

def Exec.Spends (x : Exec (σ × Transcript) α) (m : Machine (σ × Transcript)) (n : Nat) : Prop :=
  ∀ a m', x m = .ok a m' → m.Spends n m'

namespace Exec

variable {i j : Nat} {m : Machine (σ × Transcript)}

theorem spends_modify {f : Machine (σ × Transcript) → Machine (σ × Transcript)} (h : m.Spends i (f m)) :
    Spends (modify f) m i := by
  intro a m' run
  cases run
  exact h

theorem spends_pure (a : α) : Spends (pure a) m 0 := by
  intro a m' run
  cases run
  exact .refl m

theorem spends_bind {x : Exec (σ × Transcript) α} {f : α → Exec (σ × Transcript) β} (hx : Spends x m i)
    (hf : ∀ a m', x m = .ok a m' → Spends (f a) m' j) : Spends (x >>= f) m (i + j) := by
  intro b m'' run
  change EStateM.bind x f m = _ at run
  unfold EStateM.bind at run
  cases hm : x m with
  | ok a m' =>
    rw [hm] at run
    exact (hx a m' hm).trans (hf a m' hm b m'' run)
  | error e m' =>
    rw [hm] at run
    cases run

theorem spends_next {x : Exec (σ × Transcript) α} {f : α → Exec (σ × Transcript) β} (hx : Spends x m 0)
    (hf : ∀ a m', x m = .ok a m' → Spends (f a) m' j) : Spends (x >>= f) m j := by
  have h := spends_bind hx hf
  rwa [Nat.zero_add] at h

theorem spends_modifyGet {f : Machine (σ × Transcript) → α × Machine (σ × Transcript)}
    (h : m.Spends i (f m).2) : Spends (modifyGet f) m i := by
  intro a m' run
  cases run
  exact h

/-- A computation that first looks at the machine. -/
theorem spends_get {f : Machine (σ × Transcript) → Exec (σ × Transcript) β} (h : Spends (f m) m i) :
    Spends (get >>= f) m i := h

/-- A part that a condition can skip, and what comes after it. -/
theorem spends_when {c : Prop} [Decidable c] {x : Exec (σ × Transcript) Unit}
    {f : Unit → Exec (σ × Transcript) β} (hx : Spends x m 0) (hf : ∀ u m', Spends (f u) m' j) :
    Spends (if c then x >>= f else f ()) m j := by
  split_ifs
  · exact spends_next hx fun u m' _ => hf u m'
  · exact hf () m

theorem spends_setCpsr (v : Word) : Spends (Exec.setCpsr v) m 0 := by
  intro a m' run
  rw [setCpsr_eq] at run
  cases hf : m.cpu.regs.setCpsr v with
  | ok f =>
    rw [hf] at run
    cases run
    exact .own rfl rfl
  | error e =>
    rw [hf] at run
    cases run

theorem spends_error {x : Exec (σ × Transcript) α} {e : Fault} {m' : Machine (σ × Transcript)}
    (h : x m = .error e m') : Spends x m i := by
  intro a m'' run
  rw [h] at run
  cases run

end Exec

namespace Bus.SparesClock

variable {bus : Bus σ} (h : bus.SparesClock) (m : Machine (σ × Transcript))
include h

/-- Offering a software interrupt to the system takes no time. -/
theorem softwareCall_spends (number : BitVec 8) : Exec.Spends (bus.recorded.softwareCall number) m 0 := by
  intro handled m' run
  have clock := h.softwareCall number (m.seen Prod.fst)
  unfold Exec.final at clock
  unfold Bus.recorded at run
  simp only at run
  cases hs : bus.softwareCall number (m.seen Prod.fst) with
  | ok b now =>
    rw [hs] at run clock
    cases run
    exact ⟨_, rfl, .softwareCall number .nil, clock⟩
  | error e now =>
    rw [hs] at run
    cases run

/-- Where the system leaves a software interrupt to the processor, the handler is entered. -/
theorem softwareInterrupt_spends (number : BitVec 8)
    (unhandled : ∀ m₁, bus.softwareCall number (m.seen Prod.fst) ≠ .ok true m₁) :
    Exec.Spends (bus.recorded.softwareInterrupt number) m 0 := by
  intro _ m' run
  have shown := bus.recorded_shows.softwareCall number m
  rw [Exec.softwareInterrupt_eq] at run
  cases hs : bus.recorded.softwareCall number m with
  | ok b m₁ =>
    rw [hs] at run shown
    cases b with
    | true => exact absurd shown (unhandled _)
    | false =>
      cases run
      exact (h.softwareCall_spends m number _ _ hs).next (h.enter m₁ _ _)
  | error e m₁ =>
    rw [hs] at run
    cases run

end Bus.SparesClock

end Lockstep
