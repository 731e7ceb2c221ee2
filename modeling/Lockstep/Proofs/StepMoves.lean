import Lockstep.Proofs.ArmMoves
import Lockstep.Proofs.ThumbMoves
import Lockstep.Step

/-!
What a step can do. Its first part, an instruction or a nap, is a run of moves with one change of a status
register at most, or a software interrupt; its second part enters the interrupt handler or does nothing.
-/

namespace Lockstep

variable {σ : Type} (bus : Bus σ) (m : Machine σ)

theorem trace_moves (thumb : Bool) (inst : Word) : Moves bus m (bus.trace thumb inst m) := by
  unfold Bus.trace
  split_ifs
  · exact (Move.note m _ _).moves
  · exact (Move.note m _ _).moves
  · exact .refl

theorem trace_cpu (thumb : Bool) (inst : Word) : (bus.trace thumb inst m).cpu = m.cpu := by
  unfold Bus.trace
  split_ifs <;> rfl

theorem trace_system (thumb : Bool) (inst : Word) : (bus.trace thumb inst m).system = m.system := by
  unfold Bus.trace
  split_ifs <;> rfl

def Bus.callIn (f : Registers) (thumb : Bool) (inst : Word) : Option (BitVec 8) :=
  if thumb then
    match Thumb.decode bus.isV5 (inst.setWidth 16) with
    | .softwareInterrupt n => some n
    | _ => none
  else if Arm.executes bus.isV5 f inst then
    match Arm.decode bus.isV5 inst with
    | .softwareInterrupt c => some (c.extractLsb' 16 8)
    | _ => none
  else none

theorem Arm.execute_eq (w : Word) :
    Arm.execute bus w m =
      if Arm.executes bus.isV5 m.cpu.regs w then Arm.perform bus w (Arm.decode bus.isV5 w) m
      else .ok () m := by
  unfold Arm.execute
  show EStateM.bind get _ m = _
  simp only [EStateM.bind, Exec.get_eq]
  split_ifs <;> rfl

namespace Exec

def execute (thumb : Bool) (inst : Word) : Exec σ Unit :=
  if thumb then Thumb.execute bus (inst.setWidth 16) else Arm.execute bus inst

theorem execute_call {thumb : Bool} {inst : Word} {n : BitVec 8}
    (h : bus.callIn m.cpu.regs thumb inst = some n) :
    execute bus thumb inst m = bus.softwareInterrupt n m := by
  unfold Bus.callIn at h
  unfold execute
  cases thumb with
  | true =>
    simp only [if_true] at h ⊢
    split at h
    · next k hd =>
      cases h
      rw [Thumb.execute, hd]
      rfl
    · cases h
  | false =>
    simp only [Bool.false_eq_true, if_false] at h ⊢
    rw [Arm.execute_eq]
    split_ifs at h ⊢
    split at h
    · next c hd =>
      cases h
      rw [hd]
      rfl
    · cases h

theorem execute_acts {thumb : Bool} {inst : Word} (h : bus.callIn m.cpu.regs thumb inst = none) :
    Acts bus m ((execute bus thumb inst).final m) := by
  unfold Bus.callIn at h
  unfold execute
  cases thumb with
  | true =>
    simp only [if_true] at h ⊢
    refine (Thumb.perform_moving bus _ (fun n hn => ?_) m).acts
    rw [hn] at h
    cases h
  | false =>
    simp only [Bool.false_eq_true, if_false] at h ⊢
    unfold final
    rw [Arm.execute_eq]
    split_ifs at h ⊢
    · refine Arm.perform_acting bus inst (fun c hc => ?_) m
      rw [hc] at h
      cases h
    · exact Moves.acts .refl

/-- The word that comes next, and the machine about to execute it. -/
def fetched : Word × Machine σ :=
  let (inst, m') := bus.fetch m
  (inst, bus.trace m.cpu.isThumb inst m')

theorem fetched_moves : Moves bus m (fetched bus m).2 :=
  (fetch_moves bus m).trans (trace_moves bus _ _ _)

def nextCall : Option (BitVec 8) := bus.callIn (fetched bus m).2.cpu.regs m.cpu.isThumb (fetched bus m).1

theorem instruction_eq :
    instruction bus m = execute bus m.cpu.isThumb (fetched bus m).1 (fetched bus m).2 := rfl

/-- The first part of a step. -/
def work : Exec σ Unit := do
  if (← get).cpu.halted then modify (doze bus) else instruction bus

theorem work_eq : work bus m = if m.cpu.halted then .ok () (doze bus m) else instruction bus m := by
  unfold work
  show EStateM.bind get _ m = _
  simp only [EStateM.bind, get_eq]
  split_ifs <;> rfl

/-- The second part of a step. -/
def settle : Machine σ := if m.cpu.halted then m else bus.checkInterrupt m

theorem settle_of_unserviceable (h : m.cpu.serviceable = false) : settle bus m = m := by
  unfold settle Bus.checkInterrupt
  rw [h, if_neg Bool.false_ne_true, ite_self]

theorem settle_eq :
    (do unless (← get).cpu.halted do modify bus.checkInterrupt : Exec σ Unit) m = .ok () (settle bus m) := by
  show EStateM.bind get _ m = _
  simp only [EStateM.bind, get_eq]
  unfold settle
  split_ifs <;> rfl

theorem step_eq :
    step bus m =
      match work bus m with
      | .ok _ m₁ => .ok () (settle bus m₁)
      | .error e m₁ => .error e m₁ := by
  have settled : ∀ x : Exec σ Unit,
      (x >>= fun _ => do unless (← get).cpu.halted do modify bus.checkInterrupt) m =
        match x m with
        | .ok _ m₁ => .ok () (settle bus m₁)
        | .error e m₁ => .error e m₁ := by
    intro x
    show EStateM.bind x _ m = _
    unfold EStateM.bind
    cases x m with
    | ok _ m₁ => exact settle_eq bus m₁
    | error e m₁ => rfl
  unfold step work
  simp only [bind, EStateM.bind, get_eq]
  split_ifs
  · exact settled (modify (doze bus))
  · exact settled (instruction bus)

theorem step_ok {m' : Machine σ} (h : step bus m = .ok () m') :
    ∃ m₁, work bus m = .ok () m₁ ∧ m' = settle bus m₁ := by
  rw [step_eq] at h
  split at h
  · next m₁ hw => cases h; exact ⟨m₁, hw, rfl⟩
  · cases h

theorem doze_moves : Moves bus m (doze bus m) := by
  have slept : Moves bus m (m.idle (bus.dozeLength m.system)) := (Move.idle m _).moves
  unfold doze
  simp only
  split_ifs
  · exact slept.tail (.wake _)
  · exact slept

theorem softwareInterrupt_eq (n : BitVec 8) :
    bus.softwareInterrupt n m =
      match bus.softwareCall n m with
      | .ok true m₁ =>
        .ok () (m₁.note .trace ("SWI 0x" ++ Text.hexPadded 2 n.toNat ++ " handled by system"))
      | .ok false m₁ =>
        .ok () (bus.enter .softwareInterrupt (m₁.cpu.currentAddress + m₁.cpu.regs.instructionSize) m₁)
      | .error e m₁ => .error e m₁ := by
  unfold Bus.softwareInterrupt
  show EStateM.bind _ _ m = _
  unfold EStateM.bind
  cases bus.softwareCall n m with
  | ok b m₁ => cases b <;> rfl
  | error e m₁ => rfl

/-- A software interrupt that the system declines. -/
def Declines (n : BitVec 8) (m₁ : Machine σ) : Prop :=
  m.cpu.halted = false ∧ nextCall bus m = some n ∧ bus.softwareCall n (fetched bus m).2 = .ok false m₁

def called : List Exception :=
  if m.cpu.halted then []
  else
    match nextCall bus m with
    | none => []
    | some n =>
      match bus.softwareCall n (fetched bus m).2 with
      | .ok false _ => [.softwareInterrupt]
      | _ => []

variable {bus m} in
theorem Declines.called {n : BitVec 8} {m₁ : Machine σ} (h : Declines bus m n m₁) :
    called bus m = [.softwareInterrupt] := by
  unfold Exec.called
  simp only [h.1, h.2.1, h.2.2, Bool.false_eq_true, if_false]

variable {bus m} in
theorem Declines.moves {n : BitVec 8} {m₁ : Machine σ} (h : Declines bus m n m₁) : Moves bus m m₁ := by
  have offered := (fetched_moves bus m).tail (.softwareCall _ n)
  unfold final at offered
  rwa [h.2.2] at offered

/-- The first part of a step acts, or moves and enters the handler of software interrupts. -/
theorem work_cases :
    called bus m = [] ∧ Acts bus m ((work bus).final m) ∨
    ∃ n m₁, Declines bus m n m₁ ∧ work bus m =
      .ok () (bus.enter .softwareInterrupt (m₁.cpu.currentAddress + m₁.cpu.regs.instructionSize) m₁) := by
  unfold final called
  rw [work_eq]
  cases hh : m.cpu.halted with
  | true => exact .inl ⟨rfl, (doze_moves bus m).acts⟩
  | false =>
    simp only [Bool.false_eq_true, if_false, instruction_eq]
    cases hc : nextCall bus m with
    | none => exact .inl ⟨rfl, (fetched_moves bus m).trans_acts (execute_acts bus _ hc)⟩
    | some n =>
      rw [execute_call bus _ hc, softwareInterrupt_eq]
      have offered := (fetched_moves bus m).tail (.softwareCall _ n)
      unfold final at offered
      cases hs : bus.softwareCall n (fetched bus m).2 with
      | error e m₁ =>
        rw [hs] at offered
        exact .inl ⟨by simp only [hs], Moves.acts offered⟩
      | ok b m₁ =>
        rw [hs] at offered
        cases b with
        | true => exact .inl ⟨by simp only [hs], Moves.acts (offered.tail (.note _ _ _))⟩
        | false => exact .inr ⟨n, m₁, ⟨hh, hc, hs⟩, rfl⟩

/-- Steps in a row, whether or not they fail. -/
abbrev Run : Machine σ → Machine σ → Prop := Relation.ReflTransGen fun m m' => m' = (step bus).final m

end Exec

end Lockstep
