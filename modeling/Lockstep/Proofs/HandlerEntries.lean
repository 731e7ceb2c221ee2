import Lockstep.Proofs.StepMoves

/-!
The handlers that a step enters, written down where it enters them. What a step does is said once for every monad in
which a processor can run and enter handlers. In the monad of the machine alone this is the step; in one that also
keeps a list of the entries, it is the step together with this list.
-/

namespace Lockstep

/-- A monad to make steps in: how computations of a processor run in it, and how handlers are entered. -/
structure Setting (σ : Type) (M : Type → Type) where
  run {α : Type} : Exec σ α → M α
  enter (kind : Exception) (returnTo : Machine σ → Address) : M Unit

namespace Setting

section
variable {σ : Type} {M : Type → Type} [Monad M] (s : Setting σ M) (bus : Bus σ)

def softwareInterrupt (number : BitVec 8) : M Unit := do
  if ← s.run (bus.softwareCall number) then
    s.run (modify (·.note .trace ("SWI 0x" ++ Text.hexPadded 2 number.toNat ++ " handled by system")))
  else s.enter .softwareInterrupt fun m => m.cpu.currentAddress + m.cpu.regs.instructionSize

def execute (thumb : Bool) (inst : Word) : M Unit := do
  match bus.callIn (← s.run get).cpu.regs thumb inst with
  | some n => softwareInterrupt s bus n
  | none => s.run (Exec.execute bus thumb inst)

def instruction : M Unit := do
  let thumb := (← s.run get).cpu.isThumb
  let inst ← s.run (modifyGet bus.fetch)
  s.run (modify (bus.trace thumb inst))
  execute s bus thumb inst

def work : M Unit := do
  if (← s.run get).cpu.halted then s.run (modify (Exec.doze bus)) else instruction s bus

def checkInterrupt : M Unit := do
  if (← s.run get).cpu.serviceable then s.enter .irq (·.cpu.nextAddress + 4)

def settle : M Unit := do
  unless (← s.run get).cpu.halted do checkInterrupt s

def step : M Unit := do
  work s bus
  settle s

end

variable {σ α β : Type} (bus : Bus σ)

def plain : Setting σ (Exec σ) where
  run x := x
  enter kind returnTo := modify fun m => bus.enter kind (returnTo m) m

def noted (l : List Exception) :
    EStateM.Result Fault (Machine σ) α → EStateM.Result Fault (Machine σ × List Exception) α
  | .ok a m => .ok a (m, l)
  | .error e m => .error e (m, l)

/-- The machine and the list of the handlers that were entered so far. -/
def noting : Setting σ (EStateM Fault (Machine σ × List Exception)) where
  run x := fun (m, l) => noted l (x m)
  enter kind returnTo := modify fun (m, l) => (bus.enter kind (returnTo m) m, l ++ [kind])

variable (m : Machine σ) (l : List Exception)

theorem noting_bind (x : Exec σ α) (f : α → EStateM Fault (Machine σ × List Exception) β) :
    ((noting bus).run x >>= f) (m, l) =
      match x m with
      | .ok a m₁ => f a (m₁, l)
      | .error e m₁ => .error e (m₁, l) := by
  have ran : (noting bus).run x (m, l) = noted l (x m) := rfl
  show EStateM.bind _ f _ = _
  unfold EStateM.bind
  rw [ran]
  cases x m <;> rfl

theorem noting_softwareInterrupt (n : BitVec 8) :
    softwareInterrupt (noting bus) bus n (m, l) =
      match bus.softwareCall n m with
      | .ok true _ | .error _ _ => noted l (bus.softwareInterrupt n m)
      | .ok false _ => noted (l ++ [.softwareInterrupt]) (bus.softwareInterrupt n m) := by
  unfold softwareInterrupt
  rw [noting_bind, Exec.softwareInterrupt_eq]
  rcases bus.softwareCall n m with ⟨_ | _, m₁⟩ | ⟨e, m₁⟩ <;> rfl

/-- The first part of a step notes the handler that it calls. -/
theorem noting_work : work (noting bus) bus (m, l) = noted (l ++ Exec.called bus m) (Exec.work bus m) := by
  unfold work
  rw [noting_bind, Exec.work_eq, Exec.called]
  simp only [Exec.get_eq]
  split_ifs with halted
  · rw [List.append_nil]
    rfl
  · show execute (noting bus) bus m.cpu.isThumb (Exec.fetched bus m).1 ((Exec.fetched bus m).2, l) = _
    unfold execute
    rw [noting_bind, Exec.instruction_eq]
    simp only [Exec.get_eq]
    unfold Exec.nextCall
    cases asked : bus.callIn (Exec.fetched bus m).2.cpu.regs m.cpu.isThumb (Exec.fetched bus m).1 with
    | none =>
      simp only [List.append_nil]
      rfl
    | some n =>
      rw [Exec.execute_call bus _ asked]
      refine (noting_softwareInterrupt bus _ l n).trans ?_
      rcases answer : bus.softwareCall n (Exec.fetched bus m).2 with ⟨_ | _, m₁⟩ | ⟨e, m₁⟩ <;>
        simp only [answer, List.append_nil]

end Setting

namespace Exec

variable {σ : Type} (bus : Bus σ) (m : Machine σ)

def taken (m : Machine σ) : List Exception := if !m.cpu.halted && m.cpu.serviceable then [.irq] else []

theorem noting_settle (l : List Exception) :
    (Setting.noting bus).settle (m, l) = .ok () (settle bus m, l ++ taken m) := by
  unfold Setting.settle
  rw [Setting.noting_bind]
  unfold settle Bus.checkInterrupt taken
  simp only [get_eq]
  cases m.cpu.halted with
  | true =>
    show EStateM.Result.ok () (m, l) = .ok () (m, l ++ [])
    rw [List.append_nil]
  | false =>
    show (Setting.noting bus).checkInterrupt (m, l) = _
    unfold Setting.checkInterrupt
    rw [Setting.noting_bind]
    simp only [get_eq]
    cases m.cpu.serviceable with
    | true => rfl
    | false =>
      show EStateM.Result.ok () (m, l) = .ok () (m, l ++ [])
      rw [List.append_nil]

/-- The handlers that a step enters, in their order. -/
def entries : List Exception :=
  match (Setting.noting bus).step bus (m, []) with
  | .ok _ (_, l) | .error _ (_, l) => l

theorem noting_step :
    (Setting.noting bus).step bus (m, []) =
      match work bus m with
      | .ok _ m₁ => .ok () (settle bus m₁, called bus m ++ taken m₁)
      | .error e m₁ => .error e (m₁, called bus m) := by
  unfold Setting.step
  show EStateM.bind _ _ _ = _
  unfold EStateM.bind
  rw [Setting.noting_work, List.nil_append]
  cases work bus m with
  | ok _ m₁ => exact noting_settle bus m₁ _
  | error e m₁ => rfl

/-- The handlers of both parts, if the first part does not fail. -/
theorem entries_eq :
    entries bus m =
      match work bus m with
      | .ok _ m₁ => called bus m ++ taken m₁
      | .error _ _ => called bus m := by
  unfold entries
  rw [noting_step]
  cases work bus m <;> rfl

end Exec

end Lockstep
