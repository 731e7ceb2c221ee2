import Lockstep.Arm.Assembly
import Lockstep.Arm.Execution
import Lockstep.Thumb.Assembly
import Lockstep.Thumb.Execution

/-!
One step of a processor: an instruction, or some waiting while it is halted. Afterwards an interrupt is
taken if there is one to take. A halted processor wakes up for any enabled interrupt that is requested,
even if it will not be taken.
-/

namespace Lockstep

/-- Put the instruction that is about to execute into the journal, if the system wants that. -/
def Bus.trace {σ : Type} (bus : Bus σ) (thumb : Bool) (inst : Word) (m : Machine σ) : Machine σ :=
  if bus.tracing m.system then
    let text :=
      if thumb then Text.hexPadded 4 inst.toNat ++ " " ++ Thumb.disassemble (inst.setWidth 16)
      else Text.hexPadded 8 inst.toNat ++ " " ++ Arm.disassemble inst
    m.note .trace
      (bus.architecture.label ++ " " ++ Text.address m.cpu.currentAddress.toNat ++ " " ++ text)
  else m

namespace Exec

variable {σ : Type} (bus : Bus σ)

def instruction : Exec σ Unit := do
  let thumb := (← get).cpu.isThumb
  let inst ← modifyGet bus.fetch
  modify (bus.trace thumb inst)
  if thumb then Thumb.execute bus (inst.setWidth 16) else Arm.execute bus inst

def doze (m : Machine σ) : Machine σ :=
  let m := m.idle (bus.dozeLength m.system)
  if m.cpu.interrupts.hasPending then m.mapCpu ({ · with halted := false }) else m

def step : Exec σ Unit := do
  if (← get).cpu.halted then modify (doze bus) else instruction bus
  unless (← get).cpu.halted do modify bus.checkInterrupt

/-- Step while a condition holds, but at most `fuel` times; answers whether the condition came to an
end. -/
def stepWhile (p : Machine σ → Bool) : Nat → Exec σ Bool
  | 0 => return !p (← get)
  | fuel + 1 => do
    if p (← get) then
      step bus
      stepWhile p fuel
    else return true

/-- Step until the processor's clock reaches `target` or the processor is halted after a step. Where every
step takes time, the cycles that are left are enough fuel. -/
def runUntil (target fuel : Nat) : Exec σ Bool := do
  if (← get).cpu.timestamp < target then
    step bus
    stepWhile bus (fun m => decide (m.cpu.timestamp < target) && !m.cpu.halted) fuel
  else return true

end Exec

end Lockstep
