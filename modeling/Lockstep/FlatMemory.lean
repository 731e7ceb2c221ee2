import Lockstep.ByteBuffer
import Lockstep.Firmware
import Lockstep.Step

/-!
A processor on nothing but memory. The memory repeats over all addresses, accesses are rounded down
to their width, and everything that happens on the bus is recorded in order.
-/

namespace Lockstep

inductive Transaction where
  | read (w : Width) (a : Address) (v : Word)
  | write (w : Width) (a : Address) (v : Word)
  | call (number : BitVec 8)
  | controlRead (reg : ControlRegister)
  | controlWrite (reg : ControlRegister) (v : Word)
deriving DecidableEq, Repr

structure FlatMemory where
  ram : ByteArray
  transcript : Array Transaction := #[]

namespace FlatMemory

def record (t : Transaction) (s : FlatMemory) : FlatMemory :=
  { s with transcript := s.transcript.push t }

def forget (s : FlatMemory) : FlatMemory := { s with transcript := #[] }

def get (s : FlatMemory) (w : Width) (a : Address) : Word :=
  ByteBuffer.readRepeated s.ram (w.align a).toNat w

def set (w : Width) (a : Address) (v : Word) (s : FlatMemory) : FlatMemory :=
  { s with ram := ByteBuffer.writeRepeated s.ram (w.align a).toNat w v }

def bus (architecture : Architecture) (timing : Width → Address → Access → Nat) : Bus FlatMemory where
  architecture := architecture
  get w a m :=
    let v := m.system.get w a
    (v, m.mapSystem (·.record (.read w a v)))
  set w a v m := m.mapSystem fun s => (s.set w a v).record (.write w a v)
  waitTime w a kind m := (timing w a kind, m)

/-- The software interrupts that the system carries out itself. -/
inductive Calls where
  /-- Those with the given numbers, which then do nothing. -/
  | listed (numbers : List Nat)
  /-- Those that are known as firmware calls. -/
  | firmware

/-- The bus with software interrupts and a coprocessor, which are recorded as well. The coprocessor shows
fixed values and takes any write. -/
def equippedBus (architecture : Architecture) (timing : Width → Address → Access → Nat) (calls : Calls)
    (coprocessor : Option (ControlRegister → Word)) (tracing : Bool) (quantum : Nat) : Bus FlatMemory :=
  let plain := bus architecture timing
  { plain with
    softwareCall := fun number => do
      modify (·.mapSystem (·.record (.call number)))
      match calls with
      | .listed numbers => return numbers.contains number.toNat
      | .firmware => Firmware.call plain number
    controlRead := fun reg m =>
      (coprocessor.map (· reg), m.mapSystem (·.record (.controlRead reg)))
    controlWrite := fun reg v m =>
      (coprocessor.isSome, m.mapSystem (·.record (.controlWrite reg v)))
    tracing := fun _ => tracing
    dozeLength := fun _ => quantum }

end FlatMemory

end Lockstep
