import Lockstep.Mode

/-!
Exceptions: where their handlers are entered, and in which mode.
-/

namespace Lockstep

inductive Exception where
  | reset
  | undefined
  | softwareInterrupt
  | prefetchAbort
  | dataAbort
  | addressExceeded
  | irq
  | fiq
deriving DecidableEq, Repr

namespace Exception

def all : List Exception :=
  [.reset, .undefined, .softwareInterrupt, .prefetchAbort, .dataAbort, .addressExceeded, .irq, .fiq]

def vector : Exception → Word
  | .reset => 0x00
  | .undefined => 0x04
  | .softwareInterrupt => 0x08
  | .prefetchAbort => 0x0C
  | .dataAbort => 0x10
  | .addressExceeded => 0x14
  | .irq => 0x18
  | .fiq => 0x1C

def mode : Exception → Mode
  | .reset | .softwareInterrupt | .addressExceeded => .supervisor
  | .undefined => .undefined
  | .prefetchAbort | .dataAbort => .abort
  | .irq => .irq
  | .fiq => .fiq

def masksFiq : Exception → Bool
  | .reset | .fiq => true
  | _ => false

end Exception

end Lockstep
