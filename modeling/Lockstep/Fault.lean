import Lockstep.Text.Hex
import Lockstep.Word

/-!
What makes a processor stop for good.
-/

namespace Lockstep

inductive Fault where
  /-- The processor does not implement the instruction at this address. -/
  | unsupported (instruction : Word) (address : Address) (thumb : Bool)
  /-- The program tried to enter a mode that does not exist. -/
  | invalidMode (bits : Word)
  /-- The program broke a rule that the system relies on. -/
  | invalidState (reason : String)
deriving DecidableEq, Repr

def Fault.message : Fault → String
  | .unsupported inst addr thumb =>
    "unsupported instruction 0x" ++ Text.hex inst.toNat ++ " at " ++ Text.address addr.toNat ++
      " (thumb: " ++ toString thumb ++ ")"
  | .invalidMode bits => "invalid CPU mode bits 0b" ++ Text.binaryPadded 5 bits.toNat
  | .invalidState reason => "invalid CPU state: " ++ reason

end Lockstep
