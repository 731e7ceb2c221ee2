import Lockstep.Arithmetic
import Lockstep.Registers
import Lockstep.Shifter

/-!
Results that set the condition flags. Each operation is told whether to touch the flags at all, as an
instruction says in its encoding.
-/

namespace Lockstep.Registers

variable (f : Registers) (set : Bool)

def setNZ (v : Word) : Registers :=
  if set then (f.setFlag .negative v.msb).setFlag .zero (v == 0) else f

def setNZC (v : Word) (carry : Bool) : Registers :=
  if set then (f.setNZ true v).setFlag .carry carry else f

def setNZCV (s : Sum) : Registers :=
  if set then (f.setNZC true s.value s.carry).setFlag .overflow s.overflow else f

def shift (kind : Shift) (v amount : Word) (immediate : Bool) : Word × Registers :=
  let carry := f.flag .carry
  let s := if immediate then kind.immediate v amount.toNat carry else kind.register v amount carry
  (s.value, f.setNZC set s.value s.carry)

end Lockstep.Registers
