import Lockstep.Word

/-!
Additions and subtractions with the two flags that they produce. The carry of a subtraction is set when
nothing had to be borrowed.
-/

namespace Lockstep

structure Sum where
  value : Word
  carry : Bool
  overflow : Bool
deriving DecidableEq, Repr

namespace Sum

/-- `a + b + c`; the carry is the unsigned overflow of the whole sum. -/
def addCarry (a b : Word) (c : Bool) : Sum :=
  let total := a.toNat + b.toNat + c.toNat
  let value := BitVec.ofNat 32 total
  { value
    carry := decide (0x100000000 ≤ total)
    overflow := (~~~(a ^^^ b) &&& (a ^^^ value)).msb }

/-- `a - b`, less one more if `c` is clear. -/
def subCarry (a b : Word) (c : Bool) : Sum := addCarry a (~~~b) c

def add (a b : Word) : Sum :=
  let value := a + b
  { value
    carry := value.ult a
    overflow := (~~~(a ^^^ b) &&& (a ^^^ value)).msb }

def sub (a b : Word) : Sum :=
  let value := a - b
  { value
    carry := b.ule a
    overflow := ((a ^^^ b) &&& (a ^^^ value)).msb }

end Sum

end Lockstep
