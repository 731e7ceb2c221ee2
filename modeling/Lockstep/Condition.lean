import Lockstep.Registers

/-!
Conditions of execution. Each of the sixteen condition codes has a table with one bit for each setting of
the four condition flags; an instruction executes if the bit of the current setting is one.
-/

namespace Lockstep

abbrev Condition := BitVec 4

namespace Condition

/-- The settings of the flags that a condition holds for. The position of a bit spells the flags: negative
is worth 8, zero 4, carry 2 and overflow 1. -/
def table : Vector (BitVec 16) 16 := #v[
  0xF0F0, 0x0F0F, 0xCCCC, 0x3333, 0xFF00, 0x00FF, 0xAAAA, 0x5555,
  0x0C0C, 0xF3F3, 0xAA55, 0x55AA, 0x0A05, 0xF5FA, 0xFFFF, 0x0000]

def holds (c : Condition) (cpsr : Word) : Bool :=
  (table.get c.toFin).getLsbD (cpsr >>> 28).toNat

/-- The suffix of a mnemonic. The condition that always holds has none. -/
def suffix (c : Condition) : String :=
  let names : Vector String 16 := #v["eq", "ne", "cs", "cc", "mi", "pl", "vs", "vc", "hi", "ls", "ge", "lt",
    "gt", "le", "", "nv"]
  names.get c.toFin

def always : Condition := 14

/-- The code that stands for no condition. -/
def never : Condition := 15

end Condition

def Registers.satisfies (f : Registers) (c : Condition) : Bool := c.holds f.cpsr

theorem Registers.satisfies_always (f : Registers) : f.satisfies .always = true := by
  have every : ∀ k < 16, (0xFFFF#16).getLsbD k = true := by decide
  refine every _ ?_
  rw [BitVec.toNat_ushiftRight, Nat.shiftRight_eq_div_pow]
  have := f.cpsr.isLt
  omega

end Lockstep
