import Lockstep.Word

/-!
Register numbers as they stand in instructions, and lists of them.
-/

namespace Lockstep

abbrev Register := Fin 16

/-- One of r0 to r7, which short instructions are limited to. -/
abbrev LowRegister := Fin 8

namespace Register

def sp : Register := ⟨13, by decide⟩
def lr : Register := ⟨14, by decide⟩
def pc : Register := ⟨15, by decide⟩

/-- The register after this one; r0 comes after r15. -/
def next (r : Register) : Register := ⟨(r.val + 1) % 16, Nat.mod_lt _ (by decide)⟩

def nameOf (n : Nat) : String :=
  if n = 15 then "pc" else if n = 14 then "lr" else if n = 13 then "sp" else "r" ++ toString n

def name (r : Register) : String := nameOf r.val

def ofList (list : BitVec 16) : List Register := (List.finRange 16).filter (list.getLsbD ·.val)

end Register

namespace LowRegister

def wide (r : LowRegister) : Register := ⟨r.val, Nat.lt_of_lt_of_le r.isLt (by decide)⟩

/-- Low registers are always written with their number. -/
def nameOf (n : Nat) : String := "r" ++ toString n

def name (r : LowRegister) : String := nameOf r.val

def ofList (list : BitVec 8) : List LowRegister := (List.finRange 8).filter (list.getLsbD ·.val)

end LowRegister

end Lockstep
