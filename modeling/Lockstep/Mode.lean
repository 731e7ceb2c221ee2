import Lockstep.Word

/-!
Processor modes, and the register banks that belong to them. User and System mode share a bank.
-/

namespace Lockstep

inductive Bank where
  | user
  | fiq
  | irq
  | supervisor
  | abort
  | undefined
deriving DecidableEq, Repr

namespace Bank

def all : List Bank := [.user, .fiq, .irq, .supervisor, .abort, .undefined]

def index : Bank → Fin 6
  | .user => 0
  | .fiq => 1
  | .irq => 2
  | .supervisor => 3
  | .abort => 4
  | .undefined => 5

theorem index_inj {a b : Bank} : a.index = b.index ↔ a = b := by
  cases a <;> cases b <;> decide

end Bank

inductive Mode where
  | user
  | fiq
  | irq
  | supervisor
  | abort
  | undefined
  | system
deriving DecidableEq, Repr

namespace Mode

def bits : Mode → BitVec 5
  | .user => 0b10000
  | .fiq => 0b10001
  | .irq => 0b10010
  | .supervisor => 0b10011
  | .abort => 0b10111
  | .undefined => 0b11011
  | .system => 0b11111

def all : List Mode := [.user, .fiq, .irq, .supervisor, .abort, .undefined, .system]

/-- The mode with an encoding; most encodings are reserved. -/
def ofBits? (n : BitVec 5) : Option Mode := all.find? (·.bits == n)

def ofStatus? (psr : Word) : Option Mode := ofBits? (psr.setWidth 5)

def bank : Mode → Bank
  | .user | .system => .user
  | .fiq => .fiq
  | .irq => .irq
  | .supervisor => .supervisor
  | .abort => .abort
  | .undefined => .undefined

def isPrivileged (m : Mode) : Bool := m != .user

def hasSaved (m : Mode) : Bool := m.bank != .user

theorem ofStatus?_congr {a b : Word} (h : ∀ i < 5, a.getLsbD i = b.getLsbD i) :
    ofStatus? a = ofStatus? b := by
  have : a.setWidth 5 = b.setWidth 5 := by
    apply BitVec.eq_of_getLsbD_eq
    intro i hi
    simp [hi, h i hi]
  rw [ofStatus?, ofStatus?, this]

theorem ofBits?_bits (m : Mode) : ofBits? m.bits = some m := by
  cases m <;> decide

end Mode

end Lockstep
