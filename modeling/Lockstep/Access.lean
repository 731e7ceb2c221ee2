import Lockstep.Word

/-!
Memory accesses: how wide they are, and how they relate to the access before them.
-/

namespace Lockstep

inductive Width where
  | byte
  | half
  | word
deriving DecidableEq, Repr

namespace Width

def bytes : Width → Nat
  | .byte => 1
  | .half => 2
  | .word => 4

def truncate : Width → Word → Word
  | .byte, v => (v.setWidth 8).setWidth 32
  | .half, v => (v.setWidth 16).setWidth 32
  | .word, v => v

def align (w : Width) (a : Address) : Address := Word.alignDown a (BitVec.ofNat 32 w.bytes)

end Width

/-- The kind of an access. A sequential one directly follows the access before it, a code access fetches
an instruction, and a write stores data. -/
structure Access where
  sequential : Bool := false
  code : Bool := false
  write : Bool := false
deriving DecidableEq, Repr, Inhabited

namespace Access

def nonsequential : Access := {}

def sequel : Access := { sequential := true }

def asCode (a : Access) : Access := { a with code := true }

def asWrite (a : Access) : Access := { a with write := true }

end Access

end Lockstep
