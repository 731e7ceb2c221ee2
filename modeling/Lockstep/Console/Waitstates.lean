import Lockstep.Access

/-!
The time that memory takes. Bits 24 to 27 of an address choose a region, and each region has a time for
each class of access and each processor. The ARM9 counts its times in its own cycles, two to a cycle of
the ARM7.
-/

namespace Lockstep.Console

inductive ProcessorId where
  | arm7
  | arm9
deriving DecidableEq, Repr

def ProcessorId.label : ProcessorId → String
  | .arm7 => "Arm7"
  | .arm9 => "Arm9"

/-- Classes of accesses: non-sequential or sequential, up to a halfword or a whole word. -/
inductive TimingClass where
  | n16
  | s16
  | n32
  | s32
deriving DecidableEq, Repr

namespace TimingClass

def all : List TimingClass := [.n16, .s16, .n32, .s32]

def of (w : Width) (a : Access) : TimingClass :=
  match w == .word, a.sequential with
  | false, false => .n16
  | false, true => .s16
  | true, false => .n32
  | true, true => .s32

end TimingClass

structure AccessTimes where
  n16 : Nat
  s16 : Nat
  n32 : Nat
  s32 : Nat
deriving DecidableEq, Repr

namespace AccessTimes

def get (t : AccessTimes) : TimingClass → Nat
  | .n16 => t.n16
  | .s16 => t.s16
  | .n32 => t.n32
  | .s32 => t.s32

def scale (t : AccessTimes) (k : Nat) : AccessTimes := ⟨t.n16 * k, t.s16 * k, t.n32 * k, t.s32 * k⟩

def flat (n : Nat) : AccessTimes := ⟨n, n, n, n⟩

end AccessTimes

abbrev ExternalMemory := BitVec 16

namespace ExternalMemory

variable (c : ExternalMemory)

def sramTime : BitVec 2 := c.extractLsb' 0 2
def romFirstTime : BitVec 2 := c.extractLsb' 2 2
def romSecondTime : BitVec 1 := c.extractLsb' 4 1
def phiOutput : BitVec 2 := c.extractLsb' 5 2
def slot2ToArm7 : Bool := c.getLsbD 7
def slot1ToArm7 : Bool := c.getLsbD 11
def mainMemorySync : Bool := c.getLsbD 14
def mainMemoryArm7Priority : Bool := c.getLsbD 15

def firstTime (n : BitVec 2) : Nat := (#v[10, 8, 6, 18] : Vector Nat 4).get n.toFin

def secondTime (n : BitVec 1) : Nat := (#v[6, 4] : Vector Nat 2).get n.toFin

/-- The times of the cartridge ROM; a word takes two accesses. -/
def romTimes : AccessTimes :=
  let first := firstTime c.romFirstTime
  let second := secondTime c.romSecondTime
  ⟨first, second, first + second, second * 2⟩

def sramTimes : AccessTimes :=
  let time := firstTime c.sramTime
  ⟨time, time, time * 2, time * 2⟩

end ExternalMemory

structure Waitstates where
  arm7 : Vector AccessTimes 16
  arm9 : Vector AccessTimes 16
deriving DecidableEq, Repr

namespace Waitstates

/-- The times of the ARM7 without a cartridge. -/
def base : Vector AccessTimes 16 :=
  let one := AccessTimes.flat 1
  let video : AccessTimes := ⟨1, 1, 2, 2⟩
  #v[one, one, ⟨8, 1, 9, 2⟩, one, one, video, video, one, one, one, one, one, one, one, one, one]

/-- How many cycles of a processor pass in a cycle of the ARM7. -/
def factor : ProcessorId → Nat
  | .arm7 => 1
  | .arm9 => 2

def regionOf (a : Address) : Fin 16 := (a.extractLsb' 24 4).toFin

variable (t : Waitstates)

def regions : ProcessorId → Vector AccessTimes 16
  | .arm7 => t.arm7
  | .arm9 => t.arm9

def setTimes (id : ProcessorId) (region : Fin 16) (times : AccessTimes) : Waitstates :=
  match id with
  | .arm7 => { t with arm7 := t.arm7.set region times }
  | .arm9 => { t with arm9 := t.arm9.set region times }

def get (id : ProcessorId) (a : Address) (c : TimingClass) : Nat :=
  ((t.regions id)[regionOf a]).get c

/-- Take the times of the three regions of slot 2 from the external memory control. -/
def applyExternal (c : ExternalMemory) : Waitstates :=
  let put (t : Waitstates) (id : ProcessorId) : Waitstates :=
    let rom := c.romTimes.scale (factor id)
    let sram := c.sramTimes.scale (factor id)
    ((t.setTimes id 8 rom).setTimes id 9 rom).setTimes id 10 sram
  put (put t .arm7) .arm9

def initial : Waitstates :=
  applyExternal { arm7 := base, arm9 := base.map (·.scale (factor .arm9)) } 0

instance : Inhabited Waitstates := ⟨initial⟩

end Waitstates

end Lockstep.Console
