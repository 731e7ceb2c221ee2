import Lockstep.Machine

/-!
The system control coprocessor. Three parts of it have an effect: the control register, the placement of
the two tightly coupled memories, and waiting for an interrupt. All the rest is stored and read back.
-/

namespace Lockstep.Console

inductive Tcm where
  | data
  | instruction
deriving DecidableEq, Repr

inductive TcmAccess where
  | disabled
  /-- Only writes reach the memory; reads go to what lies beneath it. -/
  | writeOnly
  | readWrite
deriving DecidableEq, Repr

structure TcmWindow where
  access : TcmAccess
  base : Address
  size : Nat
deriving DecidableEq, Repr

def TcmWindow.offset? (t : TcmWindow) (a : Address) : Option Nat :=
  let offset := (a - t.base).toNat
  if offset < t.size then some offset else none

abbrev Control := Word

namespace Control

variable (c : Control)

def vectorsHigh : Bool := c.getLsbD 13
def dataEnable : Bool := c.getLsbD 16
def dataLoadMode : Bool := c.getLsbD 17
def instructionEnable : Bool := c.getLsbD 18
def instructionLoadMode : Bool := c.getLsbD 19

/-- Four bits that always read as set. -/
def alwaysSet : Word := 0x78

/-- High vectors and both tightly coupled memories. -/
def initial : Control := 0x00052078

end Control

/-- The register that places a tightly coupled memory: 512 bytes, doubled as often as bits 1 to 5 say, from
the page in bits 12 to 31. -/
abbrev TcmPlacement := Word

namespace TcmPlacement

variable (c : TcmPlacement)

def size : Nat := 512 <<< (c.extractLsb' 1 5).toNat
def base : Address := c &&& 0xFFFFF000

end TcmPlacement

structure SystemControl where
  control : Control
  cacheable : Vector (BitVec 8) 2
  writeBuffer : BitVec 8
  permissions : Vector (BitVec 16) 2
  extendedPermissions : Vector Word 2
  regions : Vector (Vector Word 8) 2
  lockdown : Vector Word 2
  dataPlacement : TcmPlacement
  instructionPlacement : TcmPlacement
  traceId : Word
  /-- The windows in force. -/
  data : TcmWindow
  instruction : TcmWindow
deriving DecidableEq, Repr

namespace SystemControl

def tcmAccess (enable loadMode : Bool) : TcmAccess :=
  if enable then if loadMode then .writeOnly else .readWrite else .disabled

def dataWindow (control : Control) (placement : TcmPlacement) : TcmWindow :=
  ⟨tcmAccess control.dataEnable control.dataLoadMode, placement.base, placement.size⟩

/-- The window of the instruction memory, which always starts at zero. -/
def instructionWindow (control : Control) (placement : TcmPlacement) : TcmWindow :=
  ⟨tcmAccess control.instructionEnable control.instructionLoadMode, 0, placement.size⟩

/-- Bring the windows in force up to date. -/
def moveWindows (s : SystemControl) : SystemControl :=
  { s with
    data := dataWindow s.control s.dataPlacement
    instruction := instructionWindow s.control s.instructionPlacement }

/-- After a reset there are 16 KiB of data memory at 0x027C0000, and the instruction memory fills the first
32 MiB. -/
def initial : SystemControl :=
  let control := Control.initial
  let dataPlacement : TcmPlacement := 0x027C000A
  let instructionPlacement : TcmPlacement := 0x00000020
  { control
    cacheable := Vector.replicate 2 0
    writeBuffer := 0
    permissions := Vector.replicate 2 0
    extendedPermissions := Vector.replicate 2 0
    regions := Vector.replicate 2 (Vector.replicate 8 0)
    lockdown := Vector.replicate 2 0
    dataPlacement
    instructionPlacement
    traceId := 0
    data := dataWindow control dataPlacement
    instruction := instructionWindow control instructionPlacement }

instance : Inhabited SystemControl := ⟨initial⟩

variable (s : SystemControl)

/-- What a register holds, without regard to the first opcode; unknown registers hold zero. -/
def value (primary secondary opcode2 : Nat) : Word :=
  match primary, secondary, opcode2 with
  | 0, 0, 1 => 0x0F0D2112
  | 0, 0, 2 => 0x00140180
  | 0, 0, n => if n < 8 then 0x41059461 else 0
  | 1, 0, 0 => s.control
  | 2, 0, 0 => s.cacheable[0].setWidth 32
  | 2, 0, 1 => s.cacheable[1].setWidth 32
  | 3, 0, 0 => s.writeBuffer.setWidth 32
  | 5, 0, 0 => s.permissions[0].setWidth 32
  | 5, 0, 1 => s.permissions[1].setWidth 32
  | 5, 0, 2 => s.extendedPermissions[0]
  | 5, 0, 3 => s.extendedPermissions[1]
  | 6, n, 0 => s.regions[0][n]?.getD 0
  | 6, n, 1 => s.regions[1][n]?.getD 0
  | 9, 0, 0 => s.lockdown[0]
  | 9, 0, 1 => s.lockdown[1]
  | 9, 1, 0 => s.dataPlacement
  | 9, 1, 1 => s.instructionPlacement
  | 13, 0, 1 => s.traceId
  | 13, 1, 1 => s.traceId
  | _, _, _ => 0

/-- Read a register. Only the first opcode zero is known. -/
def read (reg : ControlRegister) (journal : Journal) : Word × Journal :=
  if reg.opcode1 ≠ 0 then
    (0, journal.note .warn ("CP15 read from " ++ reg.text ++ " with opcode 1 set"))
  else (s.value reg.primary reg.secondary reg.opcode2, journal)

/-- Store into a register; unknown registers and those of the caches take nothing. -/
def store (primary secondary opcode2 : Nat) (v : Word) : SystemControl :=
  match primary, secondary, opcode2 with
  | 1, 0, 0 => moveWindows { s with control := v ||| Control.alwaysSet }
  | 2, 0, 0 => { s with cacheable := s.cacheable.set 0 (v.setWidth 8) }
  | 2, 0, 1 => { s with cacheable := s.cacheable.set 1 (v.setWidth 8) }
  | 3, 0, 0 => { s with writeBuffer := v.setWidth 8 }
  | 5, 0, 0 => { s with permissions := s.permissions.set 0 (v.setWidth 16) }
  | 5, 0, 1 => { s with permissions := s.permissions.set 1 (v.setWidth 16) }
  | 5, 0, 2 => { s with extendedPermissions := s.extendedPermissions.set 0 v }
  | 5, 0, 3 => { s with extendedPermissions := s.extendedPermissions.set 1 v }
  | 6, n, 0 => { s with regions := s.regions.set 0 (s.regions[0].setIfInBounds n v) }
  | 6, n, 1 => { s with regions := s.regions.set 1 (s.regions[1].setIfInBounds n v) }
  | 9, 0, 0 => { s with lockdown := s.lockdown.set 0 v }
  | 9, 0, 1 => { s with lockdown := s.lockdown.set 1 v }
  | 9, 1, 0 => moveWindows { s with dataPlacement := v }
  | 9, 1, 1 => moveWindows { s with instructionPlacement := v }
  | 13, 0, 1 => { s with traceId := v }
  | 13, 1, 1 => { s with traceId := v }
  | _, _, _ => s

/-- Whether writing a register makes the processor wait for an interrupt. -/
def waits (reg : ControlRegister) : Bool :=
  reg.opcode1 == 0 && reg.primary == 7 &&
    (reg.secondary == 0 && reg.opcode2 == 4 || reg.secondary == 8 && reg.opcode2 == 2)

def write (reg : ControlRegister) (v : Word) (journal : Journal) : SystemControl × Journal :=
  if reg.opcode1 ≠ 0 then
    (s, journal.note .warn ("CP15 write to " ++ reg.text ++ " with opcode 1 set"))
  else (s.store reg.primary reg.secondary reg.opcode2 v, journal)

def exceptionBase : Address := if s.control.vectorsHigh then 0xFFFF0000 else 0

def window : Tcm → TcmWindow
  | .data => s.data
  | .instruction => s.instruction

/-- The memory that an access goes to, and the place in it. The instruction memory comes first. -/
def hit? (usable : TcmAccess → Bool) (a : Address) : Option (Tcm × Nat) :=
  [Tcm.instruction, Tcm.data].findSome? fun t =>
    if usable (s.window t).access then ((s.window t).offset? a).map (t, ·) else none

def readHit? (a : Address) : Option (Tcm × Nat) := s.hit? (· == .readWrite) a

def writeHit? (a : Address) : Option (Tcm × Nat) := s.hit? (· != .disabled) a

end SystemControl

end Lockstep.Console
