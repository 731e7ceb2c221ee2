import Lockstep.Console.Io

/-!
The memory map. Each processor has a map of its own from addresses to what answers there. The ARM9 looks
into its tightly coupled memories first. Accesses are rounded down to their width.
-/

namespace Lockstep.Console

inductive Place where
  | memory (r : Memory.Region) (offset : Nat)
  | firmware (offset : Nat)
  | io
  /-- Video memory, which belongs to the devices. -/
  | video
  | nothing
deriving DecidableEq, Repr

namespace Place

def of7 (a : Address) : Place :=
  match (a >>> 24).toNat with
  | 0x00 => .firmware a.toNat
  | 0x02 => .memory .main a.toNat
  | 0x03 => .memory (if a < 0x03800000 then .shared else .private7) a.toNat
  | 0x04 => .io
  | 0x06 => .video
  | _ => .nothing

/-- The map of the ARM9 without its tightly coupled memories. -/
def of9 (a : Address) : Place :=
  match (a >>> 24).toNat with
  | 0x02 => .memory .main a.toNat
  | 0x03 => .memory .shared a.toNat
  | 0x04 => .io
  | 0x05 | 0x06 | 0x07 => .video
  | 0xFF => if 0xFFFF0000 ≤ a then .firmware (a.toNat % 0x10000) else .nothing
  | _ => .nothing

def read9 (s : SystemControl) (a : Address) : Place :=
  match s.readHit? a with
  | some (t, offset) => .memory (.tcm t) offset
  | none => of9 a

def write9 (s : SystemControl) (a : Address) : Place :=
  match s.writeHit? a with
  | some (t, offset) => .memory (.tcm t) offset
  | none => of9 a

end Place

namespace Node

variable {δ : Type}

/-- The value read where nothing answers. Without a cartridge slot 2 reads as ones; elsewhere this is worth a
warning. -/
def readNothing (id : ProcessorId) (w : Width) (a : Address) (m : Node δ) : Word × Node δ :=
  let region := (a >>> 24).toNat
  if 0x08 ≤ region ∧ region ≤ 0x0A then (w.truncate (BitVec.allOnes 32), m)
  else (0, m.note .warn (id.label ++ ": Invalid read: " ++ Text.hexPadded 8 a.toNat))

def writeNothing (id : ProcessorId) (a : Address) (v : Word) (m : Node δ) : Node δ :=
  m.note .warn (id.label ++ ": Invalid write: " ++ Text.hexPadded 8 a.toNat ++ " = 0x" ++ Text.hex v.toNat)

def firmware (id : ProcessorId) (m : Node δ) : ByteArray :=
  match id with
  | .arm7 => m.system.memory.firmware7
  | .arm9 => m.system.memory.firmware9

variable (devices : Devices δ)

def readPlace (id : ProcessorId) (w : Width) (a : Address) (p : Place) (m : Node δ) : Word × Node δ :=
  match p with
  | .memory r offset => (m.system.memory.read r offset w, m)
  | .firmware offset =>
    match ByteBuffer.read? (firmware id m) offset w with
    | some v => (v, m)
    | none => readNothing id w a m
  | .io => readIo devices id w a m
  | .video =>
    match readVideo devices id w a m with
    | (some v, m) => (v, m)
    | (none, m) => readNothing id w a m
  | .nothing => readNothing id w a m

def writePlace (id : ProcessorId) (w : Width) (a : Address) (v : Word) (p : Place) (m : Node δ) : Node δ :=
  match p with
  | .memory r offset => m.mapSystem (·.mapMemory (·.write r offset w v))
  | .io => writeIo devices id w a v m
  | .video =>
    match writeVideo devices id w a v m with
    | (true, m) => m
    | (false, m) => writeNothing id a v m
  | .firmware _ | .nothing => writeNothing id a v m

def read7 (w : Width) (a : Address) (m : Node δ) : Word × Node δ :=
  let a := w.align a
  readPlace devices .arm7 w a (.of7 a) m

def write7 (w : Width) (a : Address) (v : Word) (m : Node δ) : Node δ :=
  let a := w.align a
  writePlace devices .arm7 w a v (.of7 a) m

def read9 (w : Width) (a : Address) (m : Node δ) : Word × Node δ :=
  let a := w.align a
  readPlace devices .arm9 w a (.read9 m.system.control a) m

def write9 (w : Width) (a : Address) (v : Word) (m : Node δ) : Node δ :=
  let a := w.align a
  writePlace devices .arm9 w a v (.write9 m.system.control a) m

end Node

end Lockstep.Console
