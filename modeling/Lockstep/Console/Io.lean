import Lockstep.Console.Hardware

/-!
Input and output registers. All of them are words; a narrower access reads the word and takes its lane,
or writes the word under a mask that covers its lane. What the console does not have itself is left to
the devices.
-/

namespace Lockstep.Console

namespace Lane

/-- How far up in its word an address is. -/
def shift (a : Address) : Nat := 8 * (a.toNat % 4)

def mask (w : Width) (a : Address) : Word := w.truncate (BitVec.allOnes 32) <<< shift a

def wordOf (a : Address) : Address := Word.alignDown a 4

end Lane

/-- The words that the console has itself. -/
inductive CoreWord where
  | externalMemory
  | masterEnable
  | enabled
  | requested
  /-- The boot flag, and above it the power control. -/
  | bootFlag
deriving DecidableEq, Repr

namespace CoreWord

def ofAddress? (a : Address) : Option CoreWord :=
  if a = 0x04000204 then some .externalMemory
  else if a = 0x04000208 then some .masterEnable
  else if a = 0x04000210 then some .enabled
  else if a = 0x04000214 then some .requested
  else if a = 0x04000300 then some .bootFlag
  else none

end CoreWord

/-- Take the bits that a mask selects from a new value. -/
def blend {w : Nat} (mask old new : BitVec w) : BitVec w := (old &&& ~~~mask) ||| (new &&& mask)

namespace Node

variable {δ : Type}

def readCore (id : ProcessorId) (r : CoreWord) (m : Node δ) : Word :=
  match r with
  | .externalMemory => (m.system.externalMemory ||| 0x2000).setWidth 32
  | .masterEnable => (BitVec.ofBool m.cpu.interrupts.master).setWidth 32
  | .enabled => m.cpu.interrupts.enabled
  | .requested => m.cpu.interrupts.requested
  | .bootFlag => (m.system.bootFlags.get id).setWidth 32

/-- Ask for another power mode. Only halting is supported. -/
def setPower (v : BitVec 8) (m : Node δ) : Node δ :=
  match (v >>> 6).toNat with
  | 0 => m
  | 2 => m.mapCpu (·.halt)
  | mode =>
    m.note .warn ("Unsupported power mode " ++ toString mode ++ " requested through HALTCNT")

/-- The bits of the external memory control that a processor can write. -/
def externalMask : ProcessorId → BitVec 16
  | .arm7 => 0x7F
  | .arm9 => 0xFFFF

/-- The boot flag after a write: the lowest bit stays set, and the ARM9 has a second bit to itself. -/
def bootFlag (id : ProcessorId) (old new : BitVec 8) : BitVec 8 :=
  let flag := old ||| (new &&& 1)
  match id with
  | .arm7 => flag
  | .arm9 => blend 2 flag new

def writeCore (id : ProcessorId) (r : CoreWord) (v mask : Word) (m : Node δ) : Node δ :=
  match r with
  | .externalMemory =>
    let mask := mask.setWidth 16 &&& externalMask id
    let c := blend mask m.system.externalMemory (v.setWidth 16)
    { m with system :=
        { m.system with externalMemory := c, waitstates := m.system.waitstates.applyExternal c } }
  | .masterEnable =>
    if mask.getLsbD 0 then
      m.mapCpu fun p => { p with interrupts := { p.interrupts with master := v.getLsbD 0 } }
    else m
  | .enabled =>
    m.mapCpu fun p =>
      { p with interrupts := { p.interrupts with enabled := blend mask p.interrupts.enabled v } }
  | .requested => m.mapCpu fun p => { p with interrupts := p.interrupts.acknowledge (v &&& mask) }
  | .bootFlag =>
    let m :=
      if mask &&& 0xFF ≠ 0 then
        let flags := m.system.bootFlags
        let flag := bootFlag id (flags.get id) (v.setWidth 8)
        { m with system := { m.system with bootFlags := flags.set id flag } }
      else m
    if mask &&& 0xFF00 ≠ 0 ∧ id = .arm7 then setPower (v.extractLsb' 8 8) m else m

variable (devices : Devices δ)

/-- Read a word from the devices. Interrupts that they raise for the reader reach it at once. -/
def readDevice (id : ProcessorId) (word : Address) (m : Node δ) : Option Word × Node δ :=
  let (v, m) := m.withDevices (devices.read id word)
  (v, receiveInterrupts id m)

def writeDevice (id : ProcessorId) (word : Address) (v mask : Word) (m : Node δ) : Bool × Node δ :=
  let (taken, m) := m.withDevices (devices.write id word v mask)
  (taken, receiveInterrupts id m)

def readIo (id : ProcessorId) (w : Width) (a : Address) (m : Node δ) : Word × Node δ :=
  let word := Lane.wordOf a
  let (v, m) :=
    match CoreWord.ofAddress? word with
    | some r => (readCore id r m, m)
    | none =>
      match readDevice devices id word m with
      | (some v, m) => (v, m)
      | (none, m) =>
        (0, m.note .info (id.label ++ ": Read from unknown IO register 0x" ++ Text.hexPadded 8 a.toNat))
  (w.truncate (v >>> Lane.shift a), m)

def writeIo (id : ProcessorId) (w : Width) (a : Address) (v : Word) (m : Node δ) : Node δ :=
  let word := Lane.wordOf a
  let v := v <<< Lane.shift a
  let mask := Lane.mask w a
  match CoreWord.ofAddress? word with
  | some r => writeCore id r v mask m
  | none =>
    match writeDevice devices id word v mask m with
    | (true, m) => m
    | (false, m) =>
      m.note .info (id.label ++ ": Write to unknown IO register 0x" ++ Text.hexPadded 8 a.toNat ++
        ", value 0x" ++ Text.hex v.toNat)

/-- Read a lane of a word that only devices can have. -/
def readVideo (id : ProcessorId) (w : Width) (a : Address) (m : Node δ) : Option Word × Node δ :=
  let (v, m) := readDevice devices id (Lane.wordOf a) m
  (v.map fun (v : Word) => w.truncate (v >>> Lane.shift a), m)

def writeVideo (id : ProcessorId) (w : Width) (a : Address) (v : Word) (m : Node δ) : Bool × Node δ :=
  writeDevice devices id (Lane.wordOf a) (v <<< Lane.shift a) (Lane.mask w a) m

end Node

end Lockstep.Console
