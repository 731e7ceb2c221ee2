/-!
What a console is configured with before it is switched on.
-/

namespace Lockstep.Console

structure FirmwareSlot where
  id : String
  title : String
  image : Option ByteArray := none

structure Configuration where
  /-- Enter programs directly, with the state that firmware leaves behind. -/
  skipBoot : Bool := true
  /-- Carry out firmware calls without firmware. -/
  emulateCalls : Bool := true
  traceInstructions : Bool := false
  /-- The cycles that a halted processor lets pass at once, in its own clock. -/
  dozeLength : Nat := 4
  /-- The most system cycles that pass before both processors run again. -/
  longestStep : Nat := 64
  firmware : List FirmwareSlot := [⟨"nds7", "DS (ARM7)", none⟩, ⟨"nds9", "DS (ARM9)", none⟩]

namespace FirmwareSlot

/-- Change the image of the first slot with an identifier; a missing one is added at the end. -/
def place (id : String) (image : ByteArray) : List FirmwareSlot → List FirmwareSlot
  | [] => [⟨id, id, some image⟩]
  | s :: rest => if s.id = id then { s with image := some image } :: rest else s :: place id image rest

/-- Take the image out of the first slot with an identifier. -/
def clear (id : String) : List FirmwareSlot → List FirmwareSlot
  | [] => []
  | s :: rest => if s.id = id then { s with image := none } :: rest else s :: clear id rest

end FirmwareSlot

namespace Configuration

instance : Inhabited Configuration := ⟨{}⟩

def image? (c : Configuration) (id : String) : Option ByteArray :=
  (c.firmware.find? (·.id == id)).bind (·.image)

def setImage (c : Configuration) (id : String) (image : ByteArray) : Configuration :=
  { c with firmware := FirmwareSlot.place id image c.firmware }

def clearImage (c : Configuration) (id : String) : Configuration :=
  { c with firmware := FirmwareSlot.clear id c.firmware }

end Configuration

end Lockstep.Console
