import Lockstep.ByteBuffer
import Lockstep.Console.Configuration
import Lockstep.Console.SystemControl

/-!
The memories of the console.
-/

namespace Lockstep.Console

structure Memory where
  main : ByteArray
  /-- Work memory that both processors see all of. -/
  shared : ByteArray
  /-- Work memory of the ARM7. -/
  private7 : ByteArray
  instructionTcm : ByteArray
  dataTcm : ByteArray
  firmware7 : ByteArray
  firmware9 : ByteArray

namespace Memory

def kib : Nat := 1024

/-- Zeroed memories, and the configured firmware. -/
def initial (c : Configuration) : Memory where
  main := ByteBuffer.zeros (4 * kib * kib)
  shared := ByteBuffer.zeros (32 * kib)
  private7 := ByteBuffer.zeros (64 * kib)
  instructionTcm := ByteBuffer.zeros (32 * kib)
  dataTcm := ByteBuffer.zeros (16 * kib)
  firmware7 := (c.image? "nds7").getD ByteArray.empty
  firmware9 := (c.image? "nds9").getD ByteArray.empty

instance : Inhabited Memory := ⟨⟨default, default, default, default, default, default, default⟩⟩

/-- The memories that a mapped address can lie in; all but the firmware can be written. -/
inductive Region where
  | main
  | shared
  | private7
  | tcm (t : Tcm)
deriving DecidableEq, Repr

def bytes (m : Memory) : Region → ByteArray
  | .main => m.main
  | .shared => m.shared
  | .private7 => m.private7
  | .tcm .instruction => m.instructionTcm
  | .tcm .data => m.dataTcm

def read (m : Memory) (r : Region) (offset : Nat) (w : Width) : Word :=
  ByteBuffer.readRepeated (m.bytes r) offset w

def write (m : Memory) (r : Region) (offset : Nat) (w : Width) (v : Word) : Memory :=
  match r with
  | .main => { m with main := ByteBuffer.writeRepeated m.main offset w v }
  | .shared => { m with shared := ByteBuffer.writeRepeated m.shared offset w v }
  | .private7 => { m with private7 := ByteBuffer.writeRepeated m.private7 offset w v }
  | .tcm .instruction => { m with instructionTcm := ByteBuffer.writeRepeated m.instructionTcm offset w v }
  | .tcm .data => { m with dataTcm := ByteBuffer.writeRepeated m.dataTcm offset w v }

end Memory

end Lockstep.Console
