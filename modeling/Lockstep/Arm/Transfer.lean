import Lockstep.Arm.Instruction
import Lockstep.Pipeline

/-!
Transfers between memory and one register, or a pair of registers. A stored program counter is further
ahead than one that is read otherwise. A load that overwrites its base does not write the base back.
-/

namespace Lockstep.Arm

variable {σ : Type} (bus : Bus σ)

def Offset.distance (o : Offset) (m : Machine σ) : Word :=
  match o with
  | .immediate v => v
  | .register r => m.reg r
  | .shifted r kind k => (kind.immediate (m.reg r) k (m.flag .carry)).value

def loadInto (kind : TransferKind) (d : Register) (addr : Address) (m : Machine σ) : Machine σ :=
  match kind with
  | .loadWord =>
    let (v, m) := bus.readRotated addr .nonsequential m
    bus.setRegLoaded d v m
  | .loadHalf =>
    let (v, m) := bus.read .half addr .nonsequential m
    bus.setReg d v m
  | .loadSignedHalf =>
    let (v, m) := bus.readSignedHalf addr .nonsequential m
    bus.setReg d v m
  | .loadByte =>
    let (v, m) := bus.read .byte addr .nonsequential m
    bus.setReg d v m
  | .loadSignedByte =>
    let (v, m) := bus.read .byte addr .nonsequential m
    bus.setReg d (Word.extend (v.setWidth 8)) m
  | .loadDouble =>
    let (lo, m) := bus.read .word addr .nonsequential m
    let (hi, m) := bus.read .word (addr + 4) .sequel m
    bus.setReg d.next hi (bus.setReg d lo m)
  | _ => m

def storeFrom (kind : TransferKind) (d : Register) (addr : Address) (m : Machine σ) : Machine σ :=
  match kind with
  | .storeWord => bus.write .word addr (m.regLate d) .nonsequential m
  | .storeHalf => bus.write .half addr (m.regLate d) .nonsequential m
  | .storeByte => bus.write .byte addr (m.regLate d) .nonsequential m
  | .storeDouble =>
    let lo := m.regLate d
    let hi := m.regLate d.next
    bus.write .word (addr + 4) hi .sequel (bus.write .word addr lo .nonsequential m)
  | _ => m

def transfer (kind : TransferKind) (n d : Register) (offset : Offset) (i : Indexing) (m : Machine σ) :
    Machine σ :=
  let base := m.reg n
  let moved := Word.offset base (offset.distance m) i.up
  let addr := if i.before then moved else base
  let m := if kind.isLoad then loadInto bus kind d addr m else storeFrom bus kind d addr m
  let m := if i.writeback && (!kind.isLoad || n != d) then bus.setReg n moved m else m
  let m := m.setFetchKind .nonsequential
  if kind.isLoad then m.idle 1 else m

def swap (byte : Bool) (n d r : Register) (m : Machine σ) : Machine σ :=
  let addr := m.reg n
  let w : Width := if byte then .byte else .word
  let (old, m) :=
    if byte then bus.read .byte addr .nonsequential m else bus.readRotated addr .nonsequential m
  let m := bus.write w addr (m.reg r) .nonsequential m
  (bus.setReg d old m).mapCpu (·.idleNonsequential)

end Lockstep.Arm
