import Lockstep.Thumb.DataProcessing

/-!
THUMB transfers between memory and registers.
-/

namespace Lockstep.Thumb

variable {σ : Type} (bus : Bus σ)

def loadRelative (d : LowRegister) (offset : Word) (m : Machine σ) : Machine σ :=
  let (v, m) := bus.readRotated (m.cpu.regs.alignedPc + offset) .nonsequential m
  (setLow d v m).mapCpu (·.idleNonsequential)

def loadInto (op : TransferOp) (d : LowRegister) (addr : Address) (m : Machine σ) : Machine σ :=
  match op with
  | .loadSignedByte =>
    let (v, m) := bus.read .byte addr .nonsequential m
    setLow d (Word.extend (v.setWidth 8)) m
  | .loadWord =>
    let (v, m) := bus.readRotated addr .nonsequential m
    setLow d v m
  | .loadHalf =>
    let (v, m) := bus.read .half addr .nonsequential m
    setLow d v m
  | .loadByte =>
    let (v, m) := bus.read .byte addr .nonsequential m
    setLow d v m
  | .loadSignedHalf =>
    let (v, m) := bus.readSignedHalf addr .nonsequential m
    setLow d v m
  | _ => m

def storeFrom (op : TransferOp) (d : LowRegister) (addr : Address) (m : Machine σ) : Machine σ :=
  match op with
  | .storeWord => bus.write .word addr (low m d) .nonsequential m
  | .storeHalf => bus.write .half addr (low m d) .nonsequential m
  | .storeByte => bus.write .byte addr (low m d) .nonsequential m
  | _ => m

def transfer (op : TransferOp) (d : LowRegister) (addr : Address) (m : Machine σ) : Machine σ :=
  let m := m.setFetchKind .nonsequential
  if op.isLoad then (loadInto bus op d addr m).idle 1 else storeFrom bus op d addr m

/-- Store registers at descending words, the given address being above the first. -/
def pushEach : List Register → Address → Access → Machine σ → Address × Machine σ
  | [], sp, _, m => (sp, m)
  | r :: rs, sp, kind, m => pushEach rs (sp - 4) .sequel (bus.write .word (sp - 4) (m.reg r) kind m)

/-- Push registers, the highest first; the link register counts as the highest. -/
def push (list : BitVec 8) (link : Bool) (m : Machine σ) : Machine σ :=
  let registers := (if link then [Register.lr] else []) ++ ((LowRegister.ofList list).map (·.wide)).reverse
  let (sp, m) := pushEach bus registers m.cpu.regs.sp .nonsequential m
  (m.mapRegs (·.setSp sp)).setFetchKind .nonsequential

/-- Load low registers from ascending words; gives the address after the last, and the kind of an access
there. -/
def loadEach : List LowRegister → Address → Access → Machine σ → (Address × Access) × Machine σ
  | [], addr, kind, m => ((addr, kind), m)
  | r :: rs, addr, kind, m =>
    let (v, m) := bus.read .word addr kind m
    loadEach rs (addr + 4) .sequel (setLow r v m)

/-- Pop registers, and maybe the program counter last. On the newer architecture the value loaded into it
can leave the short instruction set. -/
def pop (list : BitVec 8) (counter : Bool) (m : Machine σ) : Machine σ :=
  let ((sp, kind), m) := loadEach bus (LowRegister.ofList list) m.cpu.regs.sp .nonsequential m
  let m :=
    if counter then
      let (target, m) := bus.read .word sp kind m
      let m := m.mapRegs (·.setSp (sp + 4))
      let m := if bus.isV5 && !target.getLsbD 0 then m.setFlag .thumb false else m
      bus.jump target m
    else m.mapRegs (·.setSp sp)
  m.mapCpu (·.idleNonsequential)

/-- Store low registers at ascending words. The older architecture stores the final address for the base,
unless the base comes first. -/
def storeEach (base : LowRegister) (final : Address) :
    List LowRegister → Address → Access → Machine σ → Machine σ
  | [], _, _, m => m
  | r :: rs, addr, kind, m =>
    let v := if r == base && kind != .nonsequential && !bus.isV5 then final else low m r
    storeEach base final rs (addr + 4) .sequel (bus.write .word addr v kind m)

def storeMultiple (base : LowRegister) (list : BitVec 8) (m : Machine σ) : Machine σ :=
  let registers := LowRegister.ofList list
  let start := low m base
  let final := start + BitVec.ofNat 32 (4 * registers.length)
  let m := storeEach bus base final registers start .nonsequential m
  let m :=
    if registers.isEmpty then bus.transferNone base.wide true true false m else setLow base final m
  m.setFetchKind .nonsequential

/-- Load low registers from ascending words. The base keeps a value that is loaded into it, but on the newer
architecture only if it is the last of several. -/
def loadMultiple (base : LowRegister) (list : BitVec 8) (m : Machine σ) : Machine σ :=
  let registers := LowRegister.ofList list
  let ((final, _), m) := loadEach bus registers (low m base) .nonsequential m
  let m :=
    if registers.isEmpty then bus.transferNone base.wide false true false m
    else
      let keepsBase :=
        registers.contains base &&
          !(bus.isV5 && (registers.length == 1 || registers.getLast? != some base))
      if keepsBase then m else setLow base final m
  m.mapCpu (·.idleNonsequential)

end Lockstep.Thumb
