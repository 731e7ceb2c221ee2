import Lockstep.Pipeline

/-!
Firmware calls carried out without firmware. Only calls that compute something or move memory are known.
Arguments and results are in r0 to r3, and memory is accessed without spending time: a transfer is
charged two cycles for each unit instead.
-/

namespace Lockstep.Firmware

/-- How many digits a word has in base four, if it has at most `k`. -/
def quaternaryLength (v : Word) : (k : Nat) → Nat
  | 0 => 0
  | k + 1 => if 1#32 <<< (2 * k) ≤ v then k + 1 else quaternaryLength v k

/-- Find the remaining `k` binary digits of a square root, the highest first. The number less the square of
the digits found so far is `rest`; the digits themselves stand `2 * k` places up in `root`, so that `root`
and the digit's own square are together what one more digit takes from the rest. -/
def rootDigits : (k : Nat) → (rest root : Word) → Word
  | 0, _, root => root
  | k + 1, rest, root =>
    let digit := 1#32 <<< (2 * k)
    if root + digit ≤ rest then rootDigits k (rest - (root + digit)) ((root >>> 1) + digit)
    else rootDigits k rest (root >>> 1)

/-- The square root, rounded down. It has as many binary digits as the number has in base four. -/
def squareRoot (v : Word) : Word := rootDigits (quaternaryLength v 16) v 0

def checksumBit (crc : BitVec 16) : BitVec 16 :=
  if crc.getLsbD 0 then (crc >>> 1) ^^^ 0xA001 else crc >>> 1

def checksumByte (crc : BitVec 16) (b : BitVec 8) : BitVec 16 :=
  Nat.repeat checksumBit 8 (crc ^^^ b.setWidth 16)

variable {σ : Type} (bus : Bus σ)

def argument (r : LowRegister) (m : Machine σ) : Word := m.reg r.wide

def result (r : LowRegister) (v : Word) (m : Machine σ) : Machine σ := m.mapRegs (·.write r.wide v)

/-- Let the time of an empty loop of four cycles pass. -/
def spin (m : Machine σ) : Machine σ := result 0 0 (m.idle (4 * (argument 0 m).toNat))

/-- Signed division, with the quotient's magnitude as a third result. -/
def divide : Exec σ Unit := do
  let m ← get
  let num := argument 0 m
  let den := argument 1 m
  if den = 0 then throw (.invalidState "BIOS division by zero")
  let quotient := num.sdiv den
  set (result 3 quotient.abs (result 1 (num.srem den) (result 0 quotient m)))

def copyUnits (w : Width) (fill : Option Word) : (count : Nat) → (src dst : Address) → Machine σ → Machine σ
  | 0, _, _, m => m
  | count + 1, src, dst, m =>
    let (v, m) :=
      match fill with
      | some v => (v, m)
      | none => bus.load w src m
    let size := BitVec.ofNat 32 w.bytes
    copyUnits w fill count (src + size) (dst + size) (bus.store w dst v m)

/-- Move `count` units. The value to fill with is read whether or not it is needed. -/
def moveUnits (w : Width) (count : Nat) (filling : Bool) (m : Machine σ) : Machine σ :=
  let src := w.align (argument 0 m)
  let dst := w.align (argument 1 m)
  let (first, m) := bus.load w src m
  let m := copyUnits bus w (if filling then some first else none) count src dst m
  m.idle (2 * count)

def unitCount (control : Word) : Nat := (control.extractLsb' 0 21).toNat

def moveMemory (m : Machine σ) : Machine σ :=
  let control := argument 2 m
  moveUnits bus (if control.getLsbD 26 then .word else .half) (unitCount control) (control.getLsbD 24) m

/-- Move words in blocks of eight. -/
def moveBlocks (m : Machine σ) : Machine σ :=
  let control := argument 2 m
  moveUnits bus .word (8 * ((unitCount control + 7) / 8)) (control.getLsbD 24) m

def checksumMemory : (count : Nat) → Address → BitVec 16 → Machine σ → BitVec 16 × Machine σ
  | 0, _, crc, m => (crc, m)
  | count + 1, addr, crc, m =>
    let (b, m) := bus.load .byte addr m
    checksumMemory count (addr + 1) (checksumByte crc (b.setWidth 8)) m

def checksum (m : Machine σ) : Machine σ :=
  let (crc, m) :=
    checksumMemory bus (argument 2 m).toNat (argument 1 m) ((argument 0 m).setWidth 16) m
  result 0 (crc.setWidth 32) m

/-- Carry out a call; answers whether it is a known one. -/
def call (number : BitVec 8) : Exec σ Bool := do
  match number.toNat with
  | 0x03 => modify spin
  | 0x06 => modify (·.mapCpu (·.halt))
  | 0x09 => divide
  | 0x0B => modify (moveMemory bus)
  | 0x0C => modify (moveBlocks bus)
  | 0x0D => modify fun m => result 0 (squareRoot (argument 0 m)) m
  | 0x0E => modify (checksum bus)
  | 0x0F => modify (result 0 0)
  | _ => return false
  modify (·.note .trace ("Emulated BIOS call 0x" ++ Text.hexPadded 2 number.toNat))
  return true

end Lockstep.Firmware
