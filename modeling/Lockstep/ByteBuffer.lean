import Lockstep.Access

/-!
Little-endian numbers in byte buffers. The exact accessors refuse a number of which any byte lies
outside the buffer; the others repeat a buffer, whose size is then a power of two, over all
addresses.
-/

namespace Lockstep.ByteBuffer

def zeros (n : Nat) : ByteArray := ⟨Array.replicate n 0⟩

/-- The byte at an address, zero outside the buffer. -/
def byteAt (buf : ByteArray) (addr : Nat) : BitVec 8 :=
  if h : addr < buf.size then buf[addr].toBitVec else 0

/-- The number whose `n` bytes start at an address, lowest byte first. -/
def gather (buf : ByteArray) (addr : Nat) : Nat → Word
  | 0 => 0
  | n + 1 => (gather buf (addr + 1) n <<< 8) ||| (byteAt buf addr).setWidth 32

/-- Store the low `n` bytes of a number from an address upwards, lowest byte first. -/
def scatter (buf : ByteArray) (addr : Nat) (v : Word) : Nat → ByteArray
  | 0 => buf
  | n + 1 => scatter (buf.set! addr ⟨v.setWidth 8⟩) (addr + 1) (v >>> 8) n

def read? (buf : ByteArray) (addr : Nat) (w : Width) : Option Word :=
  if addr + w.bytes ≤ buf.size then some (gather buf addr w.bytes) else none

/-- The buffer after a store, and whether it was carried out. -/
def write (buf : ByteArray) (addr : Nat) (w : Width) (v : Word) : ByteArray × Bool :=
  if addr + w.bytes ≤ buf.size then (scatter buf addr v w.bytes, true) else (buf, false)

def placeOf (buf : ByteArray) (addr : Nat) : Nat := addr &&& (buf.size - 1)

/-- An empty buffer reads as zero, as does a number that runs past the end. -/
def readRepeated (buf : ByteArray) (addr : Nat) (w : Width) : Word :=
  (read? buf (placeOf buf addr) w).getD 0

def writeRepeated (buf : ByteArray) (addr : Nat) (w : Width) (v : Word) : ByteArray :=
  (write buf (placeOf buf addr) w v).1

def slice (buf : ByteArray) (start len : Nat) : ByteArray := buf.extract start (start + len)

end Lockstep.ByteBuffer
