/-!
Numbers in text. Hexadecimal digits above nine are capital letters; a padded number gets zeros in front
until it has the asked number of digits, and is never cut.
-/

namespace Lockstep.Text

def padZeros (n : Nat) (s : String) : String := "".pushn '0' (n - s.length) ++ s

def hex (n : Nat) : String := String.ofList ((Nat.toDigits 16 n).map Char.toUpper)

def hexPadded (digits n : Nat) : String := padZeros digits (hex n)

def binaryPadded (digits n : Nat) : String := padZeros digits (String.ofList (Nat.toDigits 2 n))

/-- An address: a dollar sign, then the number. -/
def address (a : Nat) : String := "$0x" ++ hex a

/-- A signed distance: the sign stands between the hash and the magnitude. -/
def distance (d : Int) : String := (if d < 0 then "#-0x" else "#0x") ++ hex d.natAbs

def immediate (n : Nat) : String := "#0x" ++ hex n

end Lockstep.Text
