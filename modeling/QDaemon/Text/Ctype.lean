import Mathlib.Algebra.Group.Int.Defs
import Mathlib.Algebra.GroupWithZero.Nat
import QDaemon.Text.Lines

/-!
# Characters of C strings

A character stands for the byte with its code, and a string ends at the first zero
byte.  The classes are those of `ctype.h` in the C locale, where no byte above 127
belongs to any of them.
-/

namespace QDaemon.Text

abbrev Chars := List Char

/-- The string that starts at an address. -/
def cString (bytes : Chars) : Chars :=
  before '\x00' bytes

def isspace (char : Char) : Bool :=
  char = ' ' || char = '\t' || char = '\n' || char = '\x0b' || char = '\x0c' || char = '\r'

def isxdigit (char : Char) : Bool :=
  char.isDigit || ('a' ≤ char && char ≤ 'f') || ('A' ≤ char && char ≤ 'F')

/-- The value of a digit, up to sixteen of them. -/
def digitValue (char : Char) : Nat :=
  if char.isDigit then char.toNat - '0'.toNat
  else if 'a' ≤ char then char.toNat - 'a'.toNat + 10
  else char.toNat - 'A'.toNat + 10

/-- `strtoll` of a text that starts with a digit: the number of the longest run of digits
of the base, or the largest one. -/
def strtoll (base : Nat) (text : Chars) : BitVec 64 :=
  let digits := text.takeWhile fun char => isxdigit char && digitValue char < base
  BitVec.ofNat 64
    (min (digits.foldl (fun number char => number * base + digitValue char) 0) (2 ^ 63 - 1))

theorem zero_not_mem_cString (bytes : Chars) : '\x00' ∉ cString bytes := not_mem_before bytes

theorem cString_of_not_mem {bytes : Chars} (free : '\x00' ∉ bytes) : cString bytes = bytes :=
  before_of_not_mem free

end QDaemon.Text
