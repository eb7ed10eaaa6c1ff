/-!
# Numerals

Unsigned decimal numerals that fit in 64 bits. A numeral is one digit or more, with an optional
plus sign in front; leading zeros are allowed, blanks and any other sign are not.
-/

namespace Optical
namespace Text

/-- One more than the greatest number that a numeral may stand for. -/
def numeralBound : Nat := 0x10000000000000000

/-- The digits of a numeral, without its plus sign. -/
def numeralDigits : List Char → List Char
  | '+' :: digits => digits
  | digits => digits

/-- The number that a numeral stands for. -/
def readNumeral? (text : List Char) : Option Nat :=
  let digits := numeralDigits text
  if digits.isEmpty || !digits.all Char.isDigit then none
  else
    let n := Nat.ofDigitChars 10 digits 0
    if n < numeralBound then some n else none

/-- The shortest numeral of a number. -/
def writeNumeral (n : Nat) : List Char :=
  Nat.toDigits 10 n

end Text
end Optical
