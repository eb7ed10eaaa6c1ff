/-!
# Blank characters

The characters with the property White_Space, and the trimming of a field by them.
-/

namespace Optical
namespace Text

/-- The character is white space. -/
def isBlank (c : Char) : Bool :=
  let n := c.toNat
  (0x09 ≤ n && n ≤ 0x0D) || n == 0x20 || n == 0x85 || n == 0xA0 || n == 0x1680
    || (0x2000 ≤ n && n ≤ 0x200A) || n == 0x2028 || n == 0x2029 || n == 0x202F
    || n == 0x205F || n == 0x3000

/-- A text without the characters of a class at its end. -/
def trimEnd (drop : Char → Bool) (text : List Char) : List Char :=
  (text.reverse.dropWhile drop).reverse

/-- A text without blanks at its two ends. -/
def trimBlanks (text : List Char) : List Char :=
  trimEnd isBlank (text.dropWhile isBlank)

end Text
end Optical
