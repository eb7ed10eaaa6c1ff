import Optical.Text.Utf8
import Optical.Text.Utf16

/-!
# UDF character strings

A string begins with a byte that gives the width of its characters. A string of narrow characters
is read as UTF-8, or byte by byte if it is not well-formed; one of wide characters as UTF-16. Zeros
at the end are filling.

A field of fixed length keeps the length of its string in its last byte.
-/

namespace Optical
namespace Udf

/-- The first byte of a string of narrow characters. -/
def narrowString : UInt8 := 8

/-- The first byte of a string of wide characters. -/
def wideString : UInt8 := 16

/-- The units of a wide string without the zeros at its end. -/
def trimUnits (units : List UInt16) : List UInt16 :=
  (units.reverse.dropWhile (· == 0)).reverse

/-- The text of a narrow string, without its first byte. -/
def decodeNarrow (body : Bytes) : List Char :=
  let text : Bytes := Bytes.trimZeros body
  (Text.Utf8.decode? text).getD (text.map fun b => Char.ofNat b.toNat)

/-- The text of a wide string, without its first byte. -/
def decodeWide (body : Bytes) : List Char :=
  Text.Utf16.decode (trimUnits (Text.Utf16.unitsBE body))

/-- The text of a string; one of unknown width is empty. -/
def decodeDstring : Bytes → List Char
  | [] => []
  | width :: body =>
      if width = narrowString then decodeNarrow body
      else if width = wideString then decodeWide body
      else []

/-- The text of a field of fixed length. -/
def decodeField (field : Bytes) : List Char :=
  match field.getLast? with
  | none => []
  | some used =>
      if used = 0 then []
      else decodeDstring (field.dropLast.take used.toNat)

end Udf
end Optical
