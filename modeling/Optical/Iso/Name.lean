import Optical.Text.Blank
import Optical.Text.Utf8
import Optical.Text.Utf16

/-!
# Names on ISO9660 volumes

Identifiers come in two character sets and do not say in which. A zero byte cannot occur in the
narrow set, so an identifier with one is read as 16-bit units.
-/

namespace Optical
namespace Iso

/-- The text of a file identifier. -/
def decodeIdentifier (raw : Bytes) : List Char :=
  if raw.contains 0 then Text.Utf16.decodeBE raw else Text.Utf8.decodeLossy raw

/-- The character fills a field up to its end. -/
def isFiller (c : Char) : Bool :=
  c == ' ' || c == '\x00'

/-- The text of a field that is filled up with spaces or zeros; wide says which set it is in. -/
def decodePadded (raw : Bytes) (wide : Bool) : List Char :=
  Text.trimEnd isFiller (if wide then Text.Utf16.decodeBE raw else Text.Utf8.decodeLossy raw)

end Iso
end Optical
