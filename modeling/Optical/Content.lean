import Optical.Source.Query

/-!
# File contents

The bytes of an extent, as a new byte string or at the front of a buffer.
-/

namespace Optical
namespace Extent

/-- The bytes of an extent. -/
def contents (extent : Extent) : ReadM Bytes :=
  ReadM.readExact extent.byteOffset extent.length

/--
The number of bytes of an extent, and a buffer with these bytes at its front.
A buffer that is too small is refused before anything is read.
-/
def contentsInto (extent : Extent) (buffer : Bytes) : ReadM (Nat × Bytes) := do
  if buffer.length < extent.length then
    throw (.medium (.smallBuffer buffer.length extent.length))
  else
    let bytes ← extent.contents
    return (extent.length, bytes ++ buffer.drop extent.length)

end Extent
end Optical
