import Optical.Iso.RecordAttributes
import Optical.Udf.FileEntry

/-!
# Attributes

What either file system records about an entry beyond name, place and size.
-/

namespace Optical

/-- The attributes of a file or directory. -/
inductive Attributes where
  | iso (attributes : Iso.RecordAttributes)
  | udf (attributes : Udf.EntryAttributes)
deriving DecidableEq, Repr

end Optical
