import Optical.Iso.Record

/-!
# Attributes in directory records

What a directory record tells about its entry beyond name, place and size.
-/

namespace Optical
namespace Iso

/-- The attributes of a file or directory on an ISO9660 volume. -/
structure RecordAttributes where
  /-- The name that the identifier stands for. -/
  identifier : String
  /-- The name in the system use area, if there is one. -/
  alternateName : Option String
  posix : Option PosixAttributes
  flags : FileFlags
  recorded : RecordTime
  /-- The listing of the directory ended cleanly; true of every file. -/
  clean : Bool
deriving DecidableEq, Repr

namespace RecordAttributes

/-- The attributes in a record, with the state of the listing of the directory. -/
def ofRecord (record : DirectoryRecord) (clean : Bool) : RecordAttributes where
  identifier := String.ofList record.name
  alternateName := (AlternateName.ofArea? record.systemUse).map (String.ofList ·.name)
  posix := PosixAttributes.ofArea? record.systemUse
  flags := record.flags
  recorded := record.recorded
  clean := clean

/-- The name that an entry is shown under: the alternate one if it is wanted and there is one. -/
def displayName (attributes : RecordAttributes) (rockRidge : Bool) : String :=
  if rockRidge then attributes.alternateName.getD attributes.identifier
  else attributes.identifier

end RecordAttributes
end Iso
end Optical
