import Optical.Extent
import Optical.Iso.Flags
import Optical.Iso.Name
import Optical.Iso.SystemUse
import Optical.Time

/-!
# Directory records

A directory is a list of records, one for each entry. A record begins with its own length; a header
of 33 bytes is followed by the identifier, a byte that keeps lengths even, and the system use area.
-/

namespace Optical
namespace Iso

/-- An entry of a directory. -/
structure DirectoryRecord where
  /-- The length of the record in bytes. -/
  length : UInt8
  /-- Sectors of extended attributes before the contents. -/
  attributeLength : UInt8
  /-- The sector at which the contents begin. -/
  sector : UInt32
  /-- The length of the contents in bytes. -/
  dataLength : UInt32
  recorded : RecordTime
  flags : FileFlags
  unitSize : UInt8
  gap : UInt8
  volume : UInt16
  identifier : Bytes
  systemUse : Bytes
deriving DecidableEq, Repr

namespace DirectoryRecord

/-- Bytes of a record before its identifier. -/
def headerLength : Nat := 33

/-- The offset of the system use area, given the length of the identifier. -/
def systemUseStart (identifierLength : Nat) : Nat :=
  headerLength + identifierLength + (if identifierLength % 2 = 0 then 1 else 0)

/-- The record at the start of a byte string, if it fits there and holds its identifier. -/
def parse? (raw : Bytes) : Option DirectoryRecord :=
  match raw with
  | [] => none
  | first :: _ =>
      let length := first.toNat
      let record : Bytes := raw.take length
      let identifierLength := (record.byteAt 32).toNat
      if length < headerLength ∨ raw.length < length then none
      else if length < headerLength + identifierLength then none
      else some {
        length := first
        attributeLength := record.byteAt 1
        sector := record.u32both 2
        dataLength := record.u32both 10
        recorded := .ofBytes record 18
        flags := .ofByte (record.byteAt 25)
        unitSize := record.byteAt 26
        gap := record.byteAt 27
        volume := record.u16both 28
        identifier := record.slice headerLength identifierLength
        systemUse := record.drop (systemUseStart identifierLength) }

theorem parse?_length {raw : Bytes} {record : DirectoryRecord} (h : parse? raw = some record) :
    headerLength ≤ record.length.toNat ∧ record.length.toNat ≤ raw.length := by
  cases raw with
  | nil => simp [parse?] at h
  | cons first rest =>
      simp only [parse?] at h
      split at h
      · cases h
      · split at h
        · cases h
        · cases h
          simp only
          omega

/-- The extent of the contents. -/
def extent (record : DirectoryRecord) : Extent :=
  ⟨record.sector.toNat, record.dataLength.toNat⟩

/-- The record is a directory that can be listed. -/
def isDirectory (record : DirectoryRecord) : Bool :=
  record.flags.isWalkable

/-- The record stands for the directory that it is in, or for the one above. -/
def isTopLevel (record : DirectoryRecord) : Bool :=
  record.identifier == [0] || record.identifier == [1]

/-- The name that the identifier stands for. -/
def name (record : DirectoryRecord) : List Char :=
  if record.identifier = [0] then ['.']
  else if record.identifier = [1] then ['.', '.']
  else decodeIdentifier record.identifier

end DirectoryRecord
end Iso
end Optical
