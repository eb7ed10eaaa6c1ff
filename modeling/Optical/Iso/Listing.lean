import Optical.Iso.Record
import Optical.Source.Query

/-!
# Directory listings

Records fill a directory sector by sector; none crosses the end of its sector, and zeros fill what
is left. Anything else where a record or zeros should stand ends its sector uncleanly: the listing
goes on with the next sector and is marked.

* readDirectory lists a whole directory;
* DirectoryCursor gives its records one at a time.
-/

namespace Optical
namespace Iso

/-- What stands at a place in a directory sector. -/
inductive SectorStep where
  | record (record : DirectoryRecord)
  /-- No record follows in this sector; a clean end has only zeros behind it. -/
  | finish (clean : Bool)
deriving DecidableEq, Repr

/-- What the rest of a sector begins with. -/
def stepOf (rest : Bytes) : SectorStep :=
  match rest with
  | [] => .finish true
  | length :: _ =>
      if length = 0 then .finish rest.isBlank
      else
        match DirectoryRecord.parse? rest with
        | some record => .record record
        | none => .finish false

/-- What stands at an offset in a sector. -/
def nextInSector (sector : Bytes) (offset : Nat) : SectorStep :=
  stepOf (sector.drop offset)

theorem parse?_of_stepOf {rest : Bytes} {record : DirectoryRecord}
    (h : stepOf rest = .record record) : DirectoryRecord.parse? rest = some record := by
  cases rest with
  | nil => simp [stepOf] at h
  | cons length rest =>
      simp only [stepOf] at h
      split at h
      · cases h
      · split at h
        · next found => cases h; exact found
        · cases h

/-- The records of a directory or of a part of it. -/
structure Listing where
  records : List DirectoryRecord
  /-- Every sector ended with a record or with zeros. -/
  clean : Bool
deriving DecidableEq, Repr

namespace Listing

/-- The listing of no sectors. -/
def empty : Listing := ⟨[], true⟩

/-- A listing with one more record in front. -/
def cons (record : DirectoryRecord) (listing : Listing) : Listing :=
  { listing with records := record :: listing.records }

/-- A listing followed by another. -/
def append (first second : Listing) : Listing :=
  ⟨first.records ++ second.records, first.clean && second.clean⟩

/-- The records in the rest of a sector. -/
def ofSector (rest : Bytes) : Listing :=
  match _step : stepOf rest with
  | .finish clean => ⟨[], clean⟩
  | .record record => cons record (ofSector (rest.drop record.length.toNat))
termination_by rest.length
decreasing_by
  have := DirectoryRecord.parse?_length (parse?_of_stepOf _step)
  simp only [DirectoryRecord.headerLength, List.length_drop] at *
  omega

end Listing

/-- Lists a count of sectors, from the given one on. -/
def readSectors : (count sector : Nat) → ReadM Listing
  | 0, _ => return .empty
  | count + 1, sector => do
      let bytes ← ReadM.readSector sector
      let later ← readSectors count (sector + 1)
      return (Listing.ofSector bytes).append later

/-- Lists a directory. -/
def readDirectory (extent : Extent) : ReadM Listing :=
  readSectors extent.sectorCount extent.sector

/-- A place in a directory that is listed record by record. -/
structure DirectoryCursor where
  extent : Extent
  /-- The number of sectors that are done with. -/
  index : Nat
  /-- The offset in the current sector. -/
  offset : Nat
  /-- The bytes of the current sector, once they are read. -/
  loaded : Option Bytes
  /-- Every sector that is done with ended with a record or with zeros. -/
  clean : Bool
  /-- A sector could not be read. -/
  failed : Bool

namespace DirectoryCursor

/-- The place before the first record. -/
def ofExtent (extent : Extent) : DirectoryCursor :=
  ⟨extent, 0, 0, none, true, false⟩

/-- The bytes of the current sector. -/
def load (cursor : DirectoryCursor) : ReadM Bytes :=
  match cursor.loaded with
  | some bytes => return bytes
  | none => ReadM.readSector (cursor.extent.sector + cursor.index)

/-- The next record or the error that stands in its way; nothing comes after an error. -/
def next? (cursor : DirectoryCursor) :
    Query (Option (Except Error DirectoryRecord) × DirectoryCursor) :=
  if cursor.failed ∨ cursor.extent.sectorCount ≤ cursor.index then return (none, cursor)
  else do
    match ← cursor.load.run with
    | .error error => return (some (.error error), { cursor with failed := true })
    | .ok sector =>
        match nextInSector sector cursor.offset with
        | .record record =>
            let offset := cursor.offset + record.length.toNat
            return (some (.ok record), { cursor with loaded := some sector, offset })
        | .finish clean =>
            let clean := cursor.clean && clean
            next? { cursor with index := cursor.index + 1, offset := 0, loaded := none, clean }
termination_by cursor.extent.sectorCount - cursor.index
decreasing_by omega

end DirectoryCursor
end Iso
end Optical
