import Optical.Attributes
import Optical.FileTree.Basic
import Optical.Iso.Listing
import Optical.Visits

/-!
# ISO9660 directory trees

A directory tree is read depth first. Two rules keep a malformed volume from leading a reader
around for ever: a directory must not begin at the sector of one that it lies in, and no directory
lies more than 64 levels below the root. A directory that has been read to its end may be reached
again by a different way.

* buildTree reads the tree below a root record;
* collectRecords lists the records of all directories in the same order;
* longestAlternateName and longestIdentifier measure the names of the files.
-/

namespace Optical
namespace Iso

/-- The node of a record, with the state of the listing of its directory. -/
def nodeOf (rockRidge : Bool) (record : DirectoryRecord) (clean : Bool) : Node Attributes :=
  let attributes := RecordAttributes.ofRecord record clean
  { name := attributes.displayName rockRidge
    size := record.dataLength.toNat
    sector := record.sector.toNat
    isDirectory := record.isDirectory
    attributes := .iso attributes }

/-- The contents of a directory: whether its listing ended cleanly, and its entries. -/
abbrev DirectoryContents := Bool × Forest (Node Attributes)

section Contents

variable {m : Type → Type} [Monad m]

/-- The tree of a record, given how to read a directory. -/
def entryOf (rockRidge : Bool) (enter : Extent → m DirectoryContents)
    (record : DirectoryRecord) : m (Node Attributes × Forest (Node Attributes)) :=
  if record.isDirectory then do
    let (clean, below) ← enter record.extent
    return (nodeOf rockRidge record clean, below)
  else return (nodeOf rockRidge record true, .nil)

/-- The entries for the records of a directory, given how to read the directories among them. -/
def entriesOf (rockRidge : Bool) (enter : Extent → m DirectoryContents)
    (records : List DirectoryRecord) : m (Forest (Node Attributes)) := do
  let named := records.filter fun record => !record.isTopLevel
  return .ofTrees (← named.mapM (entryOf rockRidge enter))

end Contents

/-- The contents of a directory, given how many levels are left. -/
def visitContents (rockRidge : Bool) : (levels : Nat) → Extent → VisitM DirectoryContents
  | 0, _ => throw .directoryTooDeep
  | levels + 1, extent =>
      .visit extent.sector do
        let listing ← readDirectory extent
        let entries ← entriesOf rockRidge (visitContents rockRidge levels) listing.records
        return (listing.clean, entries)

/-- The node of a root directory, which has no name. -/
def rootNode (root : DirectoryRecord) (clean : Bool) : Node Attributes where
  name := ""
  size := root.dataLength.toNat
  sector := root.sector.toNat
  isDirectory := true
  attributes := .iso (.ofRecord root clean)

/-- The tree below the record of a root directory. -/
def buildTree (root : DirectoryRecord) (rockRidge : Bool) : ReadM (FileTree Attributes) := do
  let (clean, below) ← (visitContents rockRidge (maxDirectoryDepth + 1) root.extent).start
  return .ofForest (rootNode root clean) below

section Records

variable {m : Type → Type} [Monad m]

/-- A record followed by those below it, given how to list a directory. -/
def recordAndBelow (enter : Extent → m (List DirectoryRecord)) (record : DirectoryRecord) :
    m (List DirectoryRecord) :=
  if record.isDirectory && !record.isTopLevel then do
    return record :: (← enter record.extent)
  else return [record]

/-- The records of a directory, each followed by those below it. -/
def recordsOf (enter : Extent → m (List DirectoryRecord)) (records : List DirectoryRecord) :
    m (List DirectoryRecord) := do
  return (← records.mapM (recordAndBelow enter)).flatten

end Records

/-- The records below a directory, given how many levels are left. -/
def visitRecords : (levels : Nat) → Extent → VisitM (List DirectoryRecord)
  | 0, _ => throw .directoryTooDeep
  | levels + 1, extent =>
      .visit extent.sector do
        let listing ← readDirectory extent
        recordsOf (visitRecords levels) listing.records

/-- All records in a directory and below it. -/
def collectRecords (extent : Extent) : ReadM (List DirectoryRecord) :=
  (visitRecords (maxDirectoryDepth + 1) extent).start

/-- The attributes of an ISO9660 entry. -/
def isoAttributes? : Attributes → Option RecordAttributes
  | .iso attributes => some attributes
  | .udf _ => none

/-- The ISO9660 attributes of the files of a tree. -/
def fileAttributes (tree : FileTree Attributes) : List RecordAttributes :=
  tree.files.filterMap fun id => (tree.get? id).bind fun entry => isoAttributes? entry.attributes

/-- The length in characters of the longest alternate name of a file. -/
def longestAlternateName (tree : FileTree Attributes) : Option Nat :=
  ((fileAttributes tree).filterMap fun a => a.alternateName.map String.length).max?

/-- The length in characters of the longest identifier of a file. -/
def longestIdentifier (tree : FileTree Attributes) : Option Nat :=
  ((fileAttributes tree).map fun a => a.identifier.length).max?

end Iso
end Optical
