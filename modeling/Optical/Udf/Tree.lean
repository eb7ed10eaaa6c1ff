import Optical.Attributes
import Optical.FileTree.Basic
import Optical.Udf.FileIdentifier
import Optical.Udf.Volume
import Optical.Visits

/-!
# UDF directory trees

The file set of a volume stands in one of its partitions and leads to the root directory. File
entries and directories are addressed from the sector of the file set, the contents of plain files
from the start of the partition through which their entry was reached.

As on other volumes, a directory must not begin at the sector of one that it lies in, and no
directory lies more than 64 levels below the root.
-/

namespace Optical
namespace Udf

/-- A UDF structure that cannot be understood. -/
def failFormat {α : Type} (fault : FormatFault) : ReadM α :=
  throw (.format fault)

/--
The file set in a run of sectors up to an end. Extended file entries before it are passed over,
together with the sectors of their contents.
-/
def findFileSet (sector last : Nat) : ReadM (Option FileSet) :=
  if last ≤ sector then return none
  else do
    let (tag, raw) ← readDescriptor sector
    if tag.identifier = Tag.fileSet then return some (.parse raw sector)
    else if tag.identifier = Tag.extendedFileEntry then
      let contents := (FileEntry.parse raw true).informationLength.toNat / sectorSize
      findFileSet (sector + max 1 contents) last
    else failFormat (.unexpectedTag Tag.fileSet tag.identifier sector)
termination_by last - sector
decreasing_by omega

/-- The first partition with a file set, and the file set. -/
def locateFileSet : List Partition → ReadM (Partition × FileSet)
  | [] => failFormat .noFileSet
  | partition :: partitions => do
      match ← findFileSet partition.start.toNat partition.endSector with
      | some fileSet => return (partition, fileSet)
      | none => locateFileSet partitions

/-- What the addresses of a file system count from. -/
structure Layout where
  /-- The sector that file entries and directories are addressed from. -/
  base : Nat
  /-- The sector that the contents of files in a partition are addressed from. -/
  startOf : UInt16 → Option Nat

namespace Layout

/-- The start of the first partition with a number. -/
def firstStart? (partitions : List Partition) (number : UInt16) : Option Nat :=
  (partitions.find? (·.number == number)).map (·.start.toNat)

/-- The layout of partitions of which one holds the file set. -/
def ofFileSet (partitions : List Partition) (home : Partition) (fileSet : FileSet) : Layout where
  base := fileSet.sector
  startOf number :=
    if number = fileSet.root.partition then some home.start.toNat
    else firstStart? partitions number

/-- The file entry at a block, with its sector. -/
def readEntry (layout : Layout) (block : UInt32) : ReadM (Nat × FileEntry) := do
  let sector := layout.base + block.toNat
  let (tag, raw) ← readDescriptor sector
  if tag.identifier = Tag.fileEntry then return (sector, .parse raw false)
  else if tag.identifier = Tag.extendedFileEntry then return (sector, .parse raw true)
  else failFormat (.unexpectedTag Tag.fileEntry tag.identifier sector)

/-- The sector of the directory that an entry describes. -/
def directorySector (layout : Layout) (entry : FileEntry) : Nat :=
  layout.base + entry.allocation.location.toNat

/-- The node of an entry at a sector that was reached through a partition. -/
def nodeOf (layout : Layout) (name : String) (entry : FileEntry) (sector : Nat)
    (partition : UInt16) : Except FormatFault (Node Attributes) :=
  let node (isDirectory : Bool) (start : Nat) : Node Attributes :=
    { name, isDirectory
      size := entry.allocation.length.toNat
      sector := start
      attributes := .udf (.ofEntry entry partition) }
  if entry.fileType = FileEntry.directoryType then .ok (node true (layout.directorySector entry))
  else if entry.fileType = FileEntry.plainType then
    match layout.startOf partition with
    | none => .error (.unknownPartition partition)
    | some start => .ok (node false (start + entry.allocation.location.toNat))
  else .error (.unsupportedFileType entry.fileType sector)

/-- The entry at a block and its node. -/
def readNode (layout : Layout) (name : String) (icb : BlockPointer) :
    ReadM (FileEntry × Node Attributes) := do
  let (sector, entry) ← layout.readEntry icb.block
  match layout.nodeOf name entry sector icb.partition with
  | .ok node => return (entry, node)
  | .error fault => failFormat fault

/-- The error of a directory that does not end cleanly; positions count from its first sector. -/
def endError? (start : Nat) : DirectoryEnd → Option Error
  | .clean => none
  | .foreignTag found position =>
      some (.format (.unexpectedTag Tag.fileIdentifier found (start + position / sectorSize)))
  | .overrun position => some (.medium (.shortIdentifier (start + position / sectorSize)))

section Contents

variable {m : Type → Type} [Monad m] [MonadLiftT ReadM m]

/-- The tree of an identifier, given how to read a directory. -/
def entryOf (layout : Layout) (enter : FileEntry → m (Forest (Node Attributes)))
    (found : FileIdentifier) : m (Node Attributes × Forest (Node Attributes)) := do
  let (entry, node) ← layout.readNode (String.ofList found.name) found.icb
  let below ← if node.isDirectory then enter entry else pure .nil
  return (node, below)

/--
The entries for the identifiers of a directory, given how to read the directories among them.
What is wrong with the end of a directory shows after the entries before it.
-/
def entriesOf [MonadExceptOf Error m] (layout : Layout) (failure : Option Error)
    (enter : FileEntry → m (Forest (Node Attributes))) (identifiers : List FileIdentifier) :
    m (Forest (Node Attributes)) := do
  let shown := identifiers.filter fun found => !(found.isParent || found.isDeleted)
  let trees ← shown.mapM (layout.entryOf enter)
  match failure with
  | none => return .ofTrees trees
  | some error => throw error

end Contents

/-- The contents of a directory, given how many levels are left. -/
def visitContents (layout : Layout) : (levels : Nat) → FileEntry →
    VisitM (Forest (Node Attributes))
  | 0, _ => throw .directoryTooDeep
  | levels + 1, entry =>
      let sector := layout.directorySector entry
      .visit sector do
        let raw ← ReadM.readExact (sectorStart sector) entry.allocation.length.toNat
        let (identifiers, ending) := fileIdentifiers 0 raw
        layout.entriesOf (endError? sector ending) (layout.visitContents levels) identifiers

end Layout

/-- The tree of the file set in a list of partitions. -/
def buildTree (partitions : List Partition) : ReadM (FileTree Attributes) := do
  let (home, fileSet) ← locateFileSet partitions
  let layout := Layout.ofFileSet partitions home fileSet
  let (entry, node) ← layout.readNode "" fileSet.root
  if node.isDirectory then
    return .ofForest node (← (layout.visitContents (maxDirectoryDepth + 1) entry).start)
  else return .ofRoot node

namespace Volume

/-- The tree of a volume. -/
def buildTree (volume : Volume) : ReadM (FileTree Attributes) :=
  Udf.buildTree volume.partitions

end Volume
end Udf
end Optical
