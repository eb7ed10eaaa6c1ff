import Optical.Iso.Descriptor
import Optical.Iso.Tree

/-!
# ISO9660 volumes

A volume may have several tables of contents, one for each primary or enhanced descriptor. The scan
of the descriptors ends at a terminator, at a sector that is no descriptor, at the first path table,
or at the end of the medium.

The best table is the one with the longest name of a file, in its own names or in the alternate ones
of its system use areas. Of equal tables the first wins, and of equal names the alternate ones.
-/

namespace Optical
namespace Iso

/-- What the scan does with a sector. -/
inductive ScanStep where
  | stop
  | skip
  | keep (kind : VolumeKind)
deriving DecidableEq, Repr

/-- Looks at a sector of the scan. -/
def scanStep (raw : Bytes) : ScanStep :=
  let header := VolumeHeader.parse raw
  if !header.isValid then .stop
  else
    match VolumeKind.ofByte? header.typeCode with
    | some .terminator => .stop
    | some .bootRecord | none => .skip
    | some kind => .keep kind

/-- The offset at which a scan ends after a descriptor. -/
def limitAfter (limit : Nat) (descriptor : VolumeDescriptor) : Nat :=
  if descriptor.kind = .primary then (descriptor.pathTableLimit?.elim limit (min limit)) else limit

/-- The descriptors in at most a count of sectors from one on, before an offset. -/
def scanFrom (limit index : Nat) : (count sector : Nat) → ReadM (List VolumeDescriptor)
  | 0, _ => return []
  | count + 1, sector =>
      if limit ≤ sectorStart sector then return []
      else do
        let raw ← ReadM.readSector sector
        match scanStep raw with
        | .stop => return []
        | .skip => scanFrom limit index count (sector + 1)
        | .keep kind =>
            let descriptor := VolumeDescriptor.parse raw kind index sector
            let later ← scanFrom (limitAfter limit descriptor) (index + 1) count (sector + 1)
            return descriptor :: later

/-- The tables of contents and partitions of an ISO9660 volume. -/
structure Volume where
  descriptors : List VolumeDescriptor
deriving DecidableEq, Repr

/-- A table of contents and which of its names to show. -/
structure TableChoice where
  table : Nat
  rockRidge : Bool
  /-- The length of the longest name of a file. -/
  score : Option Nat
deriving DecidableEq, Repr

/-- What is known after some of the tables. -/
structure Ranking where
  best : Option TableChoice
  firstReadable : Option Nat
deriving DecidableEq, Repr

namespace Ranking

/-- Nothing is known before the first table. -/
def empty : Ranking := ⟨none, none⟩

/-- A score is above another; no score is below every score. -/
def exceeds : Option Nat → Option Nat → Bool
  | none, _ => false
  | some _, none => true
  | some score, some other => other < score

/-- Takes a choice if its score is above the best one. -/
def offer (ranking : Ranking) (choice : TableChoice) : Ranking :=
  if exceeds choice.score (ranking.best.bind (·.score)) then { ranking with best := some choice }
  else ranking

/-- Takes the names of a readable table into account, the alternate ones first. -/
def consider (ranking : Ranking) (table : Nat) (tree : FileTree Attributes) : Ranking :=
  let seen := { ranking with firstReadable := ranking.firstReadable.or (some table) }
  let alternate := seen.offer ⟨table, true, longestAlternateName tree⟩
  alternate.offer ⟨table, false, longestIdentifier tree⟩

/-- The best choice; without a file to measure, the first table that can be read. -/
def choice? (ranking : Ranking) : Option TableChoice :=
  ranking.best.or (ranking.firstReadable.map fun table => ⟨table, false, none⟩)

end Ranking

/-- The error is about one table only, so that others may still be read. -/
def isUnreadableTable : Error → Bool
  | .directoryCycle _ | .directoryTooDeep => true
  | error => error.isUnexpectedEnd

namespace Volume

/-- Reads the descriptors of a volume. -/
def read : ReadM Volume := do
  let length ← ReadM.size
  let sectors := length / sectorSize - firstDescriptorSector
  return ⟨← scanFrom length 0 sectors firstDescriptorSector⟩

/-- The volume has no descriptors. -/
def isEmpty (volume : Volume) : Bool := volume.descriptors.isEmpty

/-- The record of the root directory of a table. -/
def root (volume : Volume) (table : Nat) : Except Error DirectoryRecord :=
  match volume.descriptors[table]? with
  | none => .error (.tableOutOfRange table volume.descriptors.length)
  | some descriptor =>
      match descriptor.root with
      | none => .error (.noRootDirectory table)
      | some root => .ok root

/-- The tree of a table. -/
def buildTree (volume : Volume) (table : Nat) (rockRidge : Bool) :
    ReadM (FileTree Attributes) := do
  let root ← ReadM.ofExcept (volume.root table)
  Iso.buildTree root rockRidge

/-- Takes a table into account if it has a root and can be read. -/
def rank (ranking : Ranking) (descriptor : VolumeDescriptor) : ReadM Ranking :=
  match descriptor.root with
  | none => return ranking
  | some root => do
      match ← ReadM.attempt (Iso.buildTree root true) with
      | .ok tree => return ranking.consider descriptor.index tree
      | .error error => if isUnreadableTable error then return ranking else throw error

/-- The table whose files have the longest names, if any table can be read. -/
def bestTable (volume : Volume) : ReadM (Option TableChoice) := do
  let ranking ← volume.descriptors.foldlM rank .empty
  return ranking.choice?

end Volume
end Iso
end Optical
