import Optical.Time
import Optical.Udf.Dstring
import Optical.Udf.Pointer
import Optical.Udf.Tag

/-!
# UDF descriptors

The descriptors of a volume and of its file set. Some descriptors name an extent in which more
descriptors follow.
-/

namespace Optical
namespace Udf

/-- A run of sectors with a number by which it is referred to. -/
structure Partition where
  sector : Nat
  number : UInt16
  /-- The first sector. -/
  start : UInt32
  /-- The number of sectors. -/
  length : UInt32
deriving DecidableEq, Repr

namespace Partition

/-- The first sector behind the partition. -/
def endSector (partition : Partition) : Nat :=
  partition.start.toNat + partition.length.toNat

end Partition

/-- The name of a volume and the set that it belongs to. -/
structure PrimaryVolume where
  sector : Nat
  number : UInt32
  volumeId : String
  volumeSetId : String
  recorded : StampTime
deriving DecidableEq, Repr

/-- How the partitions make up a volume. -/
structure LogicalVolume where
  sector : Nat
  blockSize : UInt32
  identifier : String
  fileSet : BlockPointer
  integrity : ExtentPointer
deriving DecidableEq, Repr

/-- A descriptor of a volume, with the sector where it stands. -/
inductive Descriptor where
  | anchor (sector : Nat) (main reserve : ExtentPointer)
  | primaryVolume (volume : PrimaryVolume)
  | pointer (sector : Nat) (next : ExtentPointer)
  | implementationUse (sector : Nat)
  | partition (partition : Partition)
  | logicalVolume (volume : LogicalVolume)
  | unallocatedSpace (sector : Nat)
  | terminating (sector : Nat)
  | integrity (sector : Nat) (recorded : StampTime) (next : ExtentPointer)
deriving DecidableEq, Repr

namespace Descriptor

/-- The descriptor with a tag in its bytes; a type of zero is a blank and describes nothing. -/
def parse? (tag : Tag) (raw : Bytes) (sector : Nat) : Except FormatFault (Option Descriptor) :=
  if tag.identifier = 0 then .ok none
  else if tag.identifier = Tag.primaryVolume then
    .ok <| some <| primaryVolume {
      sector
      number := raw.u32 16
      volumeId := String.ofList (decodeField (raw.slice 24 32))
      volumeSetId := String.ofList (decodeField (raw.slice 72 128))
      recorded := .ofBytes (raw.slice 376 12) }
  else if tag.identifier = Tag.anchorPointer then
    .ok <| some <| anchor sector (.parse raw 16) (.parse raw 24)
  else if tag.identifier = Tag.volumePointer then
    .ok <| some <| pointer sector (.parse raw 20)
  else if tag.identifier = Tag.implementationUse then .ok <| some <| implementationUse sector
  else if tag.identifier = Tag.partition then
    .ok <| some <| partition ⟨sector, raw.u16 22, raw.u32 188, raw.u32 192⟩
  else if tag.identifier = Tag.logicalVolume then
    .ok <| some <| logicalVolume {
      sector
      blockSize := raw.u32 212
      identifier := String.ofList (decodeField (raw.slice 84 128))
      fileSet := .parse raw 248
      integrity := .parse raw 432 }
  else if tag.identifier = Tag.unallocatedSpace then .ok <| some <| unallocatedSpace sector
  else if tag.identifier = Tag.terminating then .ok <| some <| terminating sector
  else if tag.identifier = Tag.logicalVolumeIntegrity then
    .ok <| some <| integrity sector (.ofBytes (raw.slice 16 12)) (.parse raw 32)
  else .error (.unknownDescriptor tag.identifier sector)

/-- The sector where the descriptor stands. -/
def sector : Descriptor → Nat
  | anchor sector _ _ | pointer sector _ | implementationUse sector | unallocatedSpace sector
  | terminating sector | integrity sector _ _ => sector
  | primaryVolume found => found.sector
  | partition found => found.sector
  | logicalVolume found => found.sector

/-- The extent that a descriptor names for more descriptors, whether there is one or not. -/
def nextExtent? : Descriptor → Option ExtentPointer
  | anchor _ main _ => some main
  | pointer _ next => some next
  | logicalVolume found => some found.integrity
  | integrity _ _ next => some next
  | _ => none

/-- The extent in which more descriptors follow; one at sector zero is none. -/
def continuation? (descriptor : Descriptor) : Option ExtentPointer :=
  descriptor.nextExtent?.filter (·.location != 0)

/-- The partition that a descriptor describes. -/
def partition? : Descriptor → Option Partition
  | partition found => some found
  | _ => none

/-- The logical volume that a descriptor describes. -/
def logicalVolume? : Descriptor → Option LogicalVolume
  | logicalVolume found => some found
  | _ => none

/-- The primary volume that a descriptor describes. -/
def primaryVolume? : Descriptor → Option PrimaryVolume
  | primaryVolume found => some found
  | _ => none

end Descriptor

/-- The descriptor of a file set, which leads to its root directory. -/
structure FileSet where
  sector : Nat
  recorded : StampTime
  identifier : String
  root : BlockPointer
deriving DecidableEq, Repr

namespace FileSet

/-- The file set in the bytes of its descriptor. -/
def parse (raw : Bytes) (sector : Nat) : FileSet where
  sector
  recorded := .ofBytes (raw.slice 16 12)
  identifier := String.ofList (decodeField (raw.slice 304 32))
  root := .parse raw 400

end FileSet
end Udf
end Optical
