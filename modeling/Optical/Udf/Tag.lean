import Optical.Source.Query

/-!
# Descriptor tags

Every UDF descriptor begins with a tag of sixteen bytes: its type, a checksum of the tag, the
length of the bytes that a cyclic check covers, and the sector where the descriptor belongs.
-/

namespace Optical
namespace Udf

/-- The first sixteen bytes of a descriptor. -/
structure Tag where
  /-- The type of the descriptor. -/
  identifier : UInt16
  version : UInt16
  checksum : UInt8
  serial : UInt16
  crc : UInt16
  crcLength : UInt16
  /-- The sector where the descriptor belongs. -/
  location : UInt32
deriving DecidableEq, Repr

namespace Tag

/-- Bytes in a tag. -/
def size : Nat := 16

/-- The type of a descriptor that names a volume. -/
def primaryVolume : UInt16 := 1

/-- The type of an anchor. -/
def anchorPointer : UInt16 := 2

/-- The type of a pointer to more descriptors. -/
def volumePointer : UInt16 := 3

/-- The type of a descriptor for the use of the writer. -/
def implementationUse : UInt16 := 4

/-- The type of a descriptor of a partition. -/
def partition : UInt16 := 5

/-- The type of a descriptor of how partitions make up a volume. -/
def logicalVolume : UInt16 := 6

/-- The type of a descriptor of free space. -/
def unallocatedSpace : UInt16 := 7

/-- The type of the end of a sequence. -/
def terminating : UInt16 := 8

/-- The type of a descriptor of the state of a volume. -/
def logicalVolumeIntegrity : UInt16 := 9

/-- The type of a file set. -/
def fileSet : UInt16 := 256

/-- The type of a file identifier. -/
def fileIdentifier : UInt16 := 257

/-- The type of a plain file entry. -/
def fileEntry : UInt16 := 261

/-- The type of an extended file entry. -/
def extendedFileEntry : UInt16 := 266

/-- The tag at the start of a byte string. -/
def parse (raw : Bytes) : Tag :=
  ⟨raw.u16 0, raw.u16 2, raw.byteAt 4, raw.u16 6, raw.u16 8, raw.u16 10, raw.u32 12⟩

/-- The sum modulo 256 of the bytes of a tag, its checksum byte left out. -/
def checksumOf (raw : Bytes) : UInt8 :=
  ((raw.take size).eraseIdx 4).foldl (· + ·) 0

/-- A whole tag is there and its checksum is right. -/
def checksumHolds (raw : Bytes) : Bool :=
  size ≤ raw.length && checksumOf raw == raw.byteAt 4

/-- The bytes begin with a sound tag of a type that belongs at a sector. -/
def isValidAt (raw : Bytes) (identifier : UInt16) (sector : Nat) : Bool :=
  let tag := parse raw
  tag.identifier == identifier && checksumHolds raw && tag.location.toNat == sector

/-- The length of the descriptor as far as the tag tells. -/
def descriptorLength (tag : Tag) : Nat :=
  size + tag.crcLength.toNat

end Tag

/--
The tag of the descriptor at a sector, and the bytes from there: a sector, or more if the
descriptor is longer, or fewer if the medium ends behind it.
-/
def readDescriptor (sector : Nat) : ReadM (Tag × Bytes) := do
  let offset := sectorStart sector
  let tag := Tag.parse (← ReadM.readExact offset Tag.size)
  let wanted := tag.descriptorLength
  let raw ← ReadM.readAt offset (max wanted sectorSize)
  if raw.length < wanted then
    throw (.medium (.shortDescriptor sector wanted raw.length))
  else return (tag, raw)

end Udf
end Optical
