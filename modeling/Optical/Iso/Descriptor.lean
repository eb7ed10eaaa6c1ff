import Optical.Iso.Record

/-!
# Volume descriptors

From sector 16 on, an ISO9660 volume is described by one sector each for its tables of contents and
partitions. The first byte of a descriptor gives its kind and the next five spell CD001.

A descriptor of the enhanced kind may announce, by an escape sequence, that its names are in one of
three levels of the wide character set.
-/

namespace Optical
namespace Iso

/-- The first sector of the volume descriptors. -/
def firstDescriptorSector : Nat := 16

/-- The kinds of volume descriptors. -/
inductive VolumeKind where
  | bootRecord
  | primary
  | enhanced
  | partition
  | terminator
deriving DecidableEq, Repr

namespace VolumeKind

/-- The kind that a type byte stands for. -/
def ofByte? (b : UInt8) : Option VolumeKind :=
  if b = 0 then some bootRecord
  else if b = 1 then some primary
  else if b = 2 then some enhanced
  else if b = 3 then some partition
  else if b = 255 then some terminator
  else none

/-- Descriptors of the kind hold the record of a root directory. -/
def hasRoot : VolumeKind → Bool
  | primary | enhanced => true
  | _ => false

end VolumeKind

/-- The first seven bytes of a volume descriptor. -/
structure VolumeHeader where
  typeCode : UInt8
  identifier : Bytes
  version : UInt8
deriving DecidableEq, Repr

namespace VolumeHeader

/-- The identifier CD001 of a volume descriptor. -/
def magic : Bytes := [0x43, 0x44, 0x30, 0x30, 0x31]

/-- The header at the start of a sector. -/
def parse (raw : Bytes) : VolumeHeader :=
  ⟨raw.byteAt 0, raw.slice 1 5, raw.byteAt 6⟩

/-- The sector is a volume descriptor. -/
def isValid (header : VolumeHeader) : Bool :=
  header.identifier == magic

end VolumeHeader

/-- The level that one escape sequence announces. -/
def escapeLevel? (sequence : Bytes) : Option Nat :=
  if sequence = [0x25, 0x2F, 0x40] then some 1
  else if sequence = [0x25, 0x2F, 0x43] then some 2
  else if sequence = [0x25, 0x2F, 0x45] then some 3
  else none

/-- The level of the first escape sequence in a field. -/
def jolietLevel? : Bytes → Option Nat
  | [] => none
  | b :: rest =>
      match escapeLevel? ((b :: rest).take 3) with
      | some level => some level
      | none => jolietLevel? rest

/-- The description of a table of contents or of a partition. -/
structure VolumeDescriptor where
  /-- The number of descriptors found before this one. -/
  index : Nat
  /-- The sector of the descriptor. -/
  sector : Nat
  kind : VolumeKind
  version : UInt8
  systemId : String
  volumeId : String
  /-- The number of blocks of the volume. -/
  space : UInt32
  blockSize : UInt16
  pathTableSize : UInt32
  /-- The block of the little-endian path table. -/
  pathTableL : UInt32
  /-- The block of the big-endian path table. -/
  pathTableM : UInt32
  joliet : Option Nat
  created : Option DigitTime
  root : Option DirectoryRecord
deriving DecidableEq, Repr

namespace VolumeDescriptor

/-- The descriptor in a sector. -/
def parse (raw : Bytes) (kind : VolumeKind) (index sector : Nat) : VolumeDescriptor :=
  let joliet := if kind = .enhanced then jolietLevel? (raw.slice 88 32) else none
  { index, sector, kind, joliet
    version := raw.byteAt 6
    systemId := String.ofList (decodePadded (raw.slice 8 32) joliet.isSome)
    volumeId := String.ofList (decodePadded (raw.slice 40 32) joliet.isSome)
    space := raw.u32both 80
    blockSize := raw.u16both 128
    pathTableSize := raw.u32both 132
    pathTableL := raw.u32 140
    pathTableM := raw.u32be 148
    created := DigitTime.ofBytes? (raw.slice 813 17)
    root := if kind.hasRoot then DirectoryRecord.parse? (raw.slice 156 34) else none }

/-- The names of the table are in the wide character set. -/
def isJoliet (descriptor : VolumeDescriptor) : Bool :=
  descriptor.joliet.isSome

/--
The offset of the first path table. Path tables stand after all volume descriptors, so a table
at or before their first sector does not count.
-/
def pathTableLimit? (descriptor : VolumeDescriptor) : Option Nat :=
  let tables := [descriptor.pathTableL.toNat, descriptor.pathTableM.toNat]
  ((tables.filter (firstDescriptorSector < ·)).map sectorStart).min?

end VolumeDescriptor
end Iso
end Optical
