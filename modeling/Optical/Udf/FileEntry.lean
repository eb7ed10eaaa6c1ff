import Optical.Udf.Descriptor

/-!
# File entries

A file entry describes a file or directory and says where its contents are. It comes in two forms
that differ in where the last fields stand. After the fixed part come extended attributes, whose
length is in the entry, and then the extents of the contents, of which the first counts.
-/

namespace Optical
namespace Udf

/-- The first extent of the contents; its location is relative to a start kept elsewhere. -/
structure Allocation where
  /-- The number of bytes. -/
  length : UInt32
  location : UInt32
deriving DecidableEq, Repr

namespace Allocation

/-- No contents. -/
def none : Allocation := ⟨0, 0⟩

/-- The extent at an offset. -/
def parse (raw : Bytes) (offset : Nat) : Allocation :=
  ⟨raw.u32 offset &&& lengthMask, raw.u32 (offset + 4)⟩

end Allocation

/-- Where the two forms of a file entry keep what they do not have at the same place. -/
structure EntryForm where
  modifiedAt : Nat
  attributeLengthAt : Nat
  allocationLengthAt : Nat
  /-- Bytes before the extended attributes. -/
  fixedLength : Nat

namespace EntryForm

/-- The form of an entry. -/
def of (extended : Bool) : EntryForm :=
  if extended then ⟨92, 208, 212, 216⟩ else ⟨84, 168, 172, 176⟩

end EntryForm

/-- The description of a file or directory. -/
structure FileEntry where
  extended : Bool
  fileType : UInt8
  icbFlags : UInt16
  uid : UInt32
  gid : UInt32
  permissions : UInt32
  links : UInt16
  informationLength : UInt64
  modified : StampTime
  allocation : Allocation
deriving DecidableEq, Repr

namespace FileEntry

/-- The type of a directory. -/
def directoryType : UInt8 := 4

/-- The type of a plain file. -/
def plainType : UInt8 := 5

/-- The first extent of the contents of an entry; fewer than eight bytes hold none. -/
def allocationOf (raw : Bytes) (form : EntryForm) : Allocation :=
  if 8 ≤ (raw.u32 form.allocationLengthAt).toNat then
    .parse raw (form.fixedLength + (raw.u32 form.attributeLengthAt).toNat)
  else .none

/-- The entry in the bytes of its descriptor. -/
def parse (raw : Bytes) (extended : Bool) : FileEntry where
  extended
  fileType := raw.byteAt 27
  icbFlags := raw.u16 34
  uid := raw.u32 36
  gid := raw.u32 40
  permissions := raw.u32 44
  links := raw.u16 48
  informationLength := raw.u64 56
  modified := .ofBytes (raw.slice (EntryForm.of extended).modifiedAt 12)
  allocation := allocationOf raw (.of extended)

/-- The entry describes a directory. -/
def isDirectory (entry : FileEntry) : Bool :=
  entry.fileType == directoryType

end FileEntry

/-- What a file entry tells about its file beyond name, place and size. -/
structure EntryAttributes where
  fileType : UInt8
  uid : UInt32
  gid : UInt32
  permissions : UInt32
  links : UInt16
  informationLength : UInt64
  modified : StampTime
  /-- The partition through which the entry was reached. -/
  partition : UInt16
deriving DecidableEq, Repr

namespace EntryAttributes

/-- The attributes in an entry that was reached through a partition. -/
def ofEntry (entry : FileEntry) (partition : UInt16) : EntryAttributes :=
  ⟨entry.fileType, entry.uid, entry.gid, entry.permissions, entry.links,
    entry.informationLength, entry.modified, partition⟩

end EntryAttributes
end Udf
end Optical
