import Optical.Iso.Record
import Optical.Proofs.Bytes.Fields

/-!
# Directory records read back

A writer spells the numbers of a directory record in both byte orders and keeps the system use area
at an even offset, by a zero after an identifier of even length. What it writes is read as the record
again, whatever bytes follow.

Two bits of the flags are reserved. A writer may set them, a reader does not keep them; so a record
has an encoding for each byte that reads as its flags.
-/

namespace Optical

/-- The bytes of a number in both byte orders, little-endian first. -/
def Bytes.ofNatBoth (width n : Nat) : Bytes :=
  Bytes.ofNatLE width n ++ Bytes.ofNatBE width n

/-- The seven bytes of a time. -/
def RecordTime.bytes (t : RecordTime) : Bytes :=
  [t.year, t.month, t.day, t.hour, t.minute, t.second, t.zone.toUInt8]

namespace Iso
namespace DirectoryRecord

section Encoding

/-- The length of the encoding of a record. -/
def encodedLength (record : DirectoryRecord) : Nat :=
  systemUseStart record.identifier.length + record.systemUse.length

/-- The byte after an identifier of even length. -/
def padding (record : DirectoryRecord) : Bytes :=
  if record.identifier.length % 2 = 0 then [0] else []

/-- The bytes of a record before its identifier, given the byte of its flags. -/
def header (record : DirectoryRecord) (flags : UInt8) : Bytes :=
  [record.length, record.attributeLength]
    ++ Bytes.ofNatBoth 4 record.sector.toNat
    ++ Bytes.ofNatBoth 4 record.dataLength.toNat
    ++ record.recorded.bytes
    ++ [flags, record.unitSize, record.gap]
    ++ Bytes.ofNatBoth 2 record.volume.toNat
    ++ [UInt8.ofNat record.identifier.length]

/-- The encoding of a record, given the byte of its flags. -/
def encodeWith (record : DirectoryRecord) (flags : UInt8) : Bytes :=
  record.header flags ++ (record.identifier ++ (record.padding ++ record.systemUse))

/-- The encoding of a record whose reserved flags are clear. -/
def encode (record : DirectoryRecord) : Bytes :=
  record.encodeWith record.flags.toByte

/-- The bytes are an encoding of the record. -/
def Encodes (record : DirectoryRecord) (bytes : Bytes) : Prop :=
  record.length.toNat = record.encodedLength ∧
    ∃ flags, FileFlags.ofByte flags = record.flags ∧ bytes = record.encodeWith flags

/-- A record without attributes, a date or a system use area, on the first volume. -/
def plain (identifier : Bytes) (flags : FileFlags) (sector dataLength : UInt32) :
    DirectoryRecord where
  length := UInt8.ofNat (systemUseStart identifier.length)
  attributeLength := 0
  sector := sector
  dataLength := dataLength
  recorded := ⟨0, 0, 0, 0, 0, 0, 0⟩
  flags := flags
  unitSize := 0
  gap := 0
  volume := 1
  identifier := identifier
  systemUse := []

variable (record : DirectoryRecord)
variable (flags : UInt8)

theorem header_length : (record.header flags).length = headerLength := rfl

theorem padding_length :
    record.padding.length = if record.identifier.length % 2 = 0 then 1 else 0 := by
  rw [padding]
  split <;> rfl

theorem encodeWith_length : (record.encodeWith flags).length = record.encodedLength := by
  simp only [encodeWith, List.length_append, header_length, padding_length, encodedLength,
    systemUseStart]
  omega

/-- The sector stands behind the two bytes of the lengths. -/
theorem sector_header (after : Bytes) :
    Bytes.u32both (record.header flags ++ after) 2 = record.sector :=
  Bytes.u32_field [record.length, record.attributeLength] _ record.sector

/-- The length of the contents stands behind both forms of the sector. -/
theorem dataLength_header (after : Bytes) :
    Bytes.u32both (record.header flags ++ after) 10 = record.dataLength :=
  Bytes.u32_field
    ([record.length, record.attributeLength] ++ Bytes.ofNatBoth 4 record.sector.toNat) _
    record.dataLength

/-- The number of the volume stands before the length of the identifier. -/
theorem volume_header (after : Bytes) :
    Bytes.u16both (record.header flags ++ after) 28 = record.volume :=
  Bytes.u16_field
    ([record.length, record.attributeLength]
      ++ Bytes.ofNatBoth 4 record.sector.toNat
      ++ Bytes.ofNatBoth 4 record.dataLength.toNat
      ++ record.recorded.bytes
      ++ [flags, record.unitSize, record.gap]) _ record.volume

theorem recorded_header (after : Bytes) :
    RecordTime.ofBytes (record.header flags ++ after) 18 = record.recorded := rfl

theorem identifier_encodeWith :
    (record.encodeWith flags).slice headerLength record.identifier.length =
      record.identifier :=
  Bytes.slice_field (record.header flags) record.identifier _

theorem systemUse_encodeWith :
    (record.encodeWith flags).drop (systemUseStart record.identifier.length) =
      record.systemUse := by
  have hfront : (record.header flags ++ record.identifier ++ record.padding).length =
      systemUseStart record.identifier.length := by
    simp only [List.length_append, header_length, padding_length, systemUseStart]
  rw [encodeWith, ← List.append_assoc, ← List.append_assoc, ← hfront, List.drop_left]

end Encoding

/-- A record is read back from each of its encodings, whatever bytes follow. -/
theorem parse?_encodeWith
    {record : DirectoryRecord}
    {flags : UInt8}
    (hlength : record.length.toNat = record.encodedLength)
    (hflags : FileFlags.ofByte flags = record.flags)
    (following : Bytes) :
    parse? (record.encodeWith flags ++ following) = some record := by
  have hwhole : (record.encodeWith flags ++ following).take record.length.toNat =
      record.encodeWith flags := by
    rw [hlength, ← encodeWith_length record flags, List.take_left]
  have hbyte := record.length.toNat_lt
  have hidentifier : ((record.encodeWith flags).byteAt 32).toNat = record.identifier.length := by
    show (UInt8.ofNat record.identifier.length).toNat = _
    rw [UInt8.toNat_ofNat']
    simp only [encodedLength, systemUseStart] at hlength
    omega
  have hfits : ¬ (record.length.toNat < headerLength ∨
      (record.encodeWith flags ++ following).length < record.length.toNat) := by
    rw [List.length_append, encodeWith_length, hlength, encodedLength, systemUseStart]
    omega
  have hholds : ¬ record.length.toNat < headerLength + record.identifier.length := by
    rw [hlength, encodedLength, systemUseStart]
    omega
  show (if record.length.toNat < headerLength ∨
      (record.encodeWith flags ++ following).length < record.length.toNat then none else _) = _
  rw [if_neg hfits, hwhole, hidentifier, if_neg hholds, identifier_encodeWith,
    systemUse_encodeWith]
  rw [encodeWith, sector_header, dataLength_header, recorded_header, volume_header]
  -- The bytes that stand alone are read where they were written.
  show some { record with flags := FileFlags.ofByte flags } = some record
  rw [hflags]

theorem parse?_of_encodes
    {record : DirectoryRecord}
    {bytes : Bytes}
    (h : record.Encodes bytes)
    (following : Bytes) :
    parse? (bytes ++ following) = some record := by
  obtain ⟨hlength, flags, hflags, rfl⟩ := h
  exact parse?_encodeWith hlength hflags following

theorem encodes_encode
    {record : DirectoryRecord}
    (h : record.length.toNat = record.encodedLength) :
    record.Encodes record.encode :=
  ⟨h, record.flags.toByte, FileFlags.ofByte_toByte record.flags, rfl⟩

theorem Encodes.length_eq
    {record : DirectoryRecord}
    {bytes : Bytes}
    (h : record.Encodes bytes) :
    bytes.length = record.length.toNat := by
  obtain ⟨hlength, flags, -, rfl⟩ := h
  rw [encodeWith_length, hlength]

end DirectoryRecord
end Iso
end Optical
