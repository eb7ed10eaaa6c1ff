import Mathlib.Algebra.Group.Nat.Defs
import Mathlib.Data.Vector.Defs
import Optical.Proofs.Bytes.Fields
import Optical.Udf.FileEntry

/-!
# File entries read back

A writer puts the fields of a file entry at fixed offsets, and between them bytes that say nothing
about the file. Behind the fixed part come the extended attributes and then the area of the extents;
the lengths of both are the last two fields of the fixed part. An entry has the time of its last
change at 84, the two lengths at 168 and 172, and its fixed part ends at 176; an extended entry has
them at 92, 208, 212 and 216.

What is read are the fields and the first extent of the area. It begins where the extended attributes
end, however long they are, and nothing else in the entry has an influence on it.

* EntryLayout is what a writer may choose for the same fields, and encode what it then writes;
* FirstExtent says what is read of an area;
* parse_encode_firstExtent says that the fields and the first extent are read back.
-/

namespace Optical

namespace StampTime

/-- A zone can be stored: it is a number of twelve bits with a sign, and not the one for no zone. -/
def IsStorable (t : StampTime) : Prop :=
  ∀ zone ∈ t.zone, -0x800 ≤ zone ∧ zone < 0x800 ∧ zone ≠ noZone

/-- The field of the zone. The four bits above the zone tell what kind of time it is. -/
def zoneField (t : StampTime) (kind : Fin 16) : UInt16 :=
  UInt16.ofNat (kind * 0x1000 + (t.zone.getD noZone % 0x1000).toNat)

/-- The twelve bytes of a time. -/
def encode (t : StampTime) (kind : Fin 16) : Bytes :=
  Bytes.ofNatLE 2 (t.zoneField kind).toNat ++ (Bytes.ofNatLE 2 t.year.toUInt16.toNat ++
    [t.month, t.day, t.hour, t.minute, t.second, t.centiseconds, t.hundredsOfMicroseconds,
      t.microseconds])

section Times

variable {t : StampTime}

theorem encode_length (kind : Fin 16) :
    (t.encode kind).length = 12 := rfl

/-- A zone that can be stored is read back, and so is none. -/
theorem signed12_zoneField
    (h : t.IsStorable)
    (kind : Fin 16) :
    signed12 (t.zoneField kind) = t.zone.getD noZone := by
  have hrange : -0x800 ≤ t.zone.getD noZone ∧ t.zone.getD noZone < 0x800 := by
    cases hzone : t.zone with
    | none => decide
    | some zone => exact ⟨(h zone hzone).1, (h zone hzone).2.1⟩
  have hkind := kind.isLt
  rw [signed12, zoneField, UInt16.toNat_ofNat']
  generalize t.zone.getD noZone = zone at hrange ⊢
  split <;> omega

/-- A time is read back from its twelve bytes. -/
theorem ofBytes_encode
    (h : t.IsStorable)
    (kind : Fin 16) :
    ofBytes (t.encode kind) = t := by
  have hzone : Bytes.u16 (t.encode kind) 0 = t.zoneField kind :=
    Bytes.u16_field [] _ (t.zoneField kind)
  have hyear : Bytes.u16 (t.encode kind) 2 = t.year.toUInt16 :=
    Bytes.u16_field (Bytes.ofNatLE 2 (t.zoneField kind).toNat) _ t.year.toUInt16
  have hgiven : (if t.zone.getD noZone = noZone then none else some (t.zone.getD noZone)) =
      t.zone := by
    cases hzone : t.zone with
    | none => rfl
    | some zone => exact if_neg (h zone hzone).2.2
  rw [ofBytes, hzone, hyear, signed12_zoneField h, hgiven]
  rfl

/-- The times that can be stored are those that can be read. -/
theorem isStorable_iff :
    t.IsStorable ↔ ∃ raw, ofBytes raw = t := by
  constructor
  · exact fun h => ⟨t.encode 0, ofBytes_encode h 0⟩
  · rintro ⟨raw, rfl⟩ zone hzone
    have hgiven : signed12 (raw.u16 0) ≠ noZone ∧ signed12 (raw.u16 0) = zone := by
      simpa [ofBytes] using hzone
    obtain ⟨hsome, rfl⟩ := hgiven
    refine ⟨?_, ?_, hsome⟩ <;>
      · rw [signed12]
        split <;> omega

end Times

end StampTime

namespace Udf

/-- Where the two forms are read. -/
theorem EntryForm.of_eq (extended : Bool) :
    of extended =
      ⟨if extended then 92 else 84, if extended then 208 else 168,
        if extended then 212 else 172, if extended then 216 else 176⟩ := by
  cases extended <;> rfl

/-- What a writer may choose for an entry of a form, whatever the fields are that are read. -/
structure EntryLayout (extended : Bool) where
  /-- The tag, and what stands between it and the type of the file. -/
  head : List.Vector UInt8 27
  /-- The place of the entry above. -/
  parent : List.Vector UInt8 6
  /-- The format of the records of the file. -/
  records : List.Vector UInt8 6
  /-- What stands between the information length and the time of the last change. -/
  before : List.Vector UInt8 (if extended then 92 - 64 else 84 - 64)
  timeKind : Fin 16
  /-- What stands between the time of the last change and the two lengths. -/
  behind : List.Vector UInt8 (if extended then 208 - 104 else 168 - 96)
  /-- The extended attributes. -/
  attributes : Bytes
  /-- The area of the extents. -/
  area : Bytes
  attributes_length : attributes.length < 2 ^ 32
  area_length : area.length < 2 ^ 32

/-- What is read of an area of extents. -/
inductive FirstExtent : Bytes → Allocation → Prop where
  /-- The area is too short for an extent. -/
  | missing {area : Bytes} (short : area.length < 8) : FirstExtent area ⟨0, 0⟩
  /-- The two top bits of the length field do not belong to the length. -/
  | stored (length location : UInt32) (later : Bytes) :
      FirstExtent
        (Bytes.ofNatLE 4 length.toNat ++ (Bytes.ofNatLE 4 location.toNat ++ later))
        ⟨UInt32.ofNat (length.toNat % 2 ^ 30), location⟩

namespace FileEntry

/-- The bytes of an entry before the time of the last change. -/
def leading (entry : FileEntry) (layout : EntryLayout entry.extended) : Bytes :=
  layout.head.toList
    ++ [entry.fileType]
    ++ layout.parent.toList
    ++ Bytes.ofNatLE 2 entry.icbFlags.toNat
    ++ Bytes.ofNatLE 4 entry.uid.toNat
    ++ Bytes.ofNatLE 4 entry.gid.toNat
    ++ Bytes.ofNatLE 4 entry.permissions.toNat
    ++ Bytes.ofNatLE 2 entry.links.toNat
    ++ layout.records.toList
    ++ Bytes.ofNatLE 8 entry.informationLength.toNat
    ++ layout.before.toList

/-- The bytes of an entry before the two lengths. -/
def front (entry : FileEntry) (layout : EntryLayout entry.extended) : Bytes :=
  entry.leading layout ++ (entry.modified.encode layout.timeKind ++ layout.behind.toList)

/-- The bytes of an entry. -/
def encode (entry : FileEntry) (layout : EntryLayout entry.extended) : Bytes :=
  entry.front layout
    ++ Bytes.ofNatLE 4 layout.attributes.length
    ++ Bytes.ofNatLE 4 layout.area.length
    ++ layout.attributes
    ++ layout.area

section Fields

variable (entry : FileEntry)
variable (layout : EntryLayout entry.extended)

theorem leading_length :
    (entry.leading layout).length = if entry.extended then 92 else 84 := by
  simp only [leading, List.length_append, List.Vector.toList_length, List.length_singleton,
    Bytes.ofNatLE_length]
  cases entry.extended <;> rfl

theorem front_length :
    (entry.front layout).length = if entry.extended then 208 else 168 := by
  simp only [front, List.length_append, leading_length, StampTime.encode_length,
    List.Vector.toList_length]
  cases entry.extended <;> rfl

/-- The fields before the time of the last change are read back one by one. -/
theorem parse_leading_append (after : Bytes) :
    parse (entry.leading layout ++ after) entry.extended =
      { entry with
        modified := .ofBytes
          ((entry.leading layout ++ after).slice (EntryForm.of entry.extended).modifiedAt 12)
        allocation :=
          allocationOf (entry.leading layout ++ after) (EntryForm.of entry.extended) } := by
  simp [parse, leading]

/-- The time of the last change stands behind the leading fields. -/
theorem modified_encode (following : Bytes) :
    Bytes.slice (entry.encode layout ++ following) (if entry.extended then 92 else 84) 12 =
      entry.modified.encode layout.timeKind := by
  rw [← leading_length entry layout, ← StampTime.encode_length (t := entry.modified)]
  simp only [encode, front, List.append_assoc]
  exact Bytes.slice_field _ _ _

/-- The first of the two lengths tells how long the extended attributes are. -/
theorem attributeLength_encode (following : Bytes) :
    (Bytes.u32 (entry.encode layout ++ following)
      (if entry.extended then 208 else 168)).toNat = layout.attributes.length := by
  rw [← front_length entry layout]
  simp only [encode, List.append_assoc]
  exact Bytes.toNat_u32_field _ _ layout.attributes_length

theorem areaLength_encode (following : Bytes) :
    (Bytes.u32 (entry.encode layout ++ following)
      (if entry.extended then 212 else 172)).toNat = layout.area.length := by
  have hplace : (entry.front layout ++ Bytes.ofNatLE 4 layout.attributes.length).length =
      if entry.extended then 212 else 172 := by
    rw [List.length_append, front_length, Bytes.ofNatLE_length]
    cases entry.extended <;> rfl
  rw [← hplace, encode, List.append_assoc, List.append_assoc, List.append_assoc]
  exact Bytes.toNat_u32_field _ _ layout.area_length

/-- The area stands behind the extended attributes. -/
theorem u32_encode_area (following : Bytes) (offset : Nat) :
    Bytes.u32 (entry.encode layout ++ following)
      ((if entry.extended then 216 else 176) + layout.attributes.length + offset) =
        Bytes.u32 (layout.area ++ following) offset := by
  have hplace : (if entry.extended then 216 else 176) + layout.attributes.length =
      (entry.front layout ++ Bytes.ofNatLE 4 layout.attributes.length
        ++ Bytes.ofNatLE 4 layout.area.length ++ layout.attributes).length := by
    simp only [List.length_append, front_length, Bytes.ofNatLE_length]
    congr 1
    cases entry.extended <;> rfl
  rw [hplace, encode, List.append_assoc, Bytes.u32_append_of_le (Nat.le_add_right _ _),
    Nat.add_sub_cancel_left]

/-- The extent is looked for behind the extended attributes. -/
theorem allocationOf_encode (following : Bytes) :
    allocationOf (entry.encode layout ++ following) (EntryForm.of entry.extended) =
      if 8 ≤ layout.area.length then .parse (layout.area ++ following) 0 else .none := by
  have hlength := u32_encode_area entry layout following 0
  have hlocation := u32_encode_area entry layout following 4
  rw [Nat.add_zero] at hlength
  rw [EntryForm.of_eq]
  simp only [allocationOf, Allocation.parse, areaLength_encode, attributeLength_encode, hlength,
    hlocation, Nat.zero_add]

end Fields

end FileEntry

section Extents

/-- Every area has a first extent or none. -/
theorem exists_firstExtent
    (area : Bytes) :
    ∃ allocation, FirstExtent area allocation := by
  by_cases hshort : area.length < 8
  · exact ⟨_, .missing hshort⟩
  · have hlength : Bytes.ofNatLE 4 (area.u32 0).toNat = area.slice 0 4 :=
      Bytes.ofNatLE_u32 (by omega)
    have hlocation : Bytes.ofNatLE 4 (area.u32 4).toNat = area.slice 4 4 :=
      Bytes.ofNatLE_u32 (by omega)
    have harea : Bytes.ofNatLE 4 (area.u32 0).toNat ++
        (Bytes.ofNatLE 4 (area.u32 4).toNat ++ area.drop 8) = area := by
      rw [hlength, hlocation, Bytes.slice_append_drop area 4 4, Bytes.slice_append_drop area 0 4,
        List.drop_zero]
    rw [← harea]
    exact ⟨_, .stored _ _ _⟩

variable {area : Bytes}
variable {allocation : Allocation}

/-- Only the first eight bytes of an area are looked at. -/
theorem FirstExtent.of_take_eq
    (h : FirstExtent area allocation)
    {other : Bytes}
    (hsame : other.take 8 = area.take 8) :
    FirstExtent other allocation := by
  cases h with
  | missing short =>
      have hlength := congrArg List.length hsame
      rw [List.length_take, List.length_take] at hlength
      exact .missing (by omega)
  | stored length location later =>
      have hpair : (Bytes.ofNatLE 4 length.toNat ++ Bytes.ofNatLE 4 location.toNat).length = 8 := by
        simp
      rw [← List.append_assoc, List.take_left' hpair] at hsame
      rw [← List.take_append_drop 8 other, hsame, List.append_assoc]
      exact .stored length location (other.drop 8)

/-- The first extent of an area is the one that is read. -/
theorem FirstExtent.parse_eq
    (h : FirstExtent area allocation)
    (following : Bytes) :
    (if 8 ≤ area.length then Allocation.parse (area ++ following) 0 else Allocation.none) =
      allocation := by
  cases h with
  | missing short => exact if_neg (Nat.not_le.mpr short)
  | stored length location later =>
      have hlong : 8 ≤ (Bytes.ofNatLE 4 length.toNat ++
          (Bytes.ofNatLE 4 location.toNat ++ later)).length := by
        simp only [List.length_append, Bytes.ofNatLE_length]
        omega
      rw [if_pos hlong, Allocation.parse, List.append_assoc, List.append_assoc]
      rw [Bytes.u32_ofNatLE_append, Bytes.u32_append_of_le (by simp), Bytes.ofNatLE_length]
      rw [Bytes.u32_ofNatLE_append, and_lengthMask]
      rfl

end Extents

namespace FileEntry

/--
**File entries are read back.** Whatever the fields of an entry of either form are, whatever stands
between them, and however long the extended attributes and the area of the extents are, the fields
are read back together with the first extent of the area, or with none if the area is shorter than
an extent. Another layout of the same fields is read alike if its area begins with the same eight
bytes.
-/
theorem parse_encode_firstExtent
    {entry : FileEntry}
    (htime : entry.modified.IsStorable)
    (layout : EntryLayout entry.extended) :
    (∃ allocation, FirstExtent layout.area allocation) ∧
      ∀ (allocation : Allocation) (other : EntryLayout entry.extended) (following : Bytes),
        FirstExtent layout.area allocation →
        other.area.take 8 = layout.area.take 8 →
        parse (entry.encode other ++ following) entry.extended = { entry with allocation } := by
  refine ⟨exists_firstExtent layout.area, fun allocation other following hfirst hsame => ?_⟩
  have hmodified : StampTime.ofBytes
      (Bytes.slice (entry.encode other ++ following)
        (EntryForm.of entry.extended).modifiedAt 12) = entry.modified := by
    rw [EntryForm.of_eq, modified_encode, StampTime.ofBytes_encode htime]
  have hallocation := allocationOf_encode entry other following
  rw [(hfirst.of_take_eq hsame).parse_eq] at hallocation
  -- The time and the extent are found by the whole entry, the other fields by the bytes before them.
  have hleading : ∃ after, entry.encode other ++ following = entry.leading other ++ after :=
    ⟨_, by simp only [encode, front, List.append_assoc]; rfl⟩
  obtain ⟨after, hafter⟩ := hleading
  rw [hafter] at hmodified hallocation ⊢
  rw [parse_leading_append, hmodified, hallocation]

section Small

/-- An entry of either form of a plain file that was changed an hour west of Greenwich. -/
def smallEntry (extended : Bool) : FileEntry where
  extended
  fileType := plainType
  icbFlags := 0
  uid := 1000
  gid := 0xFFFFFFFF
  permissions := 0x1084
  links := 1
  informationLength := 5
  modified := ⟨some (-60), 2024, 2, 29, 23, 59, 59, 99, 0, 1⟩
  allocation := .none

/-- A layout with five bytes of attributes, and with an extent that is recorded as not allocated. -/
def smallLayout (extended : Bool) : EntryLayout extended where
  head := .replicate 27 0
  parent := .replicate 6 0xFF
  records := .replicate 6 0
  before := .replicate _ 0xFF
  timeKind := 1
  behind := .replicate _ 0
  attributes := [8, 0, 0, 0, 8]
  area := Bytes.ofNatLE 4 0x40000005 ++ (Bytes.ofNatLE 4 9 ++ [0xFF])
  attributes_length := by decide
  area_length := by decide

/--
The extent is found behind attributes of odd length, and its length without the mark, in an entry and
in an extended entry.
-/
theorem parse_encode_firstExtent_small :
    ((smallEntry false).modified.IsStorable ∧
      FirstExtent (smallLayout false).area ⟨5, 9⟩ ∧
      parse ((smallEntry false).encode (smallLayout false) ++ [0xFF]) false =
        { smallEntry false with allocation := ⟨5, 9⟩ }) ∧
    (smallEntry true).modified.IsStorable ∧
      FirstExtent (smallLayout true).area ⟨5, 9⟩ ∧
      parse ((smallEntry true).encode (smallLayout true) ++ [0xFF]) true =
        { smallEntry true with allocation := ⟨5, 9⟩ } := by
  have htime (extended : Bool) : (smallEntry extended).modified.IsStorable := by
    rintro zone ⟨⟩
    decide
  have hfirst (extended : Bool) : FirstExtent (smallLayout extended).area ⟨5, 9⟩ :=
    .stored 0x40000005 9 [0xFF]
  refine ⟨⟨htime false, hfirst false, ?plain⟩, htime true, hfirst true, ?extended⟩
  case plain =>
    exact (parse_encode_firstExtent (htime false) (smallLayout false)).2
      ⟨5, 9⟩ (smallLayout false) [0xFF] (hfirst false) rfl
  case extended =>
    exact (parse_encode_firstExtent (htime true) (smallLayout true)).2
      ⟨5, 9⟩ (smallLayout true) [0xFF] (hfirst true) rfl

end Small

end FileEntry

end Udf
end Optical
