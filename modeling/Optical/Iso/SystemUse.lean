import Optical.Text.Utf8

/-!
# System use areas

The end of a directory record may hold a list of tagged entries. Each has a two-letter signature,
its length in bytes, a version and data. The list ends at an entry with the signature ST, at a
length that cannot be right, or where fewer than four bytes are left.

Two signatures matter here: NM entries spell a longer name for the file, perhaps in several parts,
and a PX entry gives its POSIX attributes.

* systemUseEntries lists the entries of an area;
* SystemUseCursor gives them one at a time.
-/

namespace Optical
namespace Iso

/-- The two letters at the start of an entry. -/
abbrev Signature := UInt8 × UInt8

/-- The signature NM of a part of an alternate name. -/
def nameSignature : Signature := (0x4E, 0x4D)

/-- The signature PX of POSIX attributes. -/
def posixSignature : Signature := (0x50, 0x58)

/-- The signature ST of the end of the list. -/
def stopSignature : Signature := (0x53, 0x54)

/-- Bytes of an entry before its data. -/
def entryHeaderLength : Nat := 4

/-- An entry of a system use area. -/
structure SystemUseEntry where
  signature : Signature
  version : UInt8
  data : Bytes
deriving DecidableEq, Repr

namespace SystemUseEntry

/-- The length of the entry in bytes, header included. -/
def length (entry : SystemUseEntry) : Nat :=
  entryHeaderLength + entry.data.length

end SystemUseEntry

/-- The entries of an area, up to the first that ends the list. -/
def systemUseEntries : Bytes → List SystemUseEntry
  | s0 :: s1 :: length :: version :: rest =>
      if length.toNat < entryHeaderLength ∨ entryHeaderLength + rest.length < length.toNat then []
      else if (s0, s1) = stopSignature then []
      else
        let size := length.toNat - entryHeaderLength
        ⟨(s0, s1), version, rest.take size⟩ :: systemUseEntries (rest.drop size)
  | _ => []
termination_by area => area.length
decreasing_by simp only [List.length_drop, List.length_cons]; omega

/-- A place in an area whose entries are taken one at a time. -/
structure SystemUseCursor where
  area : Bytes
  offset : Nat
deriving DecidableEq, Repr

namespace SystemUseCursor

/-- The place before the first entry. -/
def ofArea (area : Bytes) : SystemUseCursor := ⟨area, 0⟩

/--
The next entry. An entry that ends the list leaves the cursor at the end of the area; where fewer
than four bytes are left it stays.
-/
def next? (cursor : SystemUseCursor) : Option SystemUseEntry × SystemUseCursor :=
  match cursor.area.drop cursor.offset with
  | s0 :: s1 :: length :: version :: rest =>
      if length.toNat < entryHeaderLength ∨ entryHeaderLength + rest.length < length.toNat then
        (none, { cursor with offset := cursor.area.length })
      else if (s0, s1) = stopSignature then (none, { cursor with offset := cursor.area.length })
      else
        (some ⟨(s0, s1), version, rest.take (length.toNat - entryHeaderLength)⟩,
          { cursor with offset := cursor.offset + length.toNat })
  | _ => (none, cursor)

end SystemUseCursor

/-- The first entry with a signature. -/
def findEntry? (signature : Signature) (area : Bytes) : Option SystemUseEntry :=
  (systemUseEntries area).find? (·.signature == signature)

/-- A name from NM entries, with the flags of the last entry used. -/
structure AlternateName where
  flags : UInt8
  name : List Char
deriving DecidableEq, Repr

namespace AlternateName

/-- The bit that says that the name goes on in the next NM entry. -/
def continues (flags : UInt8) : Bool :=
  flags &&& 0x01 != 0

/-- The name that NM entries spell, part by part, until one of them is the last. -/
def ofEntries? : List SystemUseEntry → Option AlternateName
  | [] => none
  | entry :: entries =>
      if entry.signature = nameSignature then
        let flags := entry.data.byteAt 0
        let part := Text.Utf8.decodeLossy (entry.data.drop 1)
        if continues flags then
          match ofEntries? entries with
          | some later => some ⟨later.flags, part ++ later.name⟩
          | none => some ⟨flags, part⟩
        else some ⟨flags, part⟩
      else ofEntries? entries

/-- The alternate name in an area. -/
def ofArea? (area : Bytes) : Option AlternateName :=
  ofEntries? (systemUseEntries area)

end AlternateName

/-- The attributes of a PX entry. -/
structure PosixAttributes where
  mode : UInt32
  links : UInt32
  uid : UInt32
  gid : UInt32
deriving DecidableEq, Repr

namespace PosixAttributes

/-- The permission bits of the mode. -/
def permissions (posix : PosixAttributes) : UInt32 :=
  posix.mode &&& 0xFFF

/-- The type in the mode is that of a directory. -/
def isDirectory (posix : PosixAttributes) : Bool :=
  posix.mode &&& 0xF000 == 0x4000

/-- The attributes in the first PX entry of an area; one that is too short counts as none. -/
def ofArea? (area : Bytes) : Option PosixAttributes := do
  let data := (← findEntry? posixSignature area).data
  if data.length < 32 then none
  else some ⟨data.u32both 0, data.u32both 8, data.u32both 16, data.u32both 24⟩

end PosixAttributes
end Iso
end Optical
