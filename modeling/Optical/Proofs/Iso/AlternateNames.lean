import Optical.Proofs.Iso.Entries
import Optical.Proofs.Text.Parts

/-!
# Alternate names in parts

A name that is too long for one NM entry is cut into parts. Each part stands in an entry of its own,
and the flags of all but the last say that the name goes on. Entries of other kinds may stand
anywhere, and what stands behind the last part makes no difference.

A reader decodes the parts one by one. So it finds the name exactly if every part is a text: a
character that is cut between two entries is not put together again.

The main statement is ofArea?_of_spells, and ofArea?_of_cut_character shows a name that is lost.
-/

namespace Optical
namespace Iso

open Text

/-- An NM entry with a part of a name. -/
def nameEntry (version flags : UInt8) (part : Bytes) : SystemUseEntry :=
  ⟨nameSignature, version, flags :: part⟩

/--
Entries spell the parts of a name, the last of them with the given flags.
All entries behind the last part count as following it, NM entries too.
-/
inductive Spells : List SystemUseEntry → List Bytes → UInt8 → Prop
  | other {entry : SystemUseEntry} {entries : List SystemUseEntry} {parts : List Bytes}
      {flags : UInt8} :
      entry.signature ≠ nameSignature →
      Spells entries parts flags →
      Spells (entry :: entries) parts flags
  | more {version before : UInt8} {part : Bytes} {entries : List SystemUseEntry}
      {parts : List Bytes} {flags : UInt8} :
      AlternateName.continues before = true →
      Spells entries parts flags →
      Spells (nameEntry version before part :: entries) (part :: parts) flags
  | last {version flags : UInt8} {part : Bytes} (following : List SystemUseEntry) :
      AlternateName.continues flags = false →
      Spells (nameEntry version flags part :: following) [part] flags

section Names

variable {entries : List SystemUseEntry}
variable {parts : List Bytes}
variable {flags : UInt8}

/-- An NM entry adds its part to the name that goes on behind it, if it goes on. -/
theorem ofEntries?_nameEntry
    (version flags : UInt8)
    (part : Bytes)
    (entries : List SystemUseEntry) :
    AlternateName.ofEntries? (nameEntry version flags part :: entries) =
      if AlternateName.continues flags = true then
        match AlternateName.ofEntries? entries with
        | some later => some ⟨later.flags, Utf8.decodeLossy part ++ later.name⟩
        | none => some ⟨flags, Utf8.decodeLossy part⟩
      else some ⟨flags, Utf8.decodeLossy part⟩ := by
  rw [AlternateName.ofEntries?]
  exact if_pos rfl

/-- Spelled parts are read one by one up to the last. -/
theorem Spells.ofEntries?_append
    (h : Spells entries parts flags)
    (following : List SystemUseEntry) :
    AlternateName.ofEntries? (entries ++ following) =
      some ⟨flags, parts.flatMap Utf8.decodeLossy⟩ := by
  induction h with
  | other hother _ ih =>
      rw [List.cons_append, AlternateName.ofEntries?, if_neg hother, ih]
  | more hgoes _ ih =>
      rw [List.cons_append, ofEntries?_nameEntry, if_pos hgoes, ih, List.flatMap_cons]
  | last _ hlast =>
      rw [List.cons_append, ofEntries?_nameEntry, if_neg (Bool.eq_false_iff.mp hlast),
        List.flatMap_singleton]

end Names

/--
**A name in parts.** Entries that spell the parts of a name are read as the parts one by one, with
the flags of the last, whatever bytes follow. That is the name exactly if no character is cut
between two parts.
-/
theorem ofArea?_of_spells
    {entries : List SystemUseEntry}
    {parts : List Bytes}
    {flags : UInt8}
    {name : List Char}
    (writable : ∀ entry ∈ entries, entry.IsWritable)
    (spells : Spells entries parts flags)
    (cut : parts.flatten = Utf8.encode name)
    (following : Bytes) :
    AlternateName.ofArea? (entries.flatMap SystemUseEntry.encode ++ following) =
        some ⟨flags, parts.flatMap Utf8.decodeLossy⟩ ∧
      (parts.flatMap Utf8.decodeLossy = name
        ↔
      ∀ part ∈ parts, ∃ text, part = Utf8.encode text) := by
  refine ⟨?_, Utf8.flatMap_decodeLossy_eq_iff cut⟩
  rw [AlternateName.ofArea?, systemUseEntries_flatMap_encode_append writable,
    spells.ofEntries?_append]

section Small

/-- An entry of another kind. -/
def otherEntry : SystemUseEntry := ⟨(0x52, 0x52), 1, [0x89]⟩

/-- A name of three letters in two entries, with entries of another kind before and between. -/
def smallEntries : List SystemUseEntry :=
  [otherEntry, nameEntry 1 1 [0x6E, 0xC3, 0xA9], otherEntry, nameEntry 1 0 [0x65],
    nameEntry 1 0 [0x78]]

/-- A name that is cut between two letters is found. -/
theorem ofArea?_of_spells_small :
    (∀ entry ∈ smallEntries, entry.IsWritable) ∧
      Spells smallEntries [[0x6E, 0xC3, 0xA9], [0x65]] 0 ∧
      [[0x6E, 0xC3, 0xA9], [0x65]].flatten = Utf8.encode ['n', 'é', 'e'] ∧
      AlternateName.ofArea? (smallEntries.flatMap SystemUseEntry.encode ++ [0x53, 0x54, 4, 1]) =
        some ⟨0, ['n', 'é', 'e']⟩ := by
  have hwritable : ∀ entry ∈ smallEntries, entry.IsWritable := by decide
  have hspells : Spells smallEntries [[0x6E, 0xC3, 0xA9], [0x65]] 0 :=
    .other (by decide) (.more rfl (.other (by decide) (.last _ rfl)))
  have hcut : [[0x6E, 0xC3, 0xA9], [0x65]].flatten = Utf8.encode ['n', 'é', 'e'] := by decide
  obtain ⟨hfound, hname⟩ := ofArea?_of_spells hwritable hspells hcut [0x53, 0x54, 4, 1]
  have htexts : ∀ part ∈ ([[0x6E, 0xC3, 0xA9], [0x65]] : List Bytes),
      ∃ text, part = Utf8.encode text := by
    rw [List.forall_mem_cons, List.forall_mem_singleton]
    exact ⟨⟨['n', 'é'], by decide⟩, ⟨['e'], by decide⟩⟩
  rw [hname.mpr htexts] at hfound
  exact ⟨hwritable, hspells, hcut, hfound⟩

/-- A letter of two bytes in two entries. -/
def cutEntries : List SystemUseEntry :=
  [nameEntry 1 1 [0xC3], nameEntry 1 0 [0xA9]]

/-- A letter that is cut is read as two ill-formed sequences. -/
theorem ofArea?_of_cut_character :
    (∀ entry ∈ cutEntries, entry.IsWritable) ∧
      Spells cutEntries [[0xC3], [0xA9]] 0 ∧
      [[0xC3], [0xA9]].flatten = Utf8.encode ['é'] ∧
      AlternateName.ofArea? (cutEntries.flatMap SystemUseEntry.encode) =
        some ⟨0, ['\uFFFD', '\uFFFD']⟩ ∧
      AlternateName.ofArea? (cutEntries.flatMap SystemUseEntry.encode) ≠ some ⟨0, ['é']⟩ := by
  have hread : AlternateName.ofArea? (cutEntries.flatMap SystemUseEntry.encode) =
      some ⟨0, ['\uFFFD', '\uFFFD']⟩ := by
    decide +kernel
  refine ⟨by decide, .more rfl (.last [] rfl), by decide, hread, ?_⟩
  rw [hread]
  decide

end Small

end Iso
end Optical
