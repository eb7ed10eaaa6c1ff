import Optical.Proofs.Iso.Agreement
import Optical.Proofs.Iso.FileNames
import Optical.Proofs.Iso.Layout
import Optical.Proofs.Iso.Tables
import Optical.Proofs.Text.Utf16

/-!
# Names of wide tables

An enhanced descriptor may announce that the identifiers of its table are wide text. An identifier is
read by itself, without a look at the descriptor: it is taken for wide text if one of its bytes is
zero. So the name that was written is shown if its bytes have a zero among them, as those of every
name with a Latin letter have. Otherwise another name is shown, since no text can be read back from
the wrong character set.

The main statement is buildTree_wide_names. It goes through the nodes of a tree and the records of its
directories side by side.
-/

namespace Optical
namespace Iso

open Text

section Identifiers

variable {text : List Char}

/-- Wide text is read as it was written if a byte of it is zero, and not otherwise. -/
theorem decodeIdentifier_encodeBE_iff
    (hsome : text ≠ []) :
    decodeIdentifier (Utf16.encodeBE text) = text ↔ 0 ∈ Utf16.encodeBE text := by
  rw [decodeIdentifier]
  split
  · next hzero =>
      rw [List.contains_iff_mem] at hzero
      simp [hzero]
  · next hzero =>
      rw [List.contains_iff_mem] at hzero
      simp [hzero, Utf16.decodeLossy_encodeBE_ne hsome hzero]

/-- Wide text has two bytes for each unit. -/
theorem encodeBE_ne_singleton
    (hsome : text ≠ [])
    (b : UInt8) :
    Utf16.encodeBE text ≠ [b] := by
  intro hbytes
  have hread := Utf16.decodeBE_encodeBE text
  rw [hbytes] at hread
  exact hsome hread.symm

theorem name_eq_iff_of_wide
    {record : DirectoryRecord}
    (hsome : text ≠ [])
    (hidentifier : record.identifier = Utf16.encodeBE text) :
    record.name = text ↔ 0 ∈ record.identifier := by
  rw [DirectoryRecord.name, hidentifier, if_neg (encodeBE_ne_singleton hsome 0),
    if_neg (encodeBE_ne_singleton hsome 1), decodeIdentifier_encodeBE_iff hsome]

end Identifiers

section Tables

/-- A table with a root, whose enhanced descriptor announces wide identifiers. -/
def Volume.IsWide (volume : Volume) (table : Nat) (root : DirectoryRecord) : Prop :=
  ∃ descriptor, volume.descriptors[table]? = some descriptor ∧
    descriptor.kind = .enhanced ∧ descriptor.isJoliet = true ∧ descriptor.root = some root

/-- The node is named by the text that was written as its identifier, if a byte of it is zero. -/
def NamedAsWritten (node : Node Attributes) (record : DirectoryRecord) : Prop :=
  ∀ text, text ≠ [] → record.identifier = Utf16.encodeBE text →
    (node.name = String.ofList text ↔ 0 ∈ record.identifier)

/-- A node that shows the identifier of its record. -/
theorem namedAsWritten_of_describes
    {node : Node Attributes}
    (hshown : ∃ record clean, node = nodeOf false record clean)
    {record : DirectoryRecord}
    (hdescribes : Describes node record) :
    NamedAsWritten node record := by
  intro text hsome hidentifier
  have hname : node.name = String.ofList record.name := by
    obtain ⟨attributes, hattributes, hread, -⟩ := hdescribes.attributes
    obtain ⟨found, clean, rfl⟩ := hshown
    cases hattributes
    exact hread
  rw [hname, String.ofList_inj, name_eq_iff_of_wide hsome hidentifier]

end Tables

/--
**The names of a wide table.** The tree of such a table with its identifiers and the list of its
records fail with the same error, or the nodes below the root stand one by one for the records that
are entries of their own. A node whose identifier is a text written in big-endian units has this text
for its name exactly if one of the bytes is zero.
-/
theorem buildTree_wide_names
    (image : Image)
    {volume : Volume}
    {table : Nat}
    {root : DirectoryRecord}
    (hwide : volume.IsWide table root) :
    Lockstep
      (fun tree records =>
        List.Forall₂ NamedAsWritten (tree.entries.toList.tail.map Entry.toNode)
          (properRecords records))
      (image.eval (volume.buildTree table false))
      (image.eval (collectRecords root.extent)) := by
  obtain ⟨descriptor, hplace, -, -, hroot⟩ := hwide
  have hread : volume.root table = .ok root := by
    rw [Volume.root, hplace]
    simp only [hroot]
  rw [Volume.eval_buildTree_of_root hread]
  have hlockstep := (exists_contents_lockstep image false root).and_left
    fun tree => exists_record_of_mem_tail
  refine hlockstep.mono fun tree records h => ?_
  obtain ⟨hshown, contents, rfl, hdescribe⟩ := h
  rw [FileTree.map_toNode_tail_ofForest] at hshown ⊢
  have hboth := (List.forall₂_and_left _ _).mpr ⟨hshown, hdescribe⟩
  exact hboth.imp fun node record h => namedAsWritten_of_describes h.1 h.2

section Small

/-- The root of a table with two files. -/
def wideRoot : DirectoryRecord := .plain [0] (.ofByte 0x02) 0 2048

/-- Empty files whose names are written with a zero byte and without one. -/
def wideCatalog : Catalog :=
  .file (.plain (Utf16.encodeBE ['A', '中']) (.ofByte 0) 0 0) []
    (.file (.plain (Utf16.encodeBE ['中']) (.ofByte 0) 0 0) [] .nil)

/-- An enhanced descriptor whose escape sequence announces wide names. -/
def wideDescriptor : Bytes :=
  [2] ++ VolumeHeader.magic ++ [1] ++ List.replicate 81 0 ++ [0x25, 0x2F, 0x45] ++
    List.replicate 65 0 ++ wideRoot.encode

/-- The directory in the first sector, and nothing behind it. -/
def wideSectors : List Bytes :=
  (smallTop 0 ++ wideCatalog.records).flatMap DirectoryRecord.encode :: List.replicate 15 []

/-- An image with the descriptor in sector 16. -/
def wideImage : Image :=
  .ofSectors (wideSectors ++ [wideDescriptor])

/-- The volume of the image. -/
def wideVolume : Volume :=
  ⟨[.parse (Image.fillSector wideDescriptor) .enhanced 0 firstDescriptorSector]⟩

theorem wideSectors_fit :
    ∀ bytes ∈ wideSectors ++ [wideDescriptor], bytes.length ≤ sectorSize := by
  decide +kernel

theorem eval_volumeRead_wideImage :
    wideImage.eval Volume.read = .ok wideVolume ∧ wideVolume.IsWide 0 wideRoot := by
  have hkind : scanStep (Image.fillSector wideDescriptor) = .keep .enhanced := by decide +kernel
  refine ⟨eval_volumeRead_ofSectors wideSectors_fit rfl hkind, _, rfl, ?_⟩
  decide +kernel

theorem packed_wideImage :
    PackedFrom wideImage 1 0 (smallTop 0 ++ wideCatalog.records) :=
  packedFrom_ofSectors wideSectors_fit (by decide) rfl

/-- The records of the table, listed one by one. -/
theorem eval_collectRecords_wideImage :
    wideImage.eval (collectRecords wideRoot.extent) =
      .ok (smallTop 0 ++ wideCatalog.records) := by
  have hlisting : wideImage.eval (readDirectory wideRoot.extent) =
      .ok ⟨smallTop 0 ++ wideCatalog.records, true⟩ :=
    eval_readDirectory_of_packed packed_wideImage
  rw [collectRecords_eq, readRecords, if_neg (by simp), Image.eval_bind, hlisting]
  rfl

/-- The tree of the table. -/
theorem eval_buildTree_wideImage :
    wideImage.eval (wideVolume.buildTree 0 false) =
      .ok (FileTree.preorder (rootNode wideRoot true) (wideCatalog.nodes.map Prod.fst)) := by
  have hempty : wideImage.part 0 0 = [] := List.eq_nil_of_length_eq_zero (by simp)
  have hlaidOut : LaidOut wideImage [0] wideCatalog :=
    .file (by decide) (by decide) rfl rfl hempty
      (.file (by decide) (by decide) rfl rfl hempty (.nil _))
  exact eval_buildTree_of_laidOut (by decide) ⟨_, _, rfl, rfl, packed_wideImage⟩ hlaidOut

/-- A name with a Latin letter is shown as it was written. -/
theorem buildTree_wide_names_small :
    ∃ tree node,
      wideImage.eval Volume.read = .ok wideVolume ∧
      wideVolume.IsWide 0 wideRoot ∧
      wideImage.eval (wideVolume.buildTree 0 false) = .ok tree ∧
      (tree.entries.toList.tail.map Entry.toNode)[0]? = some node ∧
      node.name = String.ofList ['A', '中'] := by
  obtain ⟨hread, hwide⟩ := eval_volumeRead_wideImage
  have hnames := buildTree_wide_names wideImage hwide
  rw [eval_buildTree_wideImage, eval_collectRecords_wideImage] at hnames
  cases hnames with
  | done hnames =>
      refine ⟨_, _, hread, hwide, eval_buildTree_wideImage, rfl, ?_⟩
      exact (hnames.get Nat.zero_lt_two Nat.zero_lt_two ['A', '中'] (by simp) rfl).mpr (by decide)

/-- A name without a zero byte is shown as another one. -/
theorem wideImage_misread :
    ∃ tree records node record,
      wideImage.eval Volume.read = .ok wideVolume ∧
      wideVolume.IsWide 0 wideRoot ∧
      wideImage.eval (wideVolume.buildTree 0 false) = .ok tree ∧
      wideImage.eval (collectRecords wideRoot.extent) = .ok records ∧
      (tree.entries.toList.tail.map Entry.toNode)[1]? = some node ∧
      (properRecords records)[1]? = some record ∧
      record.identifier = Utf16.encodeBE ['中'] ∧
      node.name = "N-" ∧ node.name ≠ String.ofList ['中'] :=
  ⟨_, _, _, _, eval_volumeRead_wideImage.1, eval_volumeRead_wideImage.2, eval_buildTree_wideImage,
    eval_collectRecords_wideImage, rfl, rfl, rfl, by decide +kernel, by decide +kernel⟩

end Small

end Iso
end Optical
