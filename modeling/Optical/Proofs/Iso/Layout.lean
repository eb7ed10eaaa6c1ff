import Optical.Content
import Optical.Proofs.FileTree.Preorder
import Optical.Proofs.Iso.Packing
import Optical.Proofs.Iso.Walk

/-!
# Laid-out directory trees read back

A catalog is a directory tree with everything that a writer decides about it: the record of each
entry, in order, with the place of its contents. An image lays a catalog out if every directory is
packed at its extent, behind a record for itself and one for its parent, and the contents of every
file stand at their extent. Places may be shared, but on no way from the root does a directory begin
at the sector of one before it.

The tree of such an image is the catalog, with the names that the identifiers stand for, and the
contents of every file are read back. The proof is an induction on the layout: each of its cases
gives the tree of one record, and the packed sectors give the records of a directory.
-/

namespace Optical
namespace Iso

/-- The entries of a directory and of those inside it, in order. -/
inductive Catalog where
  | nil
  | file (record : DirectoryRecord) (contents : Bytes) (others : Catalog)
  | directory (record : DirectoryRecord) (inside others : Catalog)

namespace Catalog

/-- The records of the entries, those inside directories left out. -/
def records : Catalog → List DirectoryRecord
  | nil => []
  | file record _ others => record :: others.records
  | directory record _ others => record :: others.records

/-- The number of levels of directories. -/
def depth : Catalog → Nat
  | nil => 0
  | file _ _ others => others.depth
  | directory _ inside others => max (inside.depth + 1) others.depth

/-- The node of an entry. -/
def nodeFor (record : DirectoryRecord) (isDirectory : Bool) : Node Attributes where
  name := String.ofList (decodeIdentifier record.identifier)
  size := record.dataLength.toNat
  sector := record.sector.toNat
  isDirectory := isDirectory
  attributes := .iso (.ofRecord record true)

/-- The nodes of the entries, those of files with their contents. -/
def nodes : Catalog → Forest (Node Attributes × Option Bytes)
  | nil => .nil
  | file record contents others => .cons (nodeFor record false, some contents) .nil others.nodes
  | directory record inside others => .cons (nodeFor record true, none) inside.nodes others.nodes

end Catalog

/-- A directory is packed at an extent, with records for itself, its parent and its entries. -/
def DirectoryAt (image : Image) (extent : Extent) (entries : Catalog) : Prop :=
  ∃ self parent : DirectoryRecord,
    self.identifier = [0] ∧ parent.identifier = [1] ∧
    PackedFrom image extent.sectorCount extent.sector (self :: parent :: entries.records)

/-- The entries of a directory are laid out, given the sectors of the directories on the way. -/
inductive LaidOut (image : Image) : (above : List Nat) → Catalog → Prop where
  | nil (above : List Nat) : LaidOut image above .nil
  | file {above : List Nat} {record : DirectoryRecord} {contents : Bytes} {others : Catalog} :
      record.identifier ≠ [0] →
      record.identifier ≠ [1] →
      record.flags.directory = false →
      record.dataLength.toNat = contents.length →
      image.part record.extent.byteOffset contents.length = contents →
      LaidOut image above others →
      LaidOut image above (.file record contents others)
  | directory {above : List Nat} {record : DirectoryRecord} {inside others : Catalog} :
      record.identifier ≠ [0] →
      record.identifier ≠ [1] →
      record.flags = .ofByte 0x02 →
      record.extent.sector ∉ above →
      DirectoryAt image record.extent inside →
      LaidOut image (record.extent.sector :: above) inside →
      LaidOut image above others →
      LaidOut image above (.directory record inside others)

section Records

variable {image : Image}
variable {above : List Nat}
variable {record : DirectoryRecord}

theorem isTopLevel_eq_false
    (hself : record.identifier ≠ [0])
    (hparent : record.identifier ≠ [1]) :
    record.isTopLevel = false := by
  simp [DirectoryRecord.isTopLevel, hself, hparent]

/-- An entry is read as its node. -/
theorem nodeOf_eq_nodeFor
    (hself : record.identifier ≠ [0])
    (hparent : record.identifier ≠ [1]) :
    nodeOf false record true = Catalog.nodeFor record record.isDirectory := by
  have hname : record.name = decodeIdentifier record.identifier := by
    rw [DirectoryRecord.name, if_neg hself, if_neg hparent]
  simp only [nodeOf, Catalog.nodeFor, RecordAttributes.displayName, RecordAttributes.ofRecord,
    hname]
  rfl

/-- No entry of a catalog that is laid out stands for the directory itself or for its parent. -/
theorem LaidOut.not_isTopLevel
    {catalog : Catalog}
    (h : LaidOut image above catalog) :
    ∀ record ∈ catalog.records, record.isTopLevel = false := by
  induction h with
  | nil => simp [Catalog.records]
  | file hself hparent _ _ _ _ ih =>
      rw [Catalog.records, List.forall_mem_cons]
      exact ⟨isTopLevel_eq_false hself hparent, ih⟩
  | directory hself hparent _ _ _ _ _ _ ih =>
      rw [Catalog.records, List.forall_mem_cons]
      exact ⟨isTopLevel_eq_false hself hparent, ih⟩

end Records

section Walk

variable {image : Image}

/-- A packed directory is read if it is a new one and its entries are read. -/
theorem eval_readContents_of_directoryAt
    {levels : Nat}
    {above : List Nat}
    {extent : Extent}
    {entries : Catalog}
    (hnew : extent.sector ∉ above)
    (hpacked : DirectoryAt image extent entries)
    (hnamed : ∀ record ∈ entries.records, record.isTopLevel = false)
    {trees : List (Node Attributes × Forest (Node Attributes))}
    (htrees : List.Forall₂
      (fun record tree =>
        image.eval (entryOf false (readContents false levels (extent.sector :: above)) record) =
          .ok tree)
      entries.records trees) :
    image.eval (readContents false (levels + 1) above extent) = .ok (true, .ofTrees trees) := by
  obtain ⟨self, parent, hself, hparent, hrecords⟩ := hpacked
  rw [eval_readContents_succ_eq_ok_iff]
  refine ⟨hnew, _, eval_readDirectory_of_packed hrecords, rfl, ?_⟩
  rw [eval_entriesOf_eq_ok_iff]
  refine ⟨trees, ?_, rfl⟩
  have hselfTop : self.isTopLevel = true := by simp [DirectoryRecord.isTopLevel, hself]
  have hparentTop : parent.isTopLevel = true := by simp [DirectoryRecord.isTopLevel, hparent]
  have hkept : entries.records.filter (fun record => !record.isTopLevel) = entries.records := by
    rw [List.filter_eq_self]
    intro record hrecord
    rw [hnamed record hrecord]
    rfl
  rw [List.filter_cons_of_neg (by simp [hselfTop]), List.filter_cons_of_neg (by simp [hparentTop]),
    hkept]
  exact htrees

/-- The trees of the entries of a catalog that is laid out are those of the catalog. -/
theorem LaidOut.exists_trees
    {above : List Nat}
    {catalog : Catalog}
    (h : LaidOut image above catalog)
    {levels : Nat}
    (hdepth : catalog.depth ≤ levels) :
    ∃ trees,
      List.Forall₂
        (fun record tree =>
          image.eval (entryOf false (readContents false levels above) record) = .ok tree)
        catalog.records trees ∧
      .ofTrees trees = catalog.nodes.map Prod.fst := by
  induction h generalizing levels with
  | nil => exact ⟨[], .nil, rfl⟩
  | @file above record contents others hself hparent hflags _ _ _ ih =>
      obtain ⟨trees, htrees, hforest⟩ := ih hdepth
      have hfile : record.isDirectory = false := by
        simp [DirectoryRecord.isDirectory, FileFlags.isWalkable, hflags]
      refine ⟨(nodeOf false record true, .nil) :: trees, ?_, ?_⟩
      · refine .cons ?_ htrees
        rw [eval_entryOf_eq_ok_iff]
        exact Or.inr ⟨hfile, rfl⟩
      · rw [Forest.ofTrees, hforest, nodeOf_eq_nodeFor hself hparent, hfile]
        rfl
  | @directory above record inside others hself hparent hflags hnew hpacked hinside _ ihInside
      ihOthers =>
      -- The directory spends a level for what is inside it, not for what is beside it.
      rw [Catalog.depth, Nat.max_le] at hdepth
      obtain ⟨hbelow, hbeside⟩ := hdepth
      obtain ⟨levels, rfl⟩ : ∃ left, levels = left + 1 := ⟨levels - 1, by omega⟩
      obtain ⟨trees, htrees, hforest⟩ := ihOthers hbeside
      obtain ⟨below, hbelowTrees, hbelowForest⟩ := ihInside (Nat.le_of_succ_le_succ hbelow)
      have hdirectory : record.isDirectory = true := by
        rw [DirectoryRecord.isDirectory, hflags]
        rfl
      have hread := eval_readContents_of_directoryAt hnew hpacked hinside.not_isTopLevel hbelowTrees
      refine ⟨(nodeOf false record true, .ofTrees below) :: trees, ?_, ?_⟩
      · refine .cons ?_ htrees
        rw [eval_entryOf_eq_ok_iff]
        exact Or.inl ⟨hdirectory, true, .ofTrees below, hread, rfl⟩
      · rw [Forest.ofTrees, hforest, hbelowForest, nodeOf_eq_nodeFor hself hparent, hdirectory]
        rfl

/-- The contents of a file of a catalog that is laid out are read back. -/
theorem LaidOut.eval_contents
    {above : List Nat}
    {catalog : Catalog}
    (h : LaidOut image above catalog) :
    ∀ node bytes, (node, some bytes) ∈ catalog.nodes.labels →
      image.eval node.extent.contents = .ok bytes := by
  induction h with
  | nil => simp [Catalog.nodes, Forest.labels]
  | @file above record contents others _ _ _ hlength hcontents _ ih =>
      intro node bytes hlabel
      rcases List.mem_cons.mp hlabel with hhere | hlater
      · cases hhere
        show image.eval (ReadM.readExact record.extent.byteOffset record.dataLength.toNat) = _
        rw [hlength, Image.eval_readExact, hcontents, if_neg (Nat.lt_irrefl _)]
      · exact ih node bytes (by simpa [Forest.labels] using hlater)
  | @directory above record inside others _ _ _ _ _ _ _ ihInside ihOthers =>
      intro node bytes hlabel
      rcases List.mem_cons.mp hlabel with hhere | hlater
      · cases hhere
      · rcases List.mem_append.mp hlater with hbelow | hbeside
        · exact ihInside node bytes hbelow
        · exact ihOthers node bytes hbeside

/-- The tree of an image that lays a catalog out. -/
theorem eval_buildTree_of_laidOut
    {image : Image}
    {root : DirectoryRecord}
    {catalog : Catalog}
    (hshallow : catalog.depth ≤ maxDirectoryDepth)
    (hpacked : DirectoryAt image root.extent catalog)
    (hlaidOut : LaidOut image [root.extent.sector] catalog) :
    image.eval (buildTree root false) =
      .ok (FileTree.preorder (rootNode root true) (catalog.nodes.map Prod.fst)) := by
  obtain ⟨trees, htrees, hforest⟩ := hlaidOut.exists_trees hshallow
  have hcontents := eval_readContents_of_directoryAt List.not_mem_nil hpacked
    hlaidOut.not_isTopLevel htrees
  rw [eval_buildTree_eq_ok_iff]
  refine ⟨true, _, hcontents, ?_⟩
  rw [hforest, FileTree.ofForest_eq_preorder]

end Walk

/--
**A directory tree that an image lays out is read back.**
From the record of its root, without alternate names, the tree of the image is the catalog: each node
has the name that its identifier stands for, its size and its sector, in the shape and in the order of
the catalog, and the listing of every directory ended cleanly. The contents of each file are read
from its node.
-/
theorem buildTree_of_laidOut
    {image : Image}
    {root : DirectoryRecord}
    {catalog : Catalog}
    (shallow : catalog.depth ≤ maxDirectoryDepth)
    (packed : DirectoryAt image root.extent catalog)
    (laidOut : LaidOut image [root.extent.sector] catalog) :
    image.eval (buildTree root false) =
        .ok (FileTree.preorder (rootNode root true) (catalog.nodes.map Prod.fst)) ∧
      ∀ node bytes, (node, some bytes) ∈ catalog.nodes.labels →
        image.eval node.extent.contents = .ok bytes :=
  ⟨eval_buildTree_of_laidOut shallow packed laidOut, laidOut.eval_contents⟩

section Small

/-- A root directory in the first sector. -/
def smallRoot : DirectoryRecord := .plain [0] (.ofByte 0x02) 0 2048

/-- A directory D in the second sector, without entries, and a file A|B in the third. -/
def smallCatalog : Catalog :=
  .directory (.plain [0x44] (.ofByte 0x02) 1 2048) .nil
    (.file (.plain [0x41, 0x7C, 0x42] (.ofByte 0) 2 4) [1, 2, 3, 4] .nil)

/-- The records for a directory in a sector and for the root above it. -/
def smallTop (sector : UInt32) : List DirectoryRecord :=
  [.plain [0] (.ofByte 0x02) sector 2048, .plain [1] (.ofByte 0x02) 0 2048]

/-- The first three sectors of an image of the small catalog. -/
def smallSectors : List Bytes :=
  [(smallTop 0 ++ smallCatalog.records).flatMap DirectoryRecord.encode,
    (smallTop 1).flatMap DirectoryRecord.encode,
    [1, 2, 3, 4]]

variable {more : List Bytes}

theorem smallSectors_fit
    (h : ∀ bytes ∈ more, bytes.length ≤ sectorSize) :
    ∀ bytes ∈ smallSectors ++ more, bytes.length ≤ sectorSize := by
  rw [List.forall_mem_append]
  exact ⟨by decide +kernel, h⟩

/-- The small catalog is laid out, whatever sectors follow. -/
theorem laidOut_small
    (h : ∀ bytes ∈ more, bytes.length ≤ sectorSize) :
    DirectoryAt (.ofSectors (smallSectors ++ more)) smallRoot.extent smallCatalog ∧
      LaidOut (.ofSectors (smallSectors ++ more)) [smallRoot.extent.sector] smallCatalog := by
  have hfit := smallSectors_fit h
  have hroot : PackedFrom (.ofSectors (smallSectors ++ more)) 1 0
      (smallTop 0 ++ smallCatalog.records) :=
    packedFrom_ofSectors hfit (by decide) rfl
  have hinside : PackedFrom (.ofSectors (smallSectors ++ more)) 1 1 (smallTop 1) :=
    packedFrom_ofSectors hfit (by decide) rfl
  have hthird : (smallSectors ++ more)[2]? = some [1, 2, 3, 4] := rfl
  have hcontents := Image.part_ofSectors_bytes hfit hthird
  refine ⟨⟨_, _, rfl, rfl, hroot⟩, ?_⟩
  refine .directory (by decide) (by decide) rfl (by decide) ⟨_, _, rfl, rfl, hinside⟩ (.nil _) ?_
  exact .file (by decide) (by decide) rfl rfl hcontents (.nil _)

/-- The small catalog is read back. -/
theorem buildTree_of_laidOut_small :
    smallCatalog.depth ≤ maxDirectoryDepth ∧
      DirectoryAt (.ofSectors smallSectors) smallRoot.extent smallCatalog ∧
      LaidOut (.ofSectors smallSectors) [smallRoot.extent.sector] smallCatalog ∧
      (Image.ofSectors smallSectors).eval (buildTree smallRoot false) =
        .ok (FileTree.preorder (rootNode smallRoot true) (smallCatalog.nodes.map Prod.fst)) ∧
      ∀ node bytes, (node, some bytes) ∈ smallCatalog.nodes.labels →
        (Image.ofSectors smallSectors).eval node.extent.contents = .ok bytes := by
  have hshallow : smallCatalog.depth ≤ maxDirectoryDepth := by decide
  have hnone : ∀ bytes ∈ ([] : List Bytes), bytes.length ≤ sectorSize := by simp
  obtain ⟨hpacked, hlaidOut⟩ := laidOut_small hnone
  rw [List.append_nil] at hpacked hlaidOut
  exact ⟨hshallow, hpacked, hlaidOut, buildTree_of_laidOut hshallow hpacked hlaidOut⟩

end Small

end Iso
end Optical
