import Optical.Proofs.FileTree.Walk
import Optical.Proofs.Iso.Walk

/-!
# The names of files

How long the names of the files of a tree are is found in the attributes of the files, which keep
both names, and not in the names that the tree shows.

* mem_fileAttributes_iff and fileAttributes_ofForest tell which attributes these are;
* longestAlternateName_eq_some_iff and longestIdentifier_eq_some_iff say what is measured;
* exists_file_of_longestName finds a file that a tree shows under its longest name.
-/

namespace Optical
namespace Iso

section Attributes

theorem mem_fileAttributes_iff
    (tree : FileTree Attributes)
    (attributes : RecordAttributes) :
    attributes ∈ fileAttributes tree
      ↔
    ∃ id ∈ tree.files, ∃ entry, tree.get? id = some entry ∧ entry.attributes = .iso attributes := by
  have hiso : ∀ found : Attributes,
      isoAttributes? found = some attributes ↔ found = .iso attributes := by
    intro found
    cases found <;> simp [isoAttributes?]
  simp only [fileAttributes, List.mem_filterMap, Option.bind_eq_some_iff, hiso]

/-- The files of a tree made from a root and a forest are the labels that are no directories. -/
theorem fileAttributes_ofForest
    {top : Node Attributes}
    (htop : top.isDirectory = true)
    (below : Forest (Node Attributes)) :
    fileAttributes (.ofForest top below) =
      (below.labels.filter fun node => !node.isDirectory).filterMap
        fun node => isoAttributes? node.attributes := by
  have hfiles := FileTree.map_get?_files_of_walk (FileTree.walk_ofForest top below)
  have hnodes := FileTree.preorder_map_toNode top below
  rw [← FileTree.ofForest_eq_preorder] at hnodes
  have hlabels : below.labels.filter (fun node => !node.isDirectory) =
      ((FileTree.ofForest top below).entries.toList.filter fun entry => !entry.isDirectory).map
        Entry.toNode := by
    have hlater := List.filter_cons_of_neg (p := fun node : Node Attributes => !node.isDirectory)
      (l := below.labels) (a := top) (by simp [htop])
    rw [← hlater, ← hnodes, List.filter_map]
    rfl
  have hread : ∀ tree : FileTree Attributes, fileAttributes tree =
      (tree.files.map tree.get?).filterMap
        (·.bind fun entry => isoAttributes? entry.attributes) := by
    intro tree
    rw [List.filterMap_map]
    rfl
  rw [hread, hfiles, hlabels, List.filterMap_map, List.filterMap_map]
  rfl

end Attributes

section Files

variable {image : Image}
variable {root : DirectoryRecord}
variable {rockRidge : Bool}
variable {tree : FileTree Attributes}

/-- Every node below the root of a tree that was read tells of a record. -/
theorem exists_record_of_mem_tail
    (hbuilt : image.eval (buildTree root rockRidge) = .ok tree) :
    ∀ node ∈ tree.entries.toList.tail.map Entry.toNode,
      ∃ record clean, node = nodeOf rockRidge record clean := by
  obtain ⟨clean, below, hcontents, rfl⟩ := (eval_buildTree_eq_ok_iff image root tree).mp hbuilt
  rw [FileTree.map_toNode_tail_ofForest]
  exact forall_labels_of_eval_readContents
    (fun node => ∃ record clean, node = nodeOf rockRidge record clean)
    (fun record clean => ⟨record, clean, rfl⟩) hcontents

/-- So does every file, since the root is a directory. -/
theorem exists_record_of_mem_files
    (hbuilt : image.eval (buildTree root rockRidge) = .ok tree)
    {id : Nat}
    (hfile : id ∈ tree.files) :
    ∃ entry record clean, tree.get? id = some entry ∧
      entry.toNode = nodeOf rockRidge record clean := by
  have hbelow := exists_record_of_mem_tail hbuilt
  obtain ⟨clean, below, -, rfl⟩ := (eval_buildTree_eq_ok_iff image root tree).mp hbuilt
  obtain ⟨entry, hentry, hkind⟩ : ∃ entry,
      (FileTree.ofForest (rootNode root clean) below).get? id = some entry ∧
        entry.isDirectory = false := by
    simpa [FileTree.isFile, Option.any_eq_true] using (List.mem_filter.mp hfile).2
  have hmem := hentry
  rw [FileTree.get?, ← Array.getElem?_toList] at hmem
  have hnode := List.mem_map_of_mem (f := Entry.toNode) (List.mem_of_getElem? hmem)
  rw [FileTree.map_toNode_tail_ofForest] at hbelow
  rw [FileTree.ofForest_eq_preorder, FileTree.preorder_map_toNode, List.mem_cons] at hnode
  rcases hnode with htop | hlabel
  · rw [htop] at hkind
    cases hkind
  · obtain ⟨record, state, hrecord⟩ := hbelow _ hlabel
    exact ⟨entry, record, state, hentry, hrecord⟩

/-- A tree that was read has no file if it has no attributes of files, and only then. -/
theorem fileAttributes_eq_nil_iff
    (hbuilt : image.eval (buildTree root rockRidge) = .ok tree) :
    fileAttributes tree = [] ↔ tree.files = [] := by
  constructor
  · intro hnone
    rw [List.eq_nil_iff_forall_not_mem] at hnone ⊢
    intro id hfile
    obtain ⟨entry, record, clean, hentry, hrecord⟩ := exists_record_of_mem_files hbuilt hfile
    exact hnone _ ((mem_fileAttributes_iff tree _).mpr
      ⟨id, hfile, entry, hentry, congrArg Node.attributes hrecord⟩)
  · intro hnone
    rw [fileAttributes, hnone, List.filterMap_nil]

/-- A file of a tree that was read is shown under the name that its attributes give. -/
theorem exists_file_of_mem_fileAttributes
    (hbuilt : image.eval (buildTree root rockRidge) = .ok tree)
    {attributes : RecordAttributes}
    (hmem : attributes ∈ fileAttributes tree) :
    ∃ id ∈ tree.files, ∃ entry, tree.get? id = some entry ∧
      entry.name = attributes.displayName rockRidge := by
  obtain ⟨id, hfile, entry, hentry, hattributes⟩ := (mem_fileAttributes_iff tree attributes).mp hmem
  obtain ⟨found, record, clean, hfound, hrecord⟩ := exists_record_of_mem_files hbuilt hfile
  rw [hentry] at hfound
  cases hfound
  have hsame : Attributes.iso (.ofRecord record clean) = .iso attributes := by
    rw [← hattributes]
    exact (congrArg Node.attributes hrecord).symm
  cases hsame
  exact ⟨id, hfile, entry, hentry, congrArg Node.name hrecord⟩

end Files

section Longest

variable (tree : FileTree Attributes)

/-- The longest alternate name is that of a file, and no file has a longer one. -/
theorem longestAlternateName_eq_some_iff
    (length : Nat) :
    longestAlternateName tree = some length
      ↔
    (∃ attributes ∈ fileAttributes tree, ∃ name,
      attributes.alternateName = some name ∧ name.length = length) ∧
    ∀ attributes ∈ fileAttributes tree, ∀ name,
      attributes.alternateName = some name → name.length ≤ length := by
  simp only [longestAlternateName, List.max?_eq_some_iff, List.mem_filterMap,
    Option.map_eq_some_iff]
  constructor
  · rintro ⟨⟨attributes, hmem, name, hname, hlength⟩, hmost⟩
    exact ⟨⟨attributes, hmem, name, hname, hlength⟩,
      fun other hother found hfound => hmost _ ⟨other, hother, found, hfound, rfl⟩⟩
  · rintro ⟨⟨attributes, hmem, name, hname, hlength⟩, hmost⟩
    refine ⟨⟨attributes, hmem, name, hname, hlength⟩, ?_⟩
    rintro _ ⟨other, hother, found, hfound, rfl⟩
    exact hmost other hother found hfound

/-- The longest identifier is that of a file, and no file has a longer one. -/
theorem longestIdentifier_eq_some_iff
    (length : Nat) :
    longestIdentifier tree = some length
      ↔
    (∃ attributes ∈ fileAttributes tree, attributes.identifier.length = length) ∧
    ∀ attributes ∈ fileAttributes tree, attributes.identifier.length ≤ length := by
  simp only [longestIdentifier, List.max?_eq_some_iff, List.mem_map]
  constructor
  · rintro ⟨hsome, hmost⟩
    exact ⟨hsome, fun other hother => hmost _ ⟨other, hother, rfl⟩⟩
  · rintro ⟨hsome, hmost⟩
    refine ⟨hsome, ?_⟩
    rintro _ ⟨other, hother, rfl⟩
    exact hmost other hother

/-- The longest name of the files of a tree, in alternate names or in identifiers. -/
def longestName (rockRidge : Bool) (tree : FileTree Attributes) : Option Nat :=
  if rockRidge then longestAlternateName tree else longestIdentifier tree

/-- Every file has an identifier, so there is a longest one if there is a file. -/
theorem longestIdentifier_eq_none_iff :
    longestIdentifier tree = none ↔ fileAttributes tree = [] := by
  rw [longestIdentifier, List.max?_eq_none_iff, List.map_eq_nil_iff]

/-- The longest name of its kind is shown by the tree that shows names of this kind. -/
theorem exists_file_of_longestName
    {image : Image}
    {root : DirectoryRecord}
    {rockRidge : Bool}
    {tree : FileTree Attributes}
    (hbuilt : image.eval (buildTree root rockRidge) = .ok tree)
    {length : Nat}
    (hlength : longestName rockRidge tree = some length) :
    ∃ id ∈ tree.files, ∃ entry, tree.get? id = some entry ∧ entry.name.length = length := by
  obtain ⟨attributes, hmem, hname⟩ : ∃ attributes ∈ fileAttributes tree,
      (attributes.displayName rockRidge).length = length := by
    cases rockRidge with
    | true =>
        obtain ⟨⟨attributes, hmem, name, hname, hlength⟩, -⟩ :=
          (longestAlternateName_eq_some_iff tree length).mp hlength
        refine ⟨attributes, hmem, ?_⟩
        rw [RecordAttributes.displayName, if_pos rfl, hname, Option.getD_some, hlength]
    | false =>
        obtain ⟨⟨attributes, hmem, hlength⟩, -⟩ :=
          (longestIdentifier_eq_some_iff tree length).mp hlength
        exact ⟨attributes, hmem, hlength⟩
  obtain ⟨id, hfile, entry, hentry, hshown⟩ := exists_file_of_mem_fileAttributes hbuilt hmem
  exact ⟨id, hfile, entry, hentry, by rw [hshown, hname]⟩

end Longest

end Iso
end Optical
