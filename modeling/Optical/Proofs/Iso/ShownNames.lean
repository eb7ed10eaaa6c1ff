import Optical.Proofs.Image.Outcomes
import Optical.Proofs.Iso.Encoding
import Optical.Proofs.Iso.FileNames
import Optical.Proofs.Iso.Walk

/-!
# Trees that differ in their names

A directory tree may be read with alternate names or with identifiers. Which names are wanted makes
no difference to the walk: on every image both readings fail with the same error, or both succeed,
and each node of the one tree is the node with the same number of the other under another name.

The node of a record is plain if it has the name that its identifier stands for. Reading with
identifiers gives the forest that is read with alternate names, made plain. The main statement is
buildTree_differs_in_names; since the names are measured in the attributes, both trees have the same
longest names.
-/

namespace Optical
namespace Iso

section Walks

/-- The node with the name that its identifier stands for. -/
def plainly (node : Node Attributes) : Node Attributes :=
  { node with name := (isoAttributes? node.attributes).elim node.name (·.identifier) }

variable (image : Image)

/-- The tree of a record is read plainly if the directory that it may stand for is. -/
theorem entryOf_lockstep_plainly
    {enter enterPlain : Extent → ReadM DirectoryContents}
    (henter : ∀ extent, Lockstep
      (fun shown plain => plain = (shown.1, shown.2.map plainly))
      (image.eval (enter extent)) (image.eval (enterPlain extent)))
    (record : DirectoryRecord) :
    Lockstep (fun shown plain => plain = (plainly shown.1, shown.2.map plainly))
      (image.eval (entryOf true enter record)) (image.eval (entryOf false enterPlain record)) := by
  rw [entryOf, entryOf]
  split
  · rw [Image.eval_bind, Image.eval_bind]
    refine (henter record.extent).bind fun shown plain hplain => .done ?_
    rw [hplain]
    rfl
  · exact .done rfl

theorem ofTrees_plainly
    {shown plain : List (Node Attributes × Forest (Node Attributes))}
    (h : List.Forall₂ (fun shown plain => plain = (plainly shown.1, shown.2.map plainly)) shown plain) :
    Forest.ofTrees plain = (Forest.ofTrees shown).map plainly := by
  induction h with
  | nil => rfl
  | cons hfirst _ ih => rw [hfirst, Forest.ofTrees, ih, Forest.ofTrees, Forest.map]

/-- The contents of a directory are read plainly on every way on which they may be reached. -/
theorem readContents_lockstep_plainly
    (levels : Nat)
    (above : List Nat)
    (extent : Extent) :
    Lockstep (fun shown plain => plain = (shown.1, shown.2.map plainly))
      (image.eval (readContents true levels above extent))
      (image.eval (readContents false levels above extent)) := by
  induction levels generalizing above extent with
  | zero => exact .failed Error.directoryTooDeep
  | succ levels ih =>
      rw [readContents, readContents]
      split
      · exact .failed (Error.directoryCycle extent.sector)
      · rw [Image.eval_bind, Image.eval_bind]
        cases image.eval (readDirectory extent) with
        | error error => exact .failed error
        | ok listing =>
            show Lockstep _ (image.eval (_ >>= _)) (image.eval (_ >>= _))
            rw [entriesOf, entriesOf, Image.eval_bind, Image.eval_bind, Image.eval_bind,
              Image.eval_bind, bind_assoc, bind_assoc, Image.eval_mapM, Image.eval_mapM]
            have htrees := Lockstep.mapM fun record
                (_ : record ∈ listing.records.filter fun record => !record.isTopLevel) =>
              entryOf_lockstep_plainly image (ih (extent.sector :: above)) record
            refine htrees.bind fun shown plain hplain => .done ?_
            rw [ofTrees_plainly hplain]

/-- Both trees of a root are made from one forest, which the second is told plainly. -/
theorem buildTree_lockstep_plainly
    (root : DirectoryRecord) :
    Lockstep
      (fun shown plain => ∃ contents : DirectoryContents,
        shown = .ofForest (rootNode root contents.1) contents.2 ∧
        plain = .ofForest (rootNode root contents.1) (contents.2.map plainly))
      (image.eval (buildTree root true)) (image.eval (buildTree root false)) := by
  rw [buildTree_eq, buildTree_eq, Image.eval_bind, Image.eval_bind]
  refine (readContents_lockstep_plainly image (maxDirectoryDepth + 1) [] root.extent).bind
    fun contents plain hplain => .done ⟨contents, rfl, ?_⟩
  rw [hplain]

end Walks

section Trees

/-- Two entries differ at most in their names, and so in their paths. -/
structure SameButName (entry other : Entry Attributes) : Prop where
  size : other.size = entry.size
  sector : other.sector = entry.sector
  isDirectory : other.isDirectory = entry.isDirectory
  attributes : other.attributes = entry.attributes
  parent : other.parent = entry.parent
  children : other.children = entry.children

/--
Entries of two trees with the same number are the same but for their names. The root has no name;
below it the first tree shows the alternate name of a record that has one, and every other name is
the one that the identifier of the record stands for.
-/
structure DiffersInName (id : Nat) (entry other : Entry Attributes) : Prop where
  same : SameButName entry other
  top : id = FileTree.root → entry.name = "" ∧ other.name = ""
  below : id ≠ FileTree.root → ∃ record clean,
    let attributes := RecordAttributes.ofRecord record clean
    entry.attributes = .iso attributes ∧
    entry.name = attributes.alternateName.getD attributes.identifier ∧
    other.name = attributes.identifier

theorem SameButName.refl
    (entry : Entry Attributes) :
    SameButName entry entry :=
  ⟨rfl, rfl, rfl, rfl, rfl, rfl⟩

theorem sameButName_of_retold
    {entry other : Entry Attributes}
    (h : FileTree.Retold plainly entry other) :
    SameButName entry other := by
  obtain ⟨hnode, hparent, hchildren⟩ := h
  refine ⟨?_, ?_, ?_, ?_, hparent, hchildren⟩
  all_goals
    rw [hnode]
    rfl

/-- A file has the same attributes under every name. -/
theorem fileAttributes_plainly
    {top : Node Attributes}
    (htop : top.isDirectory = true)
    (below : Forest (Node Attributes)) :
    fileAttributes (.ofForest top (below.map plainly)) = fileAttributes (.ofForest top below) := by
  rw [fileAttributes_ofForest htop, fileAttributes_ofForest htop, Forest.labels_map,
    List.filter_map, List.filterMap_map]
  rfl

/-- An entry that shows the alternate name of a record, told again with its identifier. -/
theorem differsInName_of_retold
    {entry other : Entry Attributes}
    (hshown : ∃ record clean, entry.toNode = nodeOf true record clean)
    (h : FileTree.Retold plainly entry other)
    {id : Nat}
    (hbelow : id ≠ FileTree.root) :
    DiffersInName id entry other := by
  obtain ⟨record, clean, hrecord⟩ := hshown
  refine ⟨sameButName_of_retold h, fun htop => absurd htop hbelow, fun _ => ?_⟩
  refine ⟨record, clean, congrArg Node.attributes hrecord, congrArg Node.name hrecord, ?_⟩
  rw [h.node, hrecord]
  rfl

theorem fileAttributes_lockstep
    (image : Image)
    (root : DirectoryRecord) :
    Lockstep (fun shown plain => fileAttributes shown = fileAttributes plain)
      (image.eval (buildTree root true)) (image.eval (buildTree root false)) := by
  refine (buildTree_lockstep_plainly image root).mono fun shown plain h => ?_
  obtain ⟨contents, rfl, rfl⟩ := h
  exact (fileAttributes_plainly rfl contents.2).symm

/-- The entries of a tree with alternate names and of the same tree made plain. -/
theorem differsInName_of_get?
    {root : DirectoryRecord}
    {contents : DirectoryContents}
    (hshown : ∀ node ∈ contents.2.labels, ∃ record clean, node = nodeOf true record clean)
    {id : Nat}
    {entry other : Entry Attributes}
    (hentry : (FileTree.ofForest (rootNode root contents.1) contents.2).get? id = some entry)
    (hother : (FileTree.ofForest (rootNode root contents.1)
      (contents.2.map plainly)).get? id = some other) :
    DiffersInName id entry other := by
  obtain ⟨top, later, others, htop, hlist, hplain, hlabels, hretold⟩ :=
    FileTree.exists_entries_ofForest_map plainly (rootNode root contents.1) contents.2
  rw [FileTree.get?, ← Array.getElem?_toList, hlist] at hentry
  rw [FileTree.get?, ← Array.getElem?_toList, hplain] at hother
  cases id with
  | zero =>
      have hname : top.name = "" := congrArg Node.name htop
      cases hentry
      cases hother
      exact ⟨.refl _, fun _ => ⟨hname, hname⟩, fun h => absurd rfl h⟩
  | succ place =>
      rw [List.getElem?_cons_succ] at hentry hother
      obtain ⟨hinside, rfl⟩ := List.getElem?_eq_some_iff.mp hentry
      obtain ⟨hinsideOther, rfl⟩ := List.getElem?_eq_some_iff.mp hother
      have hnode : later[place].toNode ∈ contents.2.labels :=
        hlabels ▸ List.mem_map_of_mem (List.getElem_mem _)
      exact differsInName_of_retold (hshown _ hnode) (hretold.get hinside hinsideOther)
        (Nat.succ_ne_zero place)

/--
**Which names are shown makes no difference but to the names.** The trees of a root with alternate
names and with identifiers fail with the same error, or they have the same number of nodes, nodes of
equal number differ in their names alone, and the longest names of files are the same in both.
-/
theorem buildTree_differs_in_names
    (image : Image)
    (root : DirectoryRecord) :
    Lockstep
      (fun shown plain =>
        shown.size = plain.size ∧
        (∀ id entry other, shown.get? id = some entry → plain.get? id = some other →
          DiffersInName id entry other) ∧
        longestAlternateName shown = longestAlternateName plain ∧
        longestIdentifier shown = longestIdentifier plain)
      (image.eval (buildTree root true)) (image.eval (buildTree root false)) := by
  have hlockstep := (buildTree_lockstep_plainly image root).and_left
    fun tree => exists_record_of_mem_tail
  refine hlockstep.mono fun shown plain h => ?_
  obtain ⟨hshown, contents, rfl, rfl⟩ := h
  rw [FileTree.map_toNode_tail_ofForest] at hshown
  have htop : (rootNode root contents.1).isDirectory = true := rfl
  have hattributes := fileAttributes_plainly htop contents.2
  refine ⟨?_, fun id entry other => differsInName_of_get? hshown, ?_, ?_⟩
  · simp only [FileTree.ofForest, FileTree.size_graft, Forest.size_map]
  · rw [longestAlternateName, longestAlternateName, hattributes]
  · rw [longestIdentifier, longestIdentifier, hattributes]

/-- The record of a root directory without contents. -/
def bareRoot : DirectoryRecord := .plain [0] (.ofByte 0x02) 0 0

/-- A root keeps its identifier in its attributes and is shown under no name. -/
theorem bareRoot_unnamed :
    ∃ (shown plain : FileTree Attributes) (entry other : Entry Attributes),
      Image.eval #[] (buildTree bareRoot true) = .ok shown ∧
      Image.eval #[] (buildTree bareRoot false) = .ok plain ∧
      shown.get? FileTree.root = some entry ∧
      plain.get? FileTree.root = some other ∧
      ∃ attributes : RecordAttributes,
        entry.attributes = .iso attributes ∧ other.attributes = .iso attributes ∧
        attributes.alternateName = none ∧ attributes.identifier = "." ∧
        entry.name ≠ attributes.identifier ∧ other.name ≠ attributes.identifier :=
  ⟨_, _, _, _, rfl, rfl, rfl, rfl, _, rfl, rfl, by decide +kernel, by decide +kernel,
    by decide +kernel, by decide +kernel⟩

end Trees

end Iso
end Optical
