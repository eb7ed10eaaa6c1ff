import Optical.Proofs.FileTree.Walk
import Optical.Proofs.Image.Outcomes
import Optical.Proofs.Visits

/-!
# The tree and the records of a directory

A directory can be read as a tree or as a list of its records and those below it. The two walks are
made apart from each other: one leaves out the records of the directory itself and of the one above
and keeps names and attributes, the other keeps every record as it is. On every image, a malformed
one too, they take the same way. They fail with the same error, or the nodes of the tree below its
root stand one by one for the listed records that are not left out.

The main statement is buildTree_lockstep_collectRecords. It is carried by the lockstep of the two
walks of one directory, by induction on the levels that are left.
-/

namespace Optical
namespace Iso

section Descriptions

/-- A node tells of its record: its identifier, its place and size, its flags and what it is. -/
structure Describes (node : Node Attributes) (record : DirectoryRecord) : Prop where
  attributes : ∃ attributes : RecordAttributes,
    node.attributes = .iso attributes ∧
    attributes.identifier = String.ofList record.name ∧
    attributes.flags = record.flags
  size : node.size = record.dataLength.toNat
  sector : node.sector = record.sector.toNat
  isDirectory : node.isDirectory = record.isDirectory

/-- The records that stand for entries of their own. -/
def properRecords (records : List DirectoryRecord) : List DirectoryRecord :=
  records.filter fun record => !record.isTopLevel

/-- The nodes tell one by one of the records that stand for entries of their own. -/
def Describe (nodes : List (Node Attributes)) (records : List DirectoryRecord) : Prop :=
  List.Forall₂ Describes nodes (properRecords records)

theorem describes_nodeOf
    (rockRidge : Bool)
    (record : DirectoryRecord)
    (clean : Bool) :
    Describes (nodeOf rockRidge record clean) record where
  attributes := ⟨_, rfl, rfl, rfl⟩
  size := rfl
  sector := rfl
  isDirectory := rfl

theorem Describe.append
    {nodes later : List (Node Attributes)}
    {records laterRecords : List DirectoryRecord}
    (h : Describe nodes records)
    (hlater : Describe later laterRecords) :
    Describe (nodes ++ later) (records ++ laterRecords) := by
  rw [Describe, properRecords, List.filter_append]
  exact List.rel_append h hlater

/-- A node in front tells of a record in front that stands for an entry of its own. -/
theorem Describe.cons
    {node : Node Attributes}
    {nodes : List (Node Attributes)}
    {record : DirectoryRecord}
    {records : List DirectoryRecord}
    (hproper : record.isTopLevel = false)
    (hnode : Describes node record)
    (h : Describe nodes records) :
    Describe (node :: nodes) (record :: records) := by
  rw [Describe, properRecords, List.filter_cons_of_pos (by rw [hproper]; rfl)]
  exact .cons hnode h

theorem Describe.length_files
    {nodes : List (Node Attributes)}
    {records : List DirectoryRecord}
    (h : Describe nodes records) :
    (nodes.filter fun node => !node.isDirectory).length =
      (records.filter fun record => !record.isDirectory && !record.isTopLevel).length := by
  have hfiles := List.rel_filter
    (p := fun node : Node Attributes => !node.isDirectory)
    (q := fun record : DirectoryRecord => !record.isDirectory)
    (fun node record (hnode : Describes node record) => by simp only [hnode.isDirectory]) h
  rw [hfiles.length_eq, properRecords, List.filter_filter]

end Descriptions

section Walks

variable (image : Image)
variable (rockRidge : Bool)

/-- The tree of a record and the records from it on, given that directories are read alike. -/
theorem entryOf_lockstep_recordAndBelow
    {enter : Extent → ReadM DirectoryContents}
    {enterRecords : Extent → ReadM (List DirectoryRecord)}
    (henter : ∀ extent, Lockstep
      (fun contents records => Describe contents.2.labels records)
      (image.eval (enter extent)) (image.eval (enterRecords extent)))
    {record : DirectoryRecord}
    (hproper : record.isTopLevel = false) :
    Lockstep (fun tree records => Describe (tree.1 :: tree.2.labels) records)
      (image.eval (entryOf rockRidge enter record))
      (image.eval (recordAndBelow enterRecords record)) := by
  rw [entryOf, recordAndBelow, hproper, Bool.not_false, Bool.and_true]
  split
  · next hdirectory =>
      rw [Image.eval_bind, Image.eval_bind]
      refine (henter record.extent).bind fun contents records hbelow => .done ?_
      exact .cons hproper (describes_nodeOf rockRidge record contents.1) hbelow
  · next hfile =>
      refine .done ?_
      exact .cons hproper (describes_nodeOf rockRidge record true) .nil

theorem entries_lockstep_records
    {enter : Extent → ReadM DirectoryContents}
    {enterRecords : Extent → ReadM (List DirectoryRecord)}
    (henter : ∀ extent, Lockstep
      (fun contents records => Describe contents.2.labels records)
      (image.eval (enter extent)) (image.eval (enterRecords extent)))
    (records : List DirectoryRecord) :
    Lockstep
      (fun trees lists => Describe (Forest.ofTrees trees).labels lists.flatten)
      (image.eval ((properRecords records).mapM (entryOf rockRidge enter)))
      (image.eval (records.mapM (recordAndBelow enterRecords))) := by
  induction records with
  | nil => exact .done .nil
  | cons record records ih =>
      rw [List.mapM_cons, Image.eval_bind]
      cases hrecord : record.isTopLevel with
      | true =>
          -- The record is left out of the tree and listed without anything below it.
          have hleft : properRecords (record :: records) = properRecords records :=
            List.filter_cons_of_neg (by rw [hrecord]; simp)
          have hlisted : image.eval (recordAndBelow enterRecords record) = .ok [record] := by
            rw [recordAndBelow, hrecord, Bool.not_true, Bool.and_false]
            rfl
          rw [hleft, hlisted]
          show Lockstep _ _ (image.eval (_ >>= _))
          rw [Image.eval_bind, ← bind_pure (image.eval (List.mapM _ (properRecords records)))]
          refine ih.bind fun trees lists hlater => .done ?_
          rw [List.flatten_cons, List.singleton_append, Describe, properRecords,
            List.filter_cons_of_neg (by rw [hrecord]; simp)]
          exact hlater
      | false =>
          have hkept : properRecords (record :: records) = record :: properRecords records :=
            List.filter_cons_of_pos (by rw [hrecord]; rfl)
          rw [hkept, List.mapM_cons, Image.eval_bind]
          refine (entryOf_lockstep_recordAndBelow image rockRidge henter hrecord).bind
            fun tree list htree => ?_
          rw [Image.eval_bind, Image.eval_bind]
          refine ih.bind fun trees lists hlater => .done ?_
          rw [List.flatten_cons]
          exact htree.append hlater

/-- The contents of a directory and its records, on every way on which they may be reached. -/
theorem readContents_lockstep_readRecords
    (levels : Nat)
    (above : List Nat)
    (extent : Extent) :
    Lockstep (fun contents records => Describe contents.2.labels records)
      (image.eval (readContents rockRidge levels above extent))
      (image.eval (readRecords levels above extent)) := by
  induction levels generalizing above extent with
  | zero => exact .failed Error.directoryTooDeep
  | succ levels ih =>
      rw [readContents, readRecords]
      split
      · exact .failed (Error.directoryCycle extent.sector)
      · rw [Image.eval_bind, Image.eval_bind]
        cases image.eval (readDirectory extent) with
        | error error => exact .failed error
        | ok listing =>
            have hentries := entries_lockstep_records image rockRidge
              (ih (extent.sector :: above)) listing.records
            show Lockstep _ (image.eval (_ >>= _)) (image.eval (_ >>= _))
            rw [entriesOf, Image.eval_bind, Image.eval_bind, Image.eval_bind, bind_assoc]
            exact hentries.bind fun trees lists hlabels => .done hlabels

/-- The tree of a root is made of contents that the collected records describe. -/
theorem exists_contents_lockstep
    (root : DirectoryRecord) :
    Lockstep
      (fun tree records => ∃ contents : DirectoryContents,
        tree = .ofForest (rootNode root contents.1) contents.2 ∧
        Describe contents.2.labels records)
      (image.eval (buildTree root rockRidge))
      (image.eval (collectRecords root.extent)) := by
  rw [buildTree_eq, collectRecords_eq, Image.eval_bind,
    ← bind_pure (image.eval (readRecords _ _ root.extent))]
  have hwalks := readContents_lockstep_readRecords image rockRidge (maxDirectoryDepth + 1) []
    root.extent
  exact hwalks.bind fun contents records hbelow => .done ⟨contents, rfl, hbelow⟩

end Walks

/--
**Two walks of one directory.** The tree below a root record and the list of its records fail with
the same error, or the tree is walked in the order of its numbers, its nodes after the root tell one
by one of the records that stand for entries of their own, and it has as many files as there are
such records that are no directories.
-/
theorem buildTree_lockstep_collectRecords
    (image : Image)
    (root : DirectoryRecord)
    (rockRidge : Bool) :
    Lockstep
      (fun tree records =>
        tree.walk = List.range tree.size ∧
        Describe (tree.entries.toList.tail.map Entry.toNode) records ∧
        tree.files.length =
          (records.filter fun record => !record.isDirectory && !record.isTopLevel).length)
      (image.eval (buildTree root rockRidge))
      (image.eval (collectRecords root.extent)) := by
  refine (exists_contents_lockstep image rockRidge root).mono fun tree records h => ?_
  obtain ⟨contents, rfl, hbelow⟩ := h
  have hwalk := FileTree.walk_ofForest (rootNode root contents.1) contents.2
  have hnodes := FileTree.preorder_map_toNode (rootNode root contents.1) contents.2
  rw [← FileTree.ofForest_eq_preorder] at hnodes
  have hlater : (FileTree.ofForest (rootNode root contents.1) contents.2).entries.toList.tail.map
      Entry.toNode = contents.2.labels := by
    rw [List.map_tail, hnodes, List.tail_cons]
  refine ⟨hwalk, hlater ▸ hbelow, ?_⟩
  -- The root is a directory, so every file is one of the nodes after it.
  have hfiles := congrArg (List.filter fun node : Node Attributes => !node.isDirectory) hnodes
  rw [List.filter_map, List.filter_cons_of_neg (by simp [rootNode])] at hfiles
  rw [FileTree.length_files_of_walk hwalk, ← hbelow.length_files, ← hfiles, List.length_map]
  rfl

end Iso
end Optical
