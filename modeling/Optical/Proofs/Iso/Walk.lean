import Optical.Proofs.Image.Parts
import Optical.Proofs.Visits

/-!
# Successful walks of directories

What it takes for a walk of ISO9660 directories to succeed on an image, one statement for each
function of the walk. Later arguments about trees go by these statements and by induction on the
levels that are left; they do not look into the walk again.
-/

namespace Optical
namespace Iso

section Walk

variable (image : Image)
variable {rockRidge : Bool}

/-- The tree of a record is read if the directory that it may stand for is. -/
theorem eval_entryOf_eq_ok_iff
    (enter : Extent → ReadM DirectoryContents)
    (record : DirectoryRecord)
    (tree : Node Attributes × Forest (Node Attributes)) :
    image.eval (entryOf rockRidge enter record) = .ok tree
      ↔
    (record.isDirectory = true ∧ ∃ clean below,
        image.eval (enter record.extent) = .ok (clean, below) ∧
          tree = (nodeOf rockRidge record clean, below)) ∨
      (record.isDirectory = false ∧ tree = (nodeOf rockRidge record true, .nil)) := by
  rw [entryOf]
  cases record.isDirectory with
  | false =>
      constructor
      · intro h
        cases h
        exact Or.inr ⟨rfl, rfl⟩
      · rintro (⟨h, -⟩ | ⟨-, rfl⟩)
        · cases h
        · rfl
  | true =>
      rw [if_pos rfl, Image.eval_bind_eq_ok_iff]
      constructor
      · rintro ⟨⟨clean, below⟩, hcontents, h⟩
        cases h
        exact Or.inl ⟨rfl, clean, below, hcontents, rfl⟩
      · rintro (⟨-, clean, below, hcontents, rfl⟩ | ⟨h, -⟩)
        · exact ⟨(clean, below), hcontents, rfl⟩
        · cases h

/-- The entries of a directory are read if each of them is, the top-level ones left out. -/
theorem eval_entriesOf_eq_ok_iff
    (enter : Extent → ReadM DirectoryContents)
    (records : List DirectoryRecord)
    (forest : Forest (Node Attributes)) :
    image.eval (entriesOf rockRidge enter records) = .ok forest
      ↔
    ∃ trees,
      List.Forall₂
        (fun record tree => image.eval (entryOf rockRidge enter record) = .ok tree)
        (records.filter fun record => !record.isTopLevel) trees ∧
      forest = .ofTrees trees := by
  rw [entriesOf, Image.eval_bind_eq_ok_iff]
  constructor
  · rintro ⟨trees, htrees, h⟩
    cases h
    exact ⟨trees, (Image.eval_mapM_eq_ok_iff image _ _ _).mp htrees, rfl⟩
  · rintro ⟨trees, htrees, rfl⟩
    exact ⟨trees, (Image.eval_mapM_eq_ok_iff image _ _ _).mpr htrees, rfl⟩

/-- A directory is read if it is not one of those above and its listing and entries are read. -/
theorem eval_readContents_succ_eq_ok_iff
    (levels : Nat)
    (above : List Nat)
    (extent : Extent)
    (clean : Bool)
    (below : Forest (Node Attributes)) :
    image.eval (readContents rockRidge (levels + 1) above extent) = .ok (clean, below)
      ↔
    extent.sector ∉ above ∧ ∃ listing,
      image.eval (readDirectory extent) = .ok listing ∧ clean = listing.clean ∧
      image.eval (entriesOf rockRidge (readContents rockRidge levels (extent.sector :: above))
        listing.records) = .ok below := by
  rw [readContents]
  split
  · next hcycle =>
      constructor
      · intro h
        cases h
      · rintro ⟨hnew, -⟩
        exact absurd hcycle hnew
  · next hnew =>
      rw [Image.eval_bind_eq_ok_iff]
      constructor
      · rintro ⟨listing, hlisting, h⟩
        rw [Image.eval_bind_eq_ok_iff] at h
        obtain ⟨forest, hforest, h⟩ := h
        cases h
        exact ⟨hnew, listing, hlisting, rfl, hforest⟩
      · rintro ⟨-, listing, hlisting, rfl, hforest⟩
        refine ⟨listing, hlisting, ?_⟩
        rw [Image.eval_bind_eq_ok_iff]
        exact ⟨below, hforest, rfl⟩

theorem eval_readContents_zero
    (above : List Nat)
    (extent : Extent) :
    image.eval (readContents rockRidge 0 above extent) = .error .directoryTooDeep := rfl

/-- A tree is read if the directory of its root is. -/
theorem eval_buildTree_eq_ok_iff
    (record : DirectoryRecord)
    (tree : FileTree Attributes) :
    image.eval (buildTree record rockRidge) = .ok tree
      ↔
    ∃ clean below,
      image.eval (readContents rockRidge (maxDirectoryDepth + 1) [] record.extent) =
        .ok (clean, below) ∧
      tree = .ofForest (rootNode record clean) below := by
  rw [buildTree_eq, Image.eval_bind_eq_ok_iff]
  constructor
  · rintro ⟨⟨clean, below⟩, hcontents, h⟩
    cases h
    exact ⟨clean, below, hcontents, rfl⟩
  · rintro ⟨clean, below, hcontents, rfl⟩
    exact ⟨(clean, below), hcontents, rfl⟩

end Walk

section Labels

variable {image : Image}
variable {rockRidge : Bool}

/-- What holds of the node of every record holds of all nodes below a directory. -/
theorem forall_labels_of_eval_readContents
    (P : Node Attributes → Prop)
    (hnode : ∀ record clean, P (nodeOf rockRidge record clean))
    {levels : Nat}
    {above : List Nat}
    {extent : Extent}
    {clean : Bool}
    {below : Forest (Node Attributes)}
    (h : image.eval (readContents rockRidge levels above extent) = .ok (clean, below)) :
    ∀ node ∈ below.labels, P node := by
  induction levels generalizing above extent clean below with
  | zero =>
      rw [eval_readContents_zero] at h
      cases h
  | succ levels ih =>
      obtain ⟨-, listing, -, -, hentries⟩ :=
        (eval_readContents_succ_eq_ok_iff image levels above extent clean below).mp h
      obtain ⟨trees, htrees, rfl⟩ := (eval_entriesOf_eq_ok_iff image _ _ _).mp hentries
      rw [Forest.labels_ofTrees]
      intro node hmem
      obtain ⟨tree, htree, hlabel⟩ := List.mem_flatMap.mp hmem
      obtain ⟨record, -, hentry⟩ := Image.exists_of_mem_right htrees htree
      rcases (eval_entryOf_eq_ok_iff image _ _ _).mp hentry with
        ⟨-, clean, inside, hinside, rfl⟩ | ⟨-, rfl⟩
      · rcases List.mem_cons.mp hlabel with rfl | hlabel
        · exact hnode record clean
        · exact ih hinside node hlabel
      · rw [List.mem_singleton.mp hlabel]
        exact hnode record true

end Labels

end Iso
end Optical
