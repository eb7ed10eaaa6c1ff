import Optical.Proofs.Iso.Layout
import Optical.Proofs.Iso.Walk

/-!
# What a tree depends on

A tree is read from the sectors of its directories. The contents of files, the space between the
extents and the length of the image play no part in it. So an image may be changed anywhere else, cut
or made longer, and the same tree is read from it.

The sectors that matter are found only while the tree is read, so they are told by the tree that came
out on one of two images: SameSectors says that both hold the same bytes in the sectors of an extent,
and buildTree_of_sameSectors asks this of the extent of every directory of the tree.
-/

namespace Optical
namespace Iso

/-- Two images hold the same bytes in the sectors of an extent, the last of them to its end. -/
def SameSectors (first second : Image) (extent : Extent) : Prop :=
  first.AgreeOn second extent.byteOffset (sectorStart extent.endSector)

section Listings

variable {first second : Image}

/-- A sector is read alike where the images agree, and so is the failure to read it. -/
theorem eval_readSector_congr
    {sector : Nat}
    (h : first.sectorAt sector = second.sectorAt sector) :
    second.eval (ReadM.readSector sector) = first.eval (ReadM.readSector sector) := by
  rw [Image.sectorAt, Image.sectorAt] at h
  rw [ReadM.readSector, Image.eval_readExact, Image.eval_readExact, h]

/-- So are all sectors of a run. -/
theorem eval_readSectors_congr
    {count sector : Nat}
    (h : first.AgreeOn second (sectorStart sector) (sectorStart (sector + count))) :
    second.eval (readSectors count sector) = first.eval (readSectors count sector) := by
  induction count generalizing sector with
  | zero => rfl
  | succ count ih =>
      have hhere : first.sectorAt sector = second.sectorAt sector :=
        h.sectorAt_eq (Nat.le_refl _) (Nat.lt_add_of_pos_right (Nat.succ_pos count))
      have hlater : first.AgreeOn second (sectorStart (sector + 1))
          (sectorStart (sector + 1 + count)) := by
        refine h.mono (Image.sectorStart_le (Nat.le_succ sector)) ?_
        exact Image.sectorStart_le (by omega)
      rw [readSectors, Image.eval_bind, Image.eval_bind, eval_readSector_congr hhere]
      congr 1
      funext bytes
      rw [Image.eval_bind, Image.eval_bind, ih hlater]
      rfl

theorem eval_readDirectory_congr
    {extent : Extent}
    (h : SameSectors first second extent) :
    second.eval (readDirectory extent) = first.eval (readDirectory extent) :=
  eval_readSectors_congr h

end Listings

section Walks

variable {first second : Image}
variable {rockRidge : Bool}

/-- The images hold the same sectors of all directories among some nodes. -/
def SameDirectories (first second : Image) (nodes : List (Node Attributes)) : Prop :=
  ∀ node ∈ nodes, node.isDirectory = true → SameSectors first second node.extent

theorem sameDirectories_append
    (nodes later : List (Node Attributes)) :
    SameDirectories first second (nodes ++ later)
      ↔
    SameDirectories first second nodes ∧ SameDirectories first second later :=
  List.forall_mem_append

/-- The tree of a record is read alike if the directory that it may stand for is. -/
theorem eval_entryOf_of_sameDirectories
    {enter : Extent → ReadM DirectoryContents}
    (henter : ∀ {extent clean below},
      first.eval (enter extent) = .ok (clean, below) →
      SameSectors first second extent →
      SameDirectories first second below.labels →
      second.eval (enter extent) = .ok (clean, below))
    {record : DirectoryRecord}
    {tree : Node Attributes × Forest (Node Attributes)}
    (h : first.eval (entryOf rockRidge enter record) = .ok tree)
    (hsame : SameDirectories first second (tree.1 :: tree.2.labels)) :
    second.eval (entryOf rockRidge enter record) = .ok tree := by
  rw [eval_entryOf_eq_ok_iff] at h ⊢
  rcases h with ⟨hdirectory, clean, below, hcontents, rfl⟩ | hfile
  · obtain ⟨hhere, hbelow⟩ := List.forall_mem_cons.mp hsame
    exact Or.inl ⟨hdirectory, clean, below, henter hcontents (hhere hdirectory) hbelow, rfl⟩
  · exact Or.inr hfile

/-- So are the entries of a directory. -/
theorem eval_entriesOf_of_sameDirectories
    {enter : Extent → ReadM DirectoryContents}
    (henter : ∀ {extent clean below},
      first.eval (enter extent) = .ok (clean, below) →
      SameSectors first second extent →
      SameDirectories first second below.labels →
      second.eval (enter extent) = .ok (clean, below))
    {records : List DirectoryRecord}
    {below : Forest (Node Attributes)}
    (h : first.eval (entriesOf rockRidge enter records) = .ok below)
    (hsame : SameDirectories first second below.labels) :
    second.eval (entriesOf rockRidge enter records) = .ok below := by
  rw [eval_entriesOf_eq_ok_iff] at h ⊢
  obtain ⟨trees, htrees, rfl⟩ := h
  refine ⟨trees, ?_, rfl⟩
  generalize records.filter (fun record => !record.isTopLevel) = named at htrees
  induction htrees with
  | nil => exact .nil
  | @cons record tree named trees htree _ ih =>
      rw [Forest.labels_ofTrees, List.flatMap_cons, ← Forest.labels_ofTrees,
        sameDirectories_append] at hsame
      exact .cons (eval_entryOf_of_sameDirectories henter htree hsame.1) (ih hsame.2)

/-- A directory is read alike with all that lies below it, whatever the walk has passed before. -/
theorem eval_readContents_of_sameDirectories
    {levels : Nat}
    {above : List Nat}
    {extent : Extent}
    {clean : Bool}
    {below : Forest (Node Attributes)}
    (h : first.eval (readContents rockRidge levels above extent) = .ok (clean, below))
    (hhere : SameSectors first second extent)
    (hbelow : SameDirectories first second below.labels) :
    second.eval (readContents rockRidge levels above extent) = .ok (clean, below) := by
  induction levels generalizing above extent clean below with
  | zero => cases h
  | succ levels ih =>
      rw [eval_readContents_succ_eq_ok_iff] at h ⊢
      obtain ⟨hnew, listing, hlisting, hclean, hentries⟩ := h
      rw [← eval_readDirectory_congr hhere] at hlisting
      exact ⟨hnew, listing, hlisting, hclean,
        eval_entriesOf_of_sameDirectories ih hentries hbelow⟩

end Walks

/--
**A tree depends on its directories only.** A tree that is read from one image is read from every
other image that holds the same bytes in the sectors of all directories of the tree, the root among
them. Nothing is asked about the rest of the other image, nor about its length.
-/
theorem buildTree_of_sameSectors
    {first second : Image}
    {root : DirectoryRecord}
    {rockRidge : Bool}
    {tree : FileTree Attributes}
    (read : first.eval (buildTree root rockRidge) = .ok tree)
    (same : ∀ id entry, tree.get? id = some entry → entry.isDirectory = true →
      SameSectors first second entry.extent) :
    second.eval (buildTree root rockRidge) = .ok tree := by
  rw [eval_buildTree_eq_ok_iff] at read ⊢
  obtain ⟨clean, below, hcontents, rfl⟩ := read
  have hnodes : SameDirectories first second (rootNode root clean :: below.labels) := by
    intro node hmem hdirectory
    obtain ⟨id, entry, hentry, rfl⟩ := FileTree.exists_get?_ofForest hmem
    exact same id entry hentry hdirectory
  obtain ⟨hroot, hbelow⟩ := List.forall_mem_cons.mp hnodes
  exact ⟨clean, below, eval_readContents_of_sameDirectories hcontents (hroot rfl) hbelow, rfl⟩

section Small

/-- The sectors of the small catalog with other contents in its file, and a sector more. -/
def editedSectors : List Bytes :=
  smallSectors.take 2 ++ [[9, 8, 7], [6]]

/-- The small catalog is read from its image when its file is edited and the image made longer. -/
theorem buildTree_of_sameSectors_edited :
    ∃ tree,
      (Image.ofSectors smallSectors).eval (buildTree smallRoot false) = .ok tree ∧
      (∀ id entry, tree.get? id = some entry → entry.isDirectory = true →
        SameSectors (.ofSectors smallSectors) (.ofSectors editedSectors) entry.extent) ∧
      (Image.ofSectors editedSectors).eval (buildTree smallRoot false) = .ok tree ∧
      (Image.ofSectors smallSectors).part (sectorStart 2) 4 ≠
        (Image.ofSectors editedSectors).part (sectorStart 2) 4 := by
  have hnone : ∀ bytes ∈ ([] : List Bytes), bytes.length ≤ sectorSize := by simp
  have hfit := smallSectors_fit hnone
  rw [List.append_nil] at hfit
  obtain ⟨hpacked, hlaidOut⟩ := laidOut_small hnone
  rw [List.append_nil] at hpacked hlaidOut
  have hread := eval_buildTree_of_laidOut (by decide) hpacked hlaidOut
  rw [← FileTree.ofForest_eq_preorder] at hread
  have hfront : ∀ bytes ∈ smallSectors.take 2, bytes.length ≤ sectorSize :=
    fun bytes hmem => hfit bytes (List.mem_of_mem_take hmem)
  have hagree : (Image.ofSectors smallSectors).AgreeOn (.ofSectors editedSectors) 0
      (sectorStart 2) :=
    Image.agreeOn_ofSectors hfront [[1, 2, 3, 4]] [[9, 8, 7], [6]]
  -- The directories are the root in the first sector and D in the second.
  have hsame : ∀ id entry,
      (FileTree.ofForest (rootNode smallRoot true) (smallCatalog.nodes.map Prod.fst)).get? id =
        some entry → entry.isDirectory = true →
      SameSectors (.ofSectors smallSectors) (.ofSectors editedSectors) entry.extent := by
    intro id entry hentry
    refine FileTree.forall_of_ofForest (fun node => node.isDirectory = true →
      SameSectors (.ofSectors smallSectors) (.ofSectors editedSectors) node.extent) ?_ ?_ hentry
    · intro _
      exact hagree.mono (Nat.zero_le _) (by decide)
    · refine List.forall_mem_cons.mpr
        ⟨fun _ => ?_, List.forall_mem_cons.mpr ⟨?_, List.forall_mem_nil _⟩⟩
      · exact hagree.mono (Nat.zero_le _) (by decide)
      · intro hdirectory
        exact absurd hdirectory (by decide)
  have hedited : ∀ bytes ∈ editedSectors, bytes.length ≤ sectorSize := by
    rw [editedSectors, List.forall_mem_append]
    exact ⟨hfront, by decide⟩
  refine ⟨_, hread, hsame, buildTree_of_sameSectors hread hsame, ?_⟩
  rw [Image.part_ofSectors_take hfit (show smallSectors[2]? = some [1, 2, 3, 4] from rfl)
      (by decide),
    Image.part_ofSectors_take hedited (show editedSectors[2]? = some [9, 8, 7] from rfl)
      (by decide)]
  exact fun hparts => absurd (List.cons.inj hparts).1 (by decide)

end Small

end Iso
end Optical
