import Optical.Proofs.FileTree.Preorder
import Optical.Proofs.Udf.FileSet
import Optical.Proofs.Visits

/-!
# The unfolding of a UDF directory

The tree of a UDF volume is what its root pointer unfolds to. A block denotes the file entry that
stands so many sectors behind the file set; an entry denotes a directory or a plain file by its type;
and the children of a directory are what the identifiers in its bytes denote, in order, those of the
parent directory and of deleted entries left out.

Nothing keeps the directories of an image from leading back to one another, so an unfolding is finite
only because of two rules about the way from the root: no directory on it begins where an earlier one
does, and it passes through 64 levels at most.

* Identifiers says which file identifiers the bytes of a directory hold;
* Unfolding says which forest a list of identifiers unfolds to;
* buildTree_succeeds_iff_unfolds says that the tree that is built is the unfolding, and that there is
  none if none is built.
-/

namespace Optical
namespace Udf

section Identifiers

/-- A byte string holds identifiers from its start on, up to a rest of zeros. -/
inductive Identifiers : Bytes → List FileIdentifier → Prop where
  | ended {rest : Bytes} (blank : rest.isBlank = true) : Identifiers rest []
  | found {rest : Bytes} {first : FileIdentifier} {later : List FileIdentifier}
      (more : rest.isBlank = false)
      (tagged : (Tag.parse rest).identifier = Tag.fileIdentifier)
      (read : FileIdentifier.parse? rest = some first)
      (others : Identifiers (rest.drop first.length) later) :
      Identifiers rest (first :: later)

/-- What is read of a directory that ends cleanly are the identifiers that it holds. -/
theorem Identifiers.of_fileIdentifiers
    {position : Nat}
    {rest : Bytes}
    {identifiers : List FileIdentifier}
    (h : fileIdentifiers position rest = (identifiers, .clean)) :
    Identifiers rest identifiers := by
  fun_induction fileIdentifiers position rest generalizing identifiers with
  | case1 position rest hblank =>
      cases h
      exact .ended hblank
  | case2 => cases h
  | case3 => cases h
  | case4 position rest hmore htagged first hfirst later ending hlater ih =>
      cases h
      exact .found (Bool.eq_false_iff.mpr hmore) (Decidable.of_not_not htagged) hfirst (ih hlater)

theorem Identifiers.fileIdentifiers_eq
    {rest : Bytes}
    {identifiers : List FileIdentifier}
    (h : Identifiers rest identifiers)
    (position : Nat) :
    fileIdentifiers position rest = (identifiers, .clean) := by
  induction h generalizing position with
  | ended blank => rw [fileIdentifiers, if_pos blank]
  | found more tagged read others ih =>
      rw [fileIdentifiers, if_neg (Bool.eq_false_iff.mp more), if_neg (not_not_intro tagged)]
      split
      · next hnone =>
          rw [read] at hnone
          cases hnone
      · next found hfound =>
          rw [read] at hfound
          cases hfound
          rw [ih]

/-- A directory ends cleanly if and only if its bytes hold identifiers and nothing else. -/
theorem fileIdentifiers_eq_clean_iff
    (position : Nat)
    (rest : Bytes)
    (identifiers : List FileIdentifier) :
    fileIdentifiers position rest = (identifiers, .clean) ↔ Identifiers rest identifiers :=
  ⟨Identifiers.of_fileIdentifiers, fun h => h.fileIdentifiers_eq position⟩

end Identifiers

section Entries

/-- A block counted from a base denotes a file entry, plain or extended. -/
def EntryAt (image : Image) (base : Nat) (block : UInt32) (entry : FileEntry) : Prop :=
  ∃ tag raw, DescriptorAt image (base + block.toNat) tag raw ∧
    ((tag.identifier = Tag.fileEntry ∧ entry = .parse raw false) ∨
      (tag.identifier = Tag.extendedFileEntry ∧ entry = .parse raw true))

/-- The sector at which the contents of a directory begin. -/
def directoryStart (base : Nat) (entry : FileEntry) : Nat :=
  base + entry.allocation.location.toNat

/--
An entry that is reached through a partition denotes a node with a name. Directories are addressed
from the base, plain files from the start of the partition; other types denote nothing.
-/
inductive Denotes
    (base : Nat)
    (starts : UInt16 → Nat → Prop)
    (name : String)
    (entry : FileEntry)
    (partition : UInt16) :
    Node Attributes → Prop where
  | directory (type : entry.fileType = 4) :
      Denotes base starts name entry partition
        { name
          size := entry.allocation.length.toNat
          sector := directoryStart base entry
          isDirectory := true
          attributes := .udf (.ofEntry entry partition) }
  | file {start : Nat} (type : entry.fileType = 5) (starting : starts partition start) :
      Denotes base starts name entry partition
        { name
          size := entry.allocation.length.toNat
          sector := start + entry.allocation.location.toNat
          isDirectory := false
          attributes := .udf (.ofEntry entry partition) }

variable (image : Image)
variable (layout : Layout)

theorem eval_readEntry_eq_ok_iff
    (block : UInt32)
    (sector : Nat)
    (entry : FileEntry) :
    image.eval (layout.readEntry block) = .ok (sector, entry)
      ↔
    sector = layout.base + block.toNat ∧ EntryAt image layout.base block entry := by
  rw [Layout.readEntry, Image.eval_bind_eq_ok_iff]
  constructor
  · rintro ⟨⟨tag, raw⟩, hdescriptor, h⟩
    have hat := (eval_readDescriptor_eq_ok_iff image _ tag raw).mp hdescriptor
    simp only at h
    split at h
    · next hplain =>
        cases h
        exact ⟨rfl, tag, raw, hat, Or.inl ⟨hplain, rfl⟩⟩
    · split at h
      · next hextended =>
          cases h
          exact ⟨rfl, tag, raw, hat, Or.inr ⟨hextended, rfl⟩⟩
      · cases h
  · rintro ⟨rfl, tag, raw, hat, htype⟩
    refine ⟨(tag, raw), (eval_readDescriptor_eq_ok_iff image _ tag raw).mpr hat, ?_⟩
    rcases htype with ⟨htag, rfl⟩ | ⟨htag, rfl⟩
    · simp only [htag]
      rfl
    · simp only [htag]
      rfl

variable {starts : UInt16 → Nat → Prop}
variable (hstarts : ∀ number start, layout.startOf number = some start ↔ starts number start)
include hstarts

theorem nodeOf_eq_ok_iff
    (name : String)
    (entry : FileEntry)
    (sector : Nat)
    (partition : UInt16)
    (node : Node Attributes) :
    layout.nodeOf name entry sector partition = .ok node
      ↔
    Denotes layout.base starts name entry partition node := by
  simp only [Layout.nodeOf]
  split
  · next hdirectory =>
      constructor
      · intro h
        cases h
        exact .directory hdirectory
      · intro h
        cases h with
        | directory => rfl
        | file htype =>
            rw [hdirectory] at htype
            cases htype
  · next hother =>
      split
      · next hfile =>
          constructor
          · intro h
            split at h
            · cases h
            · next start hstart =>
                cases h
                exact .file hfile ((hstarts partition start).mp hstart)
          · intro h
            cases h with
            | directory htype => exact absurd htype hother
            | @file start _ hstart => rw [(hstarts partition start).mpr hstart]
      · next hunsupported =>
          constructor
          · intro h
            cases h
          · intro h
            cases h with
            | directory htype => exact absurd htype hother
            | file htype => exact absurd htype hunsupported

theorem eval_readNode_eq_ok_iff
    (name : String)
    (icb : BlockPointer)
    (entry : FileEntry)
    (node : Node Attributes) :
    image.eval (layout.readNode name icb) = .ok (entry, node)
      ↔
    EntryAt image layout.base icb.block entry ∧
      Denotes layout.base starts name entry icb.partition node := by
  rw [Layout.readNode, Image.eval_bind_eq_ok_iff]
  constructor
  · rintro ⟨⟨sector, found⟩, hentry, h⟩
    simp only at h
    split at h
    · next hnode =>
        cases h
        exact ⟨((eval_readEntry_eq_ok_iff image layout _ _ _).mp hentry).2,
          (nodeOf_eq_ok_iff layout hstarts _ _ _ _ _).mp hnode⟩
    · cases h
  · rintro ⟨hentry, hnode⟩
    refine ⟨(layout.base + icb.block.toNat, entry),
      (eval_readEntry_eq_ok_iff image layout _ _ _).mpr ⟨rfl, hentry⟩, ?_⟩
    simp only [(nodeOf_eq_ok_iff layout hstarts name entry _ icb.partition node).mpr hnode]
    rfl

end Entries

section Unfolding

/--
An entry stands for a directory that may be entered on the way from the root, given the sectors of
the directories on the way so far, and its bytes hold identifiers.
-/
structure Enters
    (image : Image)
    (base : Nat)
    (above : List Nat)
    (entry : FileEntry)
    (identifiers : List FileIdentifier) : Prop where
  shallow : above.length ≤ maxDirectoryDepth
  unvisited : directoryStart base entry ∉ above
  inside : entry.allocation.length.toNat = 0 ∨
    sectorStart (directoryStart base entry) + entry.allocation.length.toNat ≤ image.size
  holds : Identifiers
    (image.part (sectorStart (directoryStart base entry)) entry.allocation.length.toNat)
    identifiers

/--
The identifiers of a directory unfold to the forest below it, given the sectors of the directories on
the way to their entries, the directory's own included.
-/
inductive Unfolding (image : Image) (base : Nat) (starts : UInt16 → Nat → Prop) :
    (above : List Nat) → List FileIdentifier → Forest (Node Attributes) → Prop where
  | ended {above : List Nat} : Unfolding image base starts above [] .nil
  | omitted {above : List Nat} {first : FileIdentifier} {later : List FileIdentifier}
      {forest : Forest (Node Attributes)}
      (hidden : (first.isParent || first.isDeleted) = true)
      (others : Unfolding image base starts above later forest) :
      Unfolding image base starts above (first :: later) forest
  | file {above : List Nat} {first : FileIdentifier} {later : List FileIdentifier}
      {entry : FileEntry} {node : Node Attributes} {rest : Forest (Node Attributes)}
      (shown : (first.isParent || first.isDeleted) = false)
      (entryAt : EntryAt image base first.icb.block entry)
      (denotes : Denotes base starts (String.ofList first.name) entry first.icb.partition node)
      (leaf : node.isDirectory = false)
      (others : Unfolding image base starts above later rest) :
      Unfolding image base starts above (first :: later) (.cons node .nil rest)
  | directory {above : List Nat} {first : FileIdentifier} {later inner : List FileIdentifier}
      {entry : FileEntry} {node : Node Attributes} {below rest : Forest (Node Attributes)}
      (shown : (first.isParent || first.isDeleted) = false)
      (entryAt : EntryAt image base first.icb.block entry)
      (denotes : Denotes base starts (String.ofList first.name) entry first.icb.partition node)
      (branch : node.isDirectory = true)
      (enters : Enters image base above entry inner)
      (inside : Unfolding image base starts (directoryStart base entry :: above) inner below)
      (others : Unfolding image base starts above later rest) :
      Unfolding image base starts above (first :: later) (.cons node below rest)

variable (image : Image)
variable (layout : Layout)
variable {starts : UInt16 → Nat → Prop}
variable (hstarts : ∀ number start, layout.startOf number = some start ↔ starts number start)

/-- What the entries of a directory are read from, if it has a clean end. -/
theorem eval_entriesOf_eq_ok_iff
    (failure : Option Error)
    (enter : FileEntry → ReadM (Forest (Node Attributes)))
    (identifiers : List FileIdentifier)
    (forest : Forest (Node Attributes)) :
    image.eval (layout.entriesOf failure enter identifiers) = .ok forest
      ↔
    failure = none ∧ ∃ trees,
      List.Forall₂ (fun found tree => image.eval (layout.entryOf enter found) = .ok tree)
        (identifiers.filter fun found => !(found.isParent || found.isDeleted)) trees ∧
      forest = .ofTrees trees := by
  rw [Layout.entriesOf, Image.eval_bind_eq_ok_iff]
  simp only [Image.eval_mapM_eq_ok_iff]
  cases failure with
  | none =>
      constructor
      · rintro ⟨trees, htrees, h⟩
        cases h
        exact ⟨rfl, trees, htrees, rfl⟩
      · rintro ⟨-, trees, htrees, rfl⟩
        exact ⟨trees, htrees, rfl⟩
  | some error =>
      constructor
      · rintro ⟨trees, -, h⟩
        cases h
      · rintro ⟨h, -⟩
        cases h

include hstarts in
/-- The tree of an identifier is read if its entry is and, for a directory, what it holds. -/
theorem eval_entryOf_eq_ok_iff
    (enter : FileEntry → ReadM (Forest (Node Attributes)))
    (found : FileIdentifier)
    (node : Node Attributes)
    (below : Forest (Node Attributes)) :
    image.eval (layout.entryOf enter found) = .ok (node, below)
      ↔
    ∃ entry, EntryAt image layout.base found.icb.block entry ∧
      Denotes layout.base starts (String.ofList found.name) entry found.icb.partition node ∧
      ((node.isDirectory = false ∧ below = .nil) ∨
        (node.isDirectory = true ∧ image.eval (enter entry) = .ok below)) := by
  rw [Layout.entryOf, Image.eval_bind_eq_ok_iff]
  constructor
  · rintro ⟨⟨entry, first⟩, hnode, h⟩
    obtain ⟨hentry, hdenotes⟩ := (eval_readNode_eq_ok_iff image layout hstarts _ _ _ _).mp hnode
    simp only at h
    split at h
    · next hdirectory =>
        rw [Image.eval_bind_eq_ok_iff] at h
        obtain ⟨forest, hforest, h⟩ := h
        cases h
        exact ⟨entry, hentry, hdenotes, Or.inr ⟨hdirectory, hforest⟩⟩
    · next hfile =>
        cases h
        exact ⟨entry, hentry, hdenotes, Or.inl ⟨Bool.not_eq_true _ ▸ hfile, rfl⟩⟩
  · rintro ⟨entry, hentry, hdenotes, hbelow⟩
    refine ⟨(entry, node),
      (eval_readNode_eq_ok_iff image layout hstarts _ _ _ _).mpr ⟨hentry, hdenotes⟩, ?_⟩
    rcases hbelow with ⟨hfile, rfl⟩ | ⟨hdirectory, hforest⟩
    · simp only [hfile]
      rfl
    · simp only [hdirectory, if_true]
      rw [Image.eval_bind_eq_ok_iff]
      exact ⟨below, hforest, rfl⟩

include hstarts in
/-- The trees of identifiers are their unfolding, if directories are read as they unfold. -/
theorem trees_iff_unfolding
    {above : List Nat}
    {enter : FileEntry → ReadM (Forest (Node Attributes))}
    (henter : ∀ entry below, image.eval (enter entry) = .ok below ↔
      ∃ inner, Enters image layout.base above entry inner ∧
        Unfolding image layout.base starts (directoryStart layout.base entry :: above) inner below)
    (identifiers : List FileIdentifier)
    (forest : Forest (Node Attributes)) :
    (∃ trees,
      List.Forall₂ (fun found tree => image.eval (layout.entryOf enter found) = .ok tree)
        (identifiers.filter fun found => !(found.isParent || found.isDeleted)) trees ∧
      forest = .ofTrees trees)
      ↔
    Unfolding image layout.base starts above identifiers forest := by
  induction identifiers generalizing forest with
  | nil =>
      constructor
      · rintro ⟨trees, htrees, rfl⟩
        cases htrees
        exact .ended
      · intro h
        cases h
        exact ⟨[], .nil, rfl⟩
  | cons first later ih =>
      cases hhidden : first.isParent || first.isDeleted with
      | true =>
          rw [List.filter_cons_of_neg (by simp [hhidden]), ih]
          constructor
          · exact .omitted hhidden
          · intro h
            cases h with
            | omitted _ others => exact others
            | file shown => simp [hhidden] at shown
            | directory shown => simp [hhidden] at shown
      | false =>
          rw [List.filter_cons_of_pos (by simp [hhidden])]
          constructor
          · rintro ⟨trees, htrees, rfl⟩
            cases htrees with
            | @cons _ tree _ trees hfirst hlater =>
                obtain ⟨node, below⟩ := tree
                obtain ⟨entry, hentry, hdenotes, hbelow⟩ :=
                  (eval_entryOf_eq_ok_iff image layout hstarts _ _ _ _).mp hfirst
                have hrest := (ih (.ofTrees trees)).mp ⟨trees, hlater, rfl⟩
                rcases hbelow with ⟨hfile, rfl⟩ | ⟨hdirectory, hforest⟩
                · exact .file hhidden hentry hdenotes hfile hrest
                · obtain ⟨inner, henters, hinside⟩ := (henter entry below).mp hforest
                  exact .directory hhidden hentry hdenotes hdirectory henters hinside hrest
          · intro h
            cases h with
            | omitted hidden => simp [hhidden] at hidden
            | @file _ _ _ entry node rest _ hentry hdenotes hfile others =>
                obtain ⟨trees, htrees, rfl⟩ := (ih rest).mpr others
                refine ⟨(node, .nil) :: trees, .cons ?_ htrees, rfl⟩
                exact (eval_entryOf_eq_ok_iff image layout hstarts _ _ _ _).mpr
                  ⟨entry, hentry, hdenotes, Or.inl ⟨hfile, rfl⟩⟩
            | @directory _ _ _ inner entry node below rest _ hentry hdenotes hdirectory henters
                hinside others =>
                obtain ⟨trees, htrees, rfl⟩ := (ih rest).mpr others
                refine ⟨(node, below) :: trees, .cons ?_ htrees, rfl⟩
                exact (eval_entryOf_eq_ok_iff image layout hstarts _ _ _ _).mpr
                  ⟨entry, hentry, hdenotes,
                    Or.inr ⟨hdirectory, (henter entry below).mpr ⟨inner, henters, hinside⟩⟩⟩

theorem endError?_eq_none_iff
    (start : Nat)
    (ending : DirectoryEnd) :
    Layout.endError? start ending = none ↔ ending = .clean := by
  cases ending <;> simp [Layout.endError?]

include hstarts in
/--
The contents of a directory are what its identifiers unfold to. The levels that are left and the
directories on the way to it make up the greatest depth.
-/
theorem eval_readContents_eq_ok_iff
    {levels : Nat}
    {above : List Nat}
    (hlevels : levels + above.length = maxDirectoryDepth + 1)
    (entry : FileEntry)
    (below : Forest (Node Attributes)) :
    image.eval (layout.readContents levels above entry) = .ok below
      ↔
    ∃ identifiers, Enters image layout.base above entry identifiers ∧
      Unfolding image layout.base starts (directoryStart layout.base entry :: above)
        identifiers below := by
  induction levels generalizing above entry below with
  | zero =>
      constructor
      · intro h
        cases h
      · rintro ⟨identifiers, henters, -⟩
        have hshallow := henters.shallow
        omega
  | succ levels ih =>
      -- Each directory on the way takes one of the levels, so the sum stays the same.
      have hdeeper :
          levels + (directoryStart layout.base entry :: above).length = maxDirectoryDepth + 1 := by
        rw [List.length_cons]
        omega
      have henter := ih hdeeper
      rw [Layout.readContents]
      split
      · next hcycle =>
          constructor
          · intro h
            cases h
          · rintro ⟨identifiers, henters, -⟩
            exact absurd hcycle henters.unvisited
      · next hnew =>
          rw [Image.eval_bind_eq_ok_iff]
          constructor
          · rintro ⟨raw, hraw, h⟩
            obtain ⟨hinside, rfl⟩ := (Image.eval_readExact_eq_ok_iff image _ _ _).mp hraw
            obtain ⟨hclean, htrees⟩ := (eval_entriesOf_eq_ok_iff image layout _ _ _ _).mp h
            have hending := (endError?_eq_none_iff _ _).mp hclean
            have hunfolding := (trees_iff_unfolding image layout hstarts henter _ _).mp htrees
            refine ⟨_, ⟨by omega, hnew, hinside, ?_⟩, hunfolding⟩
            exact (fileIdentifiers_eq_clean_iff 0 _ _).mp (Prod.ext rfl hending)
          · rintro ⟨identifiers, henters, hunfolding⟩
            refine ⟨_, (Image.eval_readExact_eq_ok_iff image _ _ _).mpr ⟨henters.inside, rfl⟩, ?_⟩
            have hidentifiers := (fileIdentifiers_eq_clean_iff 0 _ _).mpr henters.holds
            simp only [directoryStart] at hidentifiers
            simp only [Layout.directorySector, hidentifiers]
            exact (eval_entriesOf_eq_ok_iff image layout _ _ _ _).mpr
              ⟨rfl, (trees_iff_unfolding image layout hstarts henter _ _).mpr hunfolding⟩

end Unfolding

section Tree

/--
The partition of a number starts at a sector. The root's partition is the one with the file set, any
other the first that has the number.
-/
def Starts
    (partitions : List Partition)
    (home : Partition)
    (root : BlockPointer)
    (number : UInt16)
    (start : Nat) : Prop :=
  (number = root.partition ∧ start = home.start.toNat) ∨
    (number ≠ root.partition ∧ ∃ before partition after,
      partitions = before ++ partition :: after ∧
      (∀ other ∈ before, other.number ≠ number) ∧
      partition.number = number ∧ start = partition.start.toNat)

/-- The root pointer of a file set unfolds to a tree. -/
inductive Unfolds
    (image : Image)
    (partitions : List Partition)
    (home : Partition)
    (fileSet : FileSet) :
    FileTree Attributes → Prop where
  | file {entry : FileEntry} {node : Node Attributes}
      (entryAt : EntryAt image fileSet.sector fileSet.root.block entry)
      (denotes : Denotes fileSet.sector (Starts partitions home fileSet.root) "" entry
        fileSet.root.partition node)
      (leaf : node.isDirectory = false) :
      Unfolds image partitions home fileSet (.preorder node .nil)
  | directory {entry : FileEntry} {node : Node Attributes} {identifiers : List FileIdentifier}
      {below : Forest (Node Attributes)}
      (entryAt : EntryAt image fileSet.sector fileSet.root.block entry)
      (denotes : Denotes fileSet.sector (Starts partitions home fileSet.root) "" entry
        fileSet.root.partition node)
      (branch : node.isDirectory = true)
      (enters : Enters image fileSet.sector [] entry identifiers)
      (inside : Unfolding image fileSet.sector (Starts partitions home fileSet.root)
        [directoryStart fileSet.sector entry] identifiers below) :
      Unfolds image partitions home fileSet (.preorder node below)

theorem startOf_eq_some_iff
    (partitions : List Partition)
    (home : Partition)
    (fileSet : FileSet)
    (number : UInt16)
    (start : Nat) :
    (Layout.ofFileSet partitions home fileSet).startOf number = some start
      ↔
    Starts partitions home fileSet.root number start := by
  simp only [Layout.ofFileSet, Starts]
  split
  · next hroot =>
      constructor
      · intro h
        exact Or.inl ⟨hroot, (Option.some.inj h).symm⟩
      · rintro (⟨-, rfl⟩ | ⟨hother, -⟩)
        · rfl
        · exact absurd hroot hother
  · next hother =>
      rw [Layout.firstStart?, Option.map_eq_some_iff]
      simp only [List.find?_eq_some_iff_append]
      constructor
      · rintro ⟨partition, ⟨hnumber, before, after, hsplit, hbefore⟩, rfl⟩
        refine Or.inr ⟨hother, before, partition, after, hsplit, ?_, by simpa using hnumber, rfl⟩
        intro other hmem
        simpa using hbefore other hmem
      · rintro (⟨hroot, -⟩ | ⟨-, before, partition, after, hsplit, hbefore, hnumber, rfl⟩)
        · exact absurd hroot hother
        · refine ⟨partition, ⟨by simpa using hnumber, before, after, hsplit, ?_⟩, rfl⟩
          intro other hmem
          simpa using hbefore other hmem

variable {partitions : List Partition}

/-- A tree that is built is the unfolding of a file set that the partitions lead to. -/
theorem exists_unfolds_of_eval_buildTree
    {image : Image}
    {tree : FileTree Attributes}
    (h : image.eval (buildTree partitions) = .ok tree) :
    ∃ home fileSet, Located image partitions home fileSet ∧
      Unfolds image partitions home fileSet tree := by
  rw [buildTree_eq, Image.eval_bind_eq_ok_iff] at h
  obtain ⟨⟨home, fileSet⟩, hfound, h⟩ := h
  have hlocated := (eval_locateFileSet_eq_ok_iff partitions home fileSet).mp hfound
  have hstarts := startOf_eq_some_iff partitions home fileSet
  rw [Image.eval_bind_eq_ok_iff] at h
  obtain ⟨⟨entry, node⟩, hroot, h⟩ := h
  obtain ⟨hentry, hdenotes⟩ := (eval_readNode_eq_ok_iff image _ hstarts _ _ _ _).mp hroot
  refine ⟨home, fileSet, hlocated, ?_⟩
  simp only at h
  split at h
  · next hdirectory =>
      rw [Image.eval_bind_eq_ok_iff] at h
      obtain ⟨below, hcontents, h⟩ := h
      cases h
      obtain ⟨identifiers, henters, hunfolding⟩ :=
        (eval_readContents_eq_ok_iff image _ hstarts rfl entry below).mp hcontents
      rw [FileTree.ofForest_eq_preorder]
      exact .directory hentry hdenotes hdirectory henters hunfolding
  · next hfile =>
      cases h
      exact .file hentry hdenotes (Bool.not_eq_true _ ▸ hfile)

/-- The unfolding of a file set that the partitions lead to is built. -/
theorem eval_buildTree_of_unfolds
    {image : Image}
    {home : Partition}
    {fileSet : FileSet}
    (hlocated : Located image partitions home fileSet)
    {tree : FileTree Attributes}
    (h : Unfolds image partitions home fileSet tree) :
    image.eval (buildTree partitions) = .ok tree := by
  have hstarts := startOf_eq_some_iff partitions home fileSet
  rw [buildTree_eq, Image.eval_bind_eq_ok_iff]
  refine ⟨(home, fileSet), (eval_locateFileSet_eq_ok_iff partitions home fileSet).mpr hlocated, ?_⟩
  rw [Image.eval_bind_eq_ok_iff]
  cases h with
  | @file entry node hentry hdenotes hleaf =>
      refine ⟨(entry, node), (eval_readNode_eq_ok_iff image _ hstarts _ _ _ _).mpr
        ⟨hentry, hdenotes⟩, ?_⟩
      simp only [hleaf]
      rfl
  | @directory entry node identifiers below hentry hdenotes hbranch henters hinside =>
      refine ⟨(entry, node), (eval_readNode_eq_ok_iff image _ hstarts _ _ _ _).mpr
        ⟨hentry, hdenotes⟩, ?_⟩
      simp only [hbranch, if_true]
      rw [Image.eval_bind_eq_ok_iff]
      refine ⟨below, (eval_readContents_eq_ok_iff image _ hstarts rfl entry below).mpr
        ⟨identifiers, henters, hinside⟩, ?_⟩
      rw [← FileTree.ofForest_eq_preorder]
      rfl

/--
**The tree of a UDF volume is exactly what its root pointer unfolds to.**
It is built if and only if the partitions lead to a file set whose root unfolds.
-/
theorem buildTree_succeeds_iff_unfolds
    (image : Image)
    (partitions : List Partition)
    (tree : FileTree Attributes) :
    image.eval (buildTree partitions) = .ok tree
      ↔
    ∃ home fileSet, Located image partitions home fileSet ∧
      Unfolds image partitions home fileSet tree := by
  constructor
  · exact exists_unfolds_of_eval_buildTree
  · rintro ⟨home, fileSet, hlocated, hunfolds⟩
    exact eval_buildTree_of_unfolds hlocated hunfolds

end Tree

section Small

/-- An entry that tells little more than the type of a file and where its contents are. -/
def bareEntry (extended : Bool) (fileType : UInt8) (allocation : Allocation) : FileEntry where
  extended
  fileType
  icbFlags := 0
  uid := 0
  gid := 0
  permissions := 0
  links := 0
  informationLength := 0
  modified := .ofBytes []
  allocation

/-- A file set whose root entry is one sector behind it. -/
def smallFileSetBytes : Bytes :=
  [0, 1] ++ List.replicate 398 0 ++ [0, 8, 0, 0, 1, 0, 0, 0, 7, 0]

/-- An entry of a directory that has 80 bytes two sectors behind the file set. -/
def smallRootBytes : Bytes :=
  [5, 1] ++ List.replicate 25 0 ++ [4] ++ List.replicate 144 0
    ++ [8, 0, 0, 0] ++ [80, 0, 0, 0, 2, 0, 0, 0]

/-- A directory with itself and a file whose entry is three sectors behind the file set. -/
def smallDirectoryBytes : Bytes :=
  [1, 1] ++ List.replicate 14 0 ++ [1, 0, 8, 0] ++ List.replicate 20 0
    ++ [1, 1] ++ List.replicate 14 0 ++ [1, 0, 0, 2] ++ [0, 8, 0, 0, 3, 0, 0, 0, 7, 0]
    ++ List.replicate 8 0 ++ [8, 0x41]

/-- An extended entry of a file that has five bytes five sectors behind the start of its partition. -/
def smallFileBytes : Bytes :=
  [10, 1] ++ List.replicate 25 0 ++ [5] ++ List.replicate 184 0
    ++ [8, 0, 0, 0] ++ [5, 0, 0, 0, 5, 0, 0, 0]

/-- A volume that begins with an extended entry, so its file set stands in the second sector. -/
def smallSectors : List Bytes :=
  [[10, 1], smallFileSetBytes, smallRootBytes, smallDirectoryBytes, smallFileBytes,
    [104, 101, 108, 108, 111]]

/-- The file set of the volume. -/
def smallFileSet : FileSet where
  sector := 1
  recorded := .ofBytes []
  identifier := ""
  root := ⟨2048, 1, 7⟩

/-- The partition is the whole volume. -/
def smallPartition : Partition where
  sector := 0
  number := 7
  start := 0
  length := 6

/-- The root of the volume, which begins two sectors behind the file set. -/
def smallRoot : Node Attributes where
  name := ""
  size := 80
  sector := 3
  isDirectory := true
  attributes := .udf (.ofEntry (bareEntry false 4 ⟨80, 2⟩) 7)

/-- The file of the volume, which begins five sectors behind the start of the partition. -/
def smallFile : Node Attributes where
  name := "A"
  size := 5
  sector := 5
  isDirectory := false
  attributes := .udf (.ofEntry (bareEntry true 5 ⟨5, 5⟩) 7)

theorem smallSectors_fit :
    ∀ bytes ∈ smallSectors, bytes.length ≤ sectorSize := by
  decide +kernel

/-- What stands in a sector of the volume is read from the bytes that it begins with. -/
theorem descriptorAt_small
    (index : Nat)
    {bytes : Bytes}
    (hfound : smallSectors[index]? = some bytes)
    (hshort : (Tag.parse ((Image.fillSector bytes).take Tag.size)).descriptorLength ≤ sectorSize) :
    DescriptorAt (.ofSectors smallSectors) index
      (Tag.parse ((Image.fillSector bytes).take Tag.size)) (Image.fillSector bytes) :=
  descriptorAt_ofSectors smallSectors_fit hfound hshort

theorem parse_smallFileSetBytes :
    FileSet.parse (Image.fillSector smallFileSetBytes) 1 = smallFileSet := by
  decide +kernel

theorem located_small :
    Located (.ofSectors smallSectors) [smallPartition] smallPartition smallFileSet := by
  have hentry := descriptorAt_small 0 rfl (by decide +kernel)
  have hfileSet := descriptorAt_small 1 rfl (by decide +kernel)
  have hpassed : passedSectors (Image.fillSector [10, 1]) = 1 := by decide +kernel
  refine ⟨[], [], rfl, by simp, .passed (by decide) hentry (by decide +kernel) ?_⟩
  rw [hpassed, ← parse_smallFileSetBytes]
  exact .found (by decide) hfileSet (by decide +kernel)

theorem entryAt_small_root :
    EntryAt (.ofSectors smallSectors) 1 1 (bareEntry false 4 ⟨80, 2⟩) :=
  ⟨_, _, descriptorAt_small 2 rfl (by decide +kernel),
    Or.inl ⟨by decide +kernel, by decide +kernel⟩⟩

theorem entryAt_small_file :
    EntryAt (.ofSectors smallSectors) 1 3 (bareEntry true 5 ⟨5, 5⟩) :=
  ⟨_, _, descriptorAt_small 4 rfl (by decide +kernel),
    Or.inr ⟨by decide +kernel, by decide +kernel⟩⟩

/-- The directory holds an identifier of itself and one of the file. -/
theorem enters_small :
    Enters (.ofSectors smallSectors) 1 [] (bareEntry false 4 ⟨80, 2⟩)
      [⟨8, ⟨0, 0, 0⟩, [], 40⟩, ⟨0, ⟨2048, 3, 7⟩, [8, 0x41], 40⟩] where
  shallow := Nat.zero_le _
  unvisited := List.not_mem_nil
  inside := by
    right
    rw [Image.size_ofSectors smallSectors_fit]
    decide +kernel
  holds := by
    have hfound : smallSectors[3]? = some smallDirectoryBytes := rfl
    have hbytes := Image.part_ofSectors_bytes smallSectors_fit hfound
    have hlength : smallDirectoryBytes.length = 80 := by decide +kernel
    rw [hlength] at hbytes
    show Identifiers ((Image.ofSectors smallSectors).part (sectorStart 3) 80) _
    rw [hbytes]
    refine .found (by decide +kernel) (by decide +kernel) (by decide +kernel) ?_
    refine .found (by decide +kernel) (by decide +kernel) (by decide +kernel) ?_
    exact .ended (by decide +kernel)

/-- The volume has a root directory with one file. -/
theorem buildTree_succeeds_iff_unfolds_small :
    Image.eval (.ofSectors smallSectors) (buildTree [smallPartition]) =
      .ok (.preorder smallRoot (.cons smallFile .nil .nil)) := by
  have hstarts : Starts [smallPartition] smallPartition smallFileSet.root 7 0 :=
    Or.inl ⟨rfl, rfl⟩
  have hroot : Denotes 1 (Starts [smallPartition] smallPartition smallFileSet.root) ""
      (bareEntry false 4 ⟨80, 2⟩) 7 smallRoot := .directory rfl
  have hfile : Denotes 1 (Starts [smallPartition] smallPartition smallFileSet.root) "A"
      (bareEntry true 5 ⟨5, 5⟩) 7 smallFile := .file rfl hstarts
  refine (buildTree_succeeds_iff_unfolds _ _ _).mpr ⟨_, _, located_small, ?_⟩
  refine .directory entryAt_small_root hroot rfl enters_small ?_
  exact .omitted rfl (.file rfl entryAt_small_file hfile rfl .ended)

end Small

end Udf
end Optical
