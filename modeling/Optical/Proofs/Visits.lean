import Optical.Iso.Tree
import Optical.Udf.Tree

/-!
# The directories above a directory

A walk through directories keeps a set of those that it is in. Whatever is read to its end leaves the
set as it was: a directory is taken out that was put in, and what lies in it has left the set alone by
induction. So the set that a directory meets is that of the directories above it, and what is read
there can be told without a set that changes.

* Restores says that a walk leaves the set as it was, and what it reads if it does; it is kept by
  sequencing, and Restores.visit keeps it where a directory is visited;
* readContents and readRecords are the contents and the records of a directory, told by the
  directories above it, and restores_visitContents and restores_visitRecords tie the walks to them;
* buildTree_eq, collectRecords_eq and Udf.buildTree_eq say what is read by a whole walk.
-/

namespace Optical

namespace VisitM

variable {α β : Type}

/-- A walk leaves the set of directories as it was, and reads what a program reads for that set. -/
def Restores (walk : VisitM α) (program : (above : List Nat) → ReadM α) : Prop :=
  ∀ above, walk.run above = (fun value => (value, above)) <$> program above

namespace Restores

theorem of_pure
    (value : α) :
    Restores (pure value) fun _ => pure value := by
  intro above
  rw [StateT.run_pure, map_pure]

theorem of_throw
    (error : Error) :
    Restores (throw error : VisitM α) (fun _ => throw error) := by
  intro above
  rfl

/-- What is read of the medium has no influence on the set. -/
theorem of_read
    (program : ReadM α) :
    Restores (liftM program) fun _ => program := by
  intro above
  rw [map_eq_pure_bind]
  rfl

theorem bind
    {walk : VisitM α}
    {program : List Nat → ReadM α}
    {next : α → VisitM β}
    {later : α → List Nat → ReadM β}
    (h : Restores walk program)
    (hnext : ∀ value, Restores (next value) (later value)) :
    Restores (walk >>= next) fun above => program above >>= fun value => later value above := by
  intro above
  rw [StateT.run_bind, h above, map_bind, bind_map_left]
  exact bind_congr fun value => hnext value above

/-- Steps for the elements of a list restore the set if those for each element do. -/
theorem mapM
    {step : α → VisitM β}
    {program : List Nat → α → ReadM β}
    (h : ∀ element, Restores (step element) (program · element))
    (elements : List α) :
    Restores (elements.mapM step) fun above => elements.mapM (program above) := by
  induction elements with
  | nil => exact .of_pure []
  | cons element elements ih =>
      simp only [List.mapM_cons]
      exact (h element).bind fun value => ih.bind fun values => .of_pure (value :: values)

/-- A directory that was put into the set is taken out of it once it is read. -/
theorem visit
    {inside : VisitM α}
    {program : List Nat → ReadM α}
    (h : Restores inside program)
    (sector : Nat) :
    Restores (visit sector inside) fun above =>
      if sector ∈ above then throw (.directoryCycle sector) else program (sector :: above) := by
  intro above
  rw [VisitM.visit, StateT.run_bind, StateT.run_get, pure_bind]
  by_cases hmem : sector ∈ above
  · simp only [if_pos hmem]
    rfl
  · simp only [if_neg hmem]
    rw [StateT.run_bind, StateT.run_modify, pure_bind, StateT.run_bind, h (sector :: above),
      bind_map_left, map_eq_pure_bind]
    refine bind_congr fun value => ?_
    rw [StateT.run_bind, StateT.run_modify, pure_bind, List.erase_cons_head]
    rfl

/-- A walk that begins outside all directories. -/
theorem start_eq
    {walk : VisitM α}
    {program : List Nat → ReadM α}
    (h : Restores walk program) :
    walk.start = program [] := by
  rw [start, StateT.run'_eq, h, Functor.map_map]
  exact id_map (program [])

end Restores

end VisitM

namespace Iso

open VisitM

section Contents

/--
The contents of a directory, given how many levels are left and the sectors of the directories that
it lies in.
-/
def readContents (rockRidge : Bool) : (levels : Nat) → (above : List Nat) → Extent →
    ReadM DirectoryContents
  | 0, _, _ => throw .directoryTooDeep
  | levels + 1, above, extent =>
      if extent.sector ∈ above then throw (.directoryCycle extent.sector)
      else do
        let listing ← readDirectory extent
        let enter := readContents rockRidge levels (extent.sector :: above)
        return (listing.clean, ← entriesOf rockRidge enter listing.records)

/-- The entries of a directory restore the set if the directories among them do. -/
theorem restores_entriesOf
    (rockRidge : Bool)
    {enter : Extent → VisitM DirectoryContents}
    {program : List Nat → Extent → ReadM DirectoryContents}
    (h : ∀ extent, Restores (enter extent) (program · extent))
    (records : List DirectoryRecord) :
    Restores (entriesOf rockRidge enter records)
      fun above => entriesOf rockRidge (program above) records := by
  refine (Restores.mapM (fun record => ?_) _).bind fun trees => .of_pure (Forest.ofTrees trees)
  by_cases hdirectory : record.isDirectory
  · simp only [entryOf, if_pos hdirectory]
    exact (h record.extent).bind fun contents => .of_pure _
  · simp only [entryOf, if_neg hdirectory]
    exact .of_pure _

/-- The walk through the contents of a directory leaves the set as it was. -/
theorem restores_visitContents
    (rockRidge : Bool)
    (levels : Nat)
    (extent : Extent) :
    Restores (visitContents rockRidge levels extent)
      (readContents rockRidge levels · extent) := by
  induction levels generalizing extent with
  | zero => exact .of_throw .directoryTooDeep
  | succ levels ih =>
      have hinside := (Restores.of_read (readDirectory extent)).bind fun listing =>
        (restores_entriesOf rockRidge ih listing.records).bind fun entries =>
          .of_pure (listing.clean, entries)
      exact hinside.visit extent.sector

/-- The tree below a root record, told by the directories above each directory. -/
theorem buildTree_eq
    (root : DirectoryRecord)
    (rockRidge : Bool) :
    buildTree root rockRidge = do
      let (clean, below) ← readContents rockRidge (maxDirectoryDepth + 1) [] root.extent
      return .ofForest (rootNode root clean) below := by
  rw [buildTree, (restores_visitContents rockRidge _ root.extent).start_eq]

end Contents

section Records

/--
The records below a directory, given how many levels are left and the sectors of the directories
that it lies in.
-/
def readRecords : (levels : Nat) → (above : List Nat) → Extent → ReadM (List DirectoryRecord)
  | 0, _, _ => throw .directoryTooDeep
  | levels + 1, above, extent =>
      if extent.sector ∈ above then throw (.directoryCycle extent.sector)
      else do
        let listing ← readDirectory extent
        recordsOf (readRecords levels (extent.sector :: above)) listing.records

/-- The records of a directory restore the set if those of the directories among them do. -/
theorem restores_recordsOf
    {enter : Extent → VisitM (List DirectoryRecord)}
    {program : List Nat → Extent → ReadM (List DirectoryRecord)}
    (h : ∀ extent, Restores (enter extent) (program · extent))
    (records : List DirectoryRecord) :
    Restores (recordsOf enter records) fun above => recordsOf (program above) records := by
  refine (Restores.mapM (fun record => ?_) _).bind fun lists => .of_pure lists.flatten
  by_cases hfollowed : record.isDirectory && !record.isTopLevel
  · simp only [recordAndBelow, if_pos hfollowed]
    exact (h record.extent).bind fun below => .of_pure (record :: below)
  · simp only [recordAndBelow, if_neg hfollowed]
    exact .of_pure [record]

/-- The walk through the records of a directory leaves the set as it was. -/
theorem restores_visitRecords
    (levels : Nat)
    (extent : Extent) :
    Restores (visitRecords levels extent) (readRecords levels · extent) := by
  induction levels generalizing extent with
  | zero => exact .of_throw .directoryTooDeep
  | succ levels ih =>
      have hinside := (Restores.of_read (readDirectory extent)).bind fun listing =>
        restores_recordsOf ih listing.records
      exact hinside.visit extent.sector

/-- All records below an extent, told by the directories above each directory. -/
theorem collectRecords_eq
    (extent : Extent) :
    collectRecords extent = readRecords (maxDirectoryDepth + 1) [] extent := by
  rw [collectRecords, (restores_visitRecords _ extent).start_eq]

end Records

end Iso

namespace Udf

open VisitM

section Contents

namespace Layout

/--
The contents of a directory, given how many levels are left and the sectors of the directories
that it lies in.
-/
def readContents (layout : Layout) : (levels : Nat) → (above : List Nat) → FileEntry →
    ReadM (Forest (Node Attributes))
  | 0, _, _ => throw .directoryTooDeep
  | levels + 1, above, entry =>
      let sector := layout.directorySector entry
      if sector ∈ above then throw (.directoryCycle sector)
      else do
        let raw ← ReadM.readExact (sectorStart sector) entry.allocation.length.toNat
        let (identifiers, ending) := fileIdentifiers 0 raw
        let enter := readContents layout levels (sector :: above)
        layout.entriesOf (endError? sector ending) enter identifiers

/-- The entries of a directory restore the set if the directories among them do. -/
theorem restores_entriesOf
    (layout : Layout)
    (failure : Option Error)
    {enter : FileEntry → VisitM (Forest (Node Attributes))}
    {program : List Nat → FileEntry → ReadM (Forest (Node Attributes))}
    (h : ∀ entry, Restores (enter entry) (program · entry))
    (identifiers : List FileIdentifier) :
    Restores (layout.entriesOf failure enter identifiers)
      fun above => layout.entriesOf failure (program above) identifiers := by
  refine (Restores.mapM (fun found => ?_) _).bind fun trees => ?_
  · refine (Restores.of_read (layout.readNode _ found.icb)).bind fun (entry, node) => ?_
    by_cases hdirectory : node.isDirectory
    · simp only [if_pos hdirectory]
      exact (h entry).bind fun below => .of_pure (node, below)
    · simp only [if_neg hdirectory]
      exact (Restores.of_pure Forest.nil).bind fun below => .of_pure (node, below)
  · cases failure with
    | none => exact .of_pure (Forest.ofTrees trees)
    | some error => exact .of_throw error

/-- The walk through the contents of a directory leaves the set as it was. -/
theorem restores_visitContents
    (layout : Layout)
    (levels : Nat)
    (entry : FileEntry) :
    Restores (layout.visitContents levels entry) (layout.readContents levels · entry) := by
  induction levels generalizing entry with
  | zero => exact .of_throw .directoryTooDeep
  | succ levels ih =>
      have hinside := (Restores.of_read (ReadM.readExact
        (sectorStart (layout.directorySector entry)) entry.allocation.length.toNat)).bind fun raw =>
          layout.restores_entriesOf (endError? (layout.directorySector entry)
            (fileIdentifiers 0 raw).2) ih (fileIdentifiers 0 raw).1
      exact hinside.visit (layout.directorySector entry)

end Layout

/-- The tree of partitions, told by the directories above each directory. -/
theorem buildTree_eq
    (partitions : List Partition) :
    buildTree partitions = do
      let (home, fileSet) ← locateFileSet partitions
      let layout := Layout.ofFileSet partitions home fileSet
      let (entry, node) ← layout.readNode "" fileSet.root
      if node.isDirectory then
        return .ofForest node (← layout.readContents (maxDirectoryDepth + 1) [] entry)
      else return .ofRoot node := by
  simp only [buildTree, (Layout.restores_visitContents _ _ _).start_eq]

end Contents

end Udf

end Optical
