import Optical.Proofs.Image.Outcomes
import Optical.Proofs.Iso.Walk

/-!
# The guards of a walk

Directories may lead back to one another, and a walk that followed them all would not come to an end.
Two guards stop it: a directory must not begin where one on the way to it does, and the way must not
be too long. They are described here by the ways that go down from a directory, each step to a
directory that is listed in the one before.

* IsWay says what a way is, and Passable what the guards and the image ask of it;
* passable_of_eval_readContents says that a walk succeeds only if all ways are passable;
* stops_of_eval_readContents says that a walk fails only at the end of a way, and for which reasons;
* buildTree_guards puts both together: the guards stop no walk but those that they have to.
-/

namespace Optical
namespace Iso

section Ways

variable (image : Image)

/-- A directory is listed in another, under a name of its own. -/
def LeadsTo (upper lower : Extent) : Prop :=
  ∃ listing record,
    image.eval (readDirectory upper) = .ok listing ∧
    record ∈ listing.records ∧
    record.isTopLevel = false ∧
    record.isDirectory = true ∧
    lower = record.extent

/-- A way down from a directory: each directory on it is listed in the one before. -/
inductive IsWay : Extent → List Extent → Prop where
  | here (start : Extent) : IsWay start [start]
  | down {start next : Extent} {way : List Extent}
      (leads : LeadsTo image start next)
      (onward : IsWay next way) :
      IsWay start (start :: way)

/-- The directories of a way begin at different sectors, none of which is one of those above. -/
structure Distinct (above : List Nat) (way : List Extent) : Prop where
  nodup : (way.map Extent.sector).Nodup
  unvisited : ∀ extent ∈ way, extent.sector ∉ above

/-- A walk may go the whole way, given the levels that are left and the sectors above. -/
structure Passable (levels : Nat) (above : List Nat) (way : List Extent) : Prop where
  short : way.length ≤ levels
  distinct : Distinct above way
  readable : ∀ extent ∈ way, ∃ listing, image.eval (readDirectory extent) = .ok listing

/--
A walk stops at the last directory of a way, the others on it being passed: the last one begins where
an earlier one does, or no level is left for it, or it cannot be listed.
-/
inductive Stops (levels : Nat) (above : List Nat) (start : Extent) : Error → Prop where
  | cycle {way : List Extent} {last : Extent}
      (onWay : IsWay image start (way ++ [last]))
      (distinct : Distinct above way)
      (short : way.length < levels)
      (visited : last.sector ∈ way.map Extent.sector ∨ last.sector ∈ above) :
      Stops levels above start (.directoryCycle last.sector)
  | tooDeep {way : List Extent} {last : Extent}
      (onWay : IsWay image start (way ++ [last]))
      (distinct : Distinct above way)
      (long : way.length = levels) :
      Stops levels above start .directoryTooDeep
  | unreadable {way : List Extent} {last : Extent} {error : Error}
      (onWay : IsWay image start (way ++ [last]))
      (distinct : Distinct above (way ++ [last]))
      (short : way.length < levels)
      (failed : image.eval (readDirectory last) = .error error) :
      Stops levels above start error

variable {image}
variable {levels : Nat}
variable {above : List Nat}
variable {start next : Extent}

theorem Distinct.nil : Distinct above [] where
  nodup := List.nodup_nil
  unvisited extent h := by cases h

/-- A directory that begins at no sector above comes before a way below it. -/
theorem Distinct.cons
    {way : List Extent}
    (hnew : start.sector ∉ above)
    (h : Distinct (start.sector :: above) way) :
    Distinct above (start :: way) where
  nodup := by
    refine List.nodup_cons.mpr ⟨fun hmem => ?_, h.nodup⟩
    obtain ⟨extent, hextent, hsame⟩ := List.mem_map.mp hmem
    exact h.unvisited extent hextent (hsame ▸ List.mem_cons_self)
  unvisited := by
    rw [List.forall_mem_cons]
    exact ⟨hnew, fun extent hextent hmem =>
      h.unvisited extent hextent (List.mem_cons_of_mem _ hmem)⟩

theorem not_nodup_of_visited
    {way : List Extent}
    {last : Extent}
    (h : last.sector ∈ way.map Extent.sector) :
    ¬ ((way ++ [last]).map Extent.sector).Nodup := by
  rw [List.map_append, List.nodup_append]
  rintro ⟨-, -, hapart⟩
  exact hapart _ h _ List.mem_cons_self rfl

/-- What stops a walk one level further down stops it as well from the directory before. -/
theorem Stops.down
    {error : Error}
    (hleads : LeadsTo image start next)
    (hnew : start.sector ∉ above)
    (h : Stops image levels (start.sector :: above) next error) :
    Stops image (levels + 1) above start error := by
  cases h with
  | @cycle way last hway hdistinct hshort hvisited =>
      refine .cycle (.down hleads hway) (hdistinct.cons hnew) (Nat.succ_lt_succ hshort) ?_
      rw [List.map_cons, List.mem_cons, or_assoc, or_left_comm, ← List.mem_cons]
      exact hvisited
  | tooDeep hway hdistinct hlong =>
      exact .tooDeep (.down hleads hway) (hdistinct.cons hnew) (congrArg Nat.succ hlong)
  | @unreadable way last _ hway hdistinct hshort hfailed =>
      have honward : IsWay image start ((start :: way) ++ [last]) := .down hleads hway
      exact .unreadable honward (hdistinct.cons hnew) (Nat.succ_lt_succ hshort) hfailed

end Ways

section Walks

variable {image : Image}
variable {rockRidge : Bool}
variable {levels : Nat}
variable {above : List Nat}
variable {start : Extent}

/-- The directories that a directory leads to are read with it, one level further down. -/
theorem exists_eval_readContents_of_leadsTo
    {contents : DirectoryContents}
    (h : image.eval (readContents rockRidge (levels + 1) above start) = .ok contents)
    {next : Extent}
    (hleads : LeadsTo image start next) :
    ∃ inside,
      image.eval (readContents rockRidge levels (start.sector :: above) next) = .ok inside := by
  obtain ⟨clean, below⟩ := contents
  obtain ⟨-, listing, hlisting, -, hentries⟩ :=
    (eval_readContents_succ_eq_ok_iff image levels above start clean below).mp h
  obtain ⟨trees, htrees, -⟩ := (eval_entriesOf_eq_ok_iff image _ _ _).mp hentries
  obtain ⟨found, record, hfound, hrecord, hproper, hdirectory, rfl⟩ := hleads
  rw [hlisting] at hfound
  cases hfound
  have hkept : record ∈ listing.records.filter fun record => !record.isTopLevel :=
    List.mem_filter.mpr ⟨hrecord, by rw [hproper]; rfl⟩
  obtain ⟨tree, -, htree⟩ := Image.exists_of_mem_right htrees.flip hkept
  rcases (eval_entryOf_eq_ok_iff image _ _ _).mp htree with
    ⟨-, clean, below, hinside, -⟩ | ⟨hfile, -⟩
  · exact ⟨(clean, below), hinside⟩
  · rw [hdirectory] at hfile
    cases hfile

/-- Entries fail to be read only if a directory among them does. -/
theorem exists_of_eval_entriesOf_eq_error
    {enter : Extent → ReadM DirectoryContents}
    {records : List DirectoryRecord}
    {error : Error}
    (h : image.eval (entriesOf rockRidge enter records) = .error error) :
    ∃ record ∈ records, record.isTopLevel = false ∧ record.isDirectory = true ∧
      image.eval (enter record.extent) = .error error := by
  rw [entriesOf, Image.eval_bind_eq_error_iff] at h
  rcases h with hentries | ⟨trees, -, h⟩
  · obtain ⟨record, hmem, hentry⟩ := Image.exists_of_eval_mapM_eq_error image hentries
    obtain ⟨hrecord, hproper⟩ := List.mem_filter.mp hmem
    rw [entryOf] at hentry
    split at hentry
    · next hdirectory =>
        rw [Image.eval_bind_eq_error_iff] at hentry
        rcases hentry with hinside | ⟨contents, -, hentry⟩
        · exact ⟨record, hrecord, by simpa using hproper, hdirectory, hinside⟩
        · cases hentry
    · cases hentry
  · cases h

/-- A directory fails to be read by itself, or because one that it leads to does. -/
theorem eval_readContents_succ_eq_error
    {error : Error}
    (h : image.eval (readContents rockRidge (levels + 1) above start) = .error error) :
    (start.sector ∈ above ∧ error = .directoryCycle start.sector) ∨
      (start.sector ∉ above ∧
        (image.eval (readDirectory start) = .error error ∨
          ∃ next, LeadsTo image start next ∧
            image.eval (readContents rockRidge levels (start.sector :: above) next) =
              .error error)) := by
  rw [readContents] at h
  split at h
  · next hcycle =>
      cases h
      exact Or.inl ⟨hcycle, rfl⟩
  · next hnew =>
      refine Or.inr ⟨hnew, ?_⟩
      rw [Image.eval_bind_eq_error_iff] at h
      rcases h with hlisting | ⟨listing, hlisting, h⟩
      · exact Or.inl hlisting
      · rw [Image.eval_bind_eq_error_iff] at h
        rcases h with hentries | ⟨below, -, h⟩
        · obtain ⟨record, hrecord, hproper, hdirectory, hinside⟩ :=
            exists_of_eval_entriesOf_eq_error hentries
          exact Or.inr ⟨record.extent,
            ⟨listing, record, hlisting, hrecord, hproper, hdirectory, rfl⟩, hinside⟩
        · cases h

/-- A walk that succeeds has gone all ways down from its start. -/
theorem passable_of_eval_readContents
    {contents : DirectoryContents}
    (h : image.eval (readContents rockRidge levels above start) = .ok contents)
    {way : List Extent}
    (hway : IsWay image start way) :
    Passable image levels above way := by
  induction hway generalizing levels above contents with
  | here start =>
      cases levels with
      | zero => cases h
      | succ levels =>
          obtain ⟨hnew, listing, hlisting, -⟩ :=
            (eval_readContents_succ_eq_ok_iff image levels above start _ _).mp h
          refine ⟨Nat.le_add_left 1 levels, Distinct.nil.cons hnew, ?_⟩
          rw [List.forall_mem_singleton]
          exact ⟨listing, hlisting⟩
  | @down start next way hleads _ ih =>
      cases levels with
      | zero => cases h
      | succ levels =>
          obtain ⟨hnew, listing, hlisting, -⟩ :=
            (eval_readContents_succ_eq_ok_iff image levels above start _ _).mp h
          obtain ⟨inside, hinside⟩ := exists_eval_readContents_of_leadsTo h hleads
          have honward := ih hinside
          refine ⟨Nat.succ_le_succ honward.short, honward.distinct.cons hnew, ?_⟩
          rw [List.forall_mem_cons]
          exact ⟨⟨listing, hlisting⟩, honward.readable⟩

/-- A walk that fails has come to the end of a way where it has to stop. -/
theorem stops_of_eval_readContents
    {error : Error}
    (h : image.eval (readContents rockRidge levels above start) = .error error) :
    Stops image levels above start error := by
  induction levels generalizing above start with
  | zero =>
      cases h
      exact .tooDeep (.here start) .nil rfl
  | succ levels ih =>
      rcases eval_readContents_succ_eq_error h with
        ⟨hcycle, rfl⟩ | ⟨hnew, hfailed | ⟨next, hleads, hnext⟩⟩
      · exact .cycle (.here start) .nil (Nat.succ_pos levels) (Or.inr hcycle)
      · have hhere : IsWay image start ([] ++ [start]) := .here start
        exact .unreadable hhere (Distinct.nil.cons hnew) (Nat.succ_pos levels) hfailed
      · exact (ih hnext).down hleads hnew

/-- A listing fails only where the image ends. -/
theorem failsOnly_readDirectory
    (extent : Extent) :
    image.FailsOnly (·.isUnexpectedEnd = true) (readDirectory extent) := by
  rw [readDirectory]
  generalize extent.sector = sector
  induction extent.sectorCount generalizing sector with
  | zero => exact Image.failsOnly_pure Listing.empty
  | succ count ih =>
      rw [readSectors]
      refine (Image.failsOnly_readExact _ _).bind fun bytes => ?_
      exact (ih (sector + 1)).bind fun later => Image.failsOnly_pure _

/-- A way on which a walk stops is not one that it may go. -/
theorem Stops.exists_not_passable
    {error : Error}
    (h : Stops image levels [] start error) :
    ∃ way, IsWay image start way ∧ ¬ Passable image levels [] way := by
  cases h with
  | @cycle way last hway hdistinct hshort hvisited =>
      have hsector := hvisited.resolve_right List.not_mem_nil
      exact ⟨_, hway, fun hpassable => not_nodup_of_visited hsector hpassable.distinct.nodup⟩
  | @tooDeep way last hway hdistinct hlong =>
      refine ⟨_, hway, fun hpassable => ?_⟩
      have hshort := hpassable.short
      rw [List.length_append, List.length_singleton, hlong] at hshort
      omega
  | @unreadable way last _ hway hdistinct hshort hfailed =>
      refine ⟨_, hway, fun hpassable => ?_⟩
      obtain ⟨listing, hlisting⟩ := hpassable.readable last (List.mem_append_right _ (by simp))
      rw [hfailed] at hlisting
      cases hlisting

theorem stops_of_eval_buildTree
    {root : DirectoryRecord}
    {error : Error}
    (h : image.eval (buildTree root rockRidge) = .error error) :
    Stops image (maxDirectoryDepth + 1) [] root.extent error := by
  rw [buildTree_eq, Image.eval_bind_eq_error_iff] at h
  rcases h with hcontents | ⟨contents, -, h⟩
  · exact stops_of_eval_readContents hcontents
  · cases h

/--
**The guards of a walk.** A tree is read exactly if every way down from its root has at most 65
directories, which begin at different sectors and can all be listed. If it is not read, a way shows
why: its last directory is the second one at its sector, or the sixty-sixth, or it cannot be listed.
So a directory that is reached by two ways is no cycle.
-/
theorem buildTree_guards
    (image : Image)
    (root : DirectoryRecord)
    (rockRidge : Bool) :
    ((∃ tree, image.eval (buildTree root rockRidge) = .ok tree) ↔
      ∀ way, IsWay image root.extent way →
        way.length ≤ maxDirectoryDepth + 1 ∧
        (way.map Extent.sector).Nodup ∧
        ∀ extent ∈ way, ∃ listing, image.eval (readDirectory extent) = .ok listing) ∧
    (∀ error, image.eval (buildTree root rockRidge) = .error error →
      (∃ way last, IsWay image root.extent (way ++ [last]) ∧
        way.length ≤ maxDirectoryDepth ∧
        (way.map Extent.sector).Nodup ∧
        last.sector ∈ way.map Extent.sector ∧
        error = .directoryCycle last.sector) ∨
      (∃ way last, IsWay image root.extent (way ++ [last]) ∧
        way.length = maxDirectoryDepth + 1 ∧
        (way.map Extent.sector).Nodup ∧
        error = .directoryTooDeep) ∨
      (∃ way last, IsWay image root.extent (way ++ [last]) ∧
        way.length ≤ maxDirectoryDepth ∧
        ((way ++ [last]).map Extent.sector).Nodup ∧
        image.eval (readDirectory last) = .error error ∧
        error.isUnexpectedEnd = true)) ∧
    ((∀ way, IsWay image root.extent way → (way.map Extent.sector).Nodup) →
      ∀ sector, image.eval (buildTree root rockRidge) ≠ .error (.directoryCycle sector)) := by
  refine ⟨⟨?_, fun hways => ?_⟩, fun error herror => ?_, fun hways sector herror => ?_⟩
  · rintro ⟨tree, htree⟩ way hway
    obtain ⟨clean, below, hcontents, -⟩ := (eval_buildTree_eq_ok_iff image root tree).mp htree
    have hpassable := passable_of_eval_readContents hcontents hway
    exact ⟨hpassable.short, hpassable.distinct.nodup, hpassable.readable⟩
  · cases houtcome : image.eval (buildTree root rockRidge) with
    | ok tree => exact ⟨tree, rfl⟩
    | error error =>
        obtain ⟨way, hway, hnot⟩ := (stops_of_eval_buildTree houtcome).exists_not_passable
        obtain ⟨hshort, hnodup, hreadable⟩ := hways way hway
        exact absurd ⟨hshort, ⟨hnodup, by simp⟩, hreadable⟩ hnot
  · cases stops_of_eval_buildTree herror with
    | @cycle way last hway hdistinct hshort hvisited =>
        exact Or.inl ⟨way, last, hway, Nat.le_of_lt_succ hshort, hdistinct.nodup,
          hvisited.resolve_right List.not_mem_nil, rfl⟩
    | @tooDeep way last hway hdistinct hlong =>
        exact Or.inr (Or.inl ⟨way, last, hway, hlong, hdistinct.nodup, rfl⟩)
    | @unreadable way last _ hway hdistinct hshort hfailed =>
        exact Or.inr (Or.inr ⟨way, last, hway, Nat.le_of_lt_succ hshort, hdistinct.nodup, hfailed,
          failsOnly_readDirectory last error hfailed⟩)
  · cases stops_of_eval_buildTree herror with
    | @cycle way last hway hdistinct hshort hvisited =>
        exact not_nodup_of_visited (hvisited.resolve_right List.not_mem_nil) (hways _ hway)
    | @unreadable way last _ hway hdistinct hshort hfailed =>
        -- Only the end of the image keeps a directory from being listed.
        cases failsOnly_readDirectory last _ hfailed

end Walks

end Iso
end Optical
