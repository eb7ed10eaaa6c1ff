import Optical.Proofs.Image.Outcomes
import Optical.Proofs.Udf.Places

/-!
# What is taken for a loop

A walk of the descriptors of a volume comes to its end at the first place where it cannot go on. A
sequence that begins where one has begun before is such a place, whether that one is still being read
or was read to its end. So a loop is reported wherever two descriptors name one sequence, although no
sequence need lead back to itself.

* Settles says what the outcome of a walk tells of its places;
* settles_readEach and settles_enterExtent follow the walk of the sequences;
* eval_read_eq_descriptorLoop_iff says when a volume is taken for a loop;
* descriptorLoop_without_cycle is a volume that is taken for one and has none.
-/

namespace Optical
namespace Udf

section Walks

/--
What the outcome of a walk tells: it was stuck at no place, and the sequences that it found have
begun, or it was stuck at a place and at none before.
-/
inductive Settles
    (image : Image)
    (levels : Nat)
    (begun : Set Nat)
    (sectors : List Nat) : Except Error Walked → Prop where
  | passed {walked : Walked}
      (free : ∀ place error, ¬ Stuck image levels begun sectors place error)
      (visited : {start | start ∈ walked.2} = begun ∪ starts image sectors) :
      Settles image levels begun sectors (.ok walked)
  | failed {place : List Nat} {error : Error}
      (stuck : Stuck image levels begun sectors place error)
      (first : ∀ earlier < place, ∀ other, ¬ Stuck image levels begun sectors earlier other) :
      Settles image levels begun sectors (.error error)

variable {image : Image}
variable {levels : Nat}
variable {begun : Set Nat}

/-- The first place where a walk is stuck is what it fails for. -/
theorem Settles.eq_error
    {sectors place : List Nat}
    {outcome : Except Error Walked}
    {error : Error}
    (h : Settles image levels begun sectors outcome)
    (hstuck : Stuck image levels begun sectors place error)
    (hfirst : ∀ earlier < place, ∀ other, ¬ Stuck image levels begun sectors earlier other) :
    outcome = .error error := by
  cases h with
  | passed free => exact absurd hstuck (free place error)
  | @failed found other stuck first =>
      rcases lt_trichotomy found place with hless | rfl | hless
      · exact absurd stuck (hfirst found hless other)
      · rw [stuck.unique hstuck]
      · exact absurd hstuck (first place hless error)

/-- A walk over sectors goes on with those behind, once the ones in front are passed. -/
theorem Settles.append
    {first later : List Nat}
    (hbefore : Before first later)
    {outcome : Except Error Walked}
    (hfirst : Settles image levels begun first outcome)
    {next : Walked → Except Error Walked}
    (hlater : ∀ walked, Settles image levels {start | start ∈ walked.2} later (next walked)) :
    Settles image levels begun (first ++ later) (outcome >>= next) := by
  cases hfirst with
  | @passed walked free visited =>
      have hrest := hlater walked
      rw [visited] at hrest
      show Settles image levels begun (first ++ later) (next walked)
      generalize next walked = outcome at hrest
      cases hrest with
      | passed freeLater visitedLater =>
          refine .passed (fun place error h => ?_) ?_
          · exact (hbefore.stuck_append_iff.mp h).elim (free place error) (freeLater place error)
          · rw [visitedLater, Set.union_assoc, starts_append]
      | failed stuck firstLater =>
          refine .failed (hbefore.stuck_append_iff.mpr (Or.inr stuck))
            fun earlier hearlier other h => ?_
          exact (hbefore.stuck_append_iff.mp h).elim (free earlier other)
            (firstLater earlier hearlier other)
  | @failed place error stuck before =>
      refine .failed (hbefore.stuck_append_iff.mpr (Or.inl stuck))
        fun earlier hearlier other h => ?_
      rcases hbefore.stuck_append_iff.mp h with hfront | hback
      · exact before earlier hearlier other hfront
      · -- Behind the place come all places over the sectors behind.
        obtain ⟨_, hfront⟩ := stuck.exists_leads
        obtain ⟨_, hback⟩ := hback.exists_leads
        exact lt_asymm hearlier (hbefore.place_lt hfront hback)

/-- The descriptors that are listed make no difference. -/
theorem Settles.map
    {sectors : List Nat}
    {outcome : Except Error Walked}
    (h : Settles image levels begun sectors outcome)
    (list : List Descriptor → List Descriptor) :
    Settles image levels begun sectors
      ((fun walked => (list walked.1, walked.2)) <$> outcome) := by
  cases h with
  | passed free visited => exact .passed free visited
  | failed stuck first => exact .failed stuck first

/-- A sector that names no sequence is passed. -/
theorem settles_of_final
    {sector : Nat}
    {found : Option Descriptor}
    (holds : HoldsAt image sector found)
    (final : found.bind Descriptor.continuation? = none)
    (descriptors : List Descriptor)
    (visited : List Nat) :
    Settles image levels {start | start ∈ visited} [sector] (.ok (descriptors, visited)) := by
  refine .passed (fun place error => not_stuck_of_final holds final) ?_
  rw [starts_singleton_of_final holds final, Set.union_empty]

/-- At a sector that is not read a walk is stuck. -/
theorem settles_of_unread
    {sector : Nat}
    {error : Error}
    (h : image.eval (readVolumeDescriptor sector) = .error error) :
    Settles image levels begun [sector] (.error error) := by
  refine .failed (.unread (.here (List.mem_singleton.mpr rfl)) h)
    fun earlier hearlier other hstuck => ?_
  obtain ⟨_, hleads⟩ := hstuck.exists_leads
  exact hleads.not_lt_singleton hearlier

/-- A sequence that has begun before, or for which no level is left, is where a walk is stuck. -/
theorem settles_of_refused
    {sector : Nat}
    {descriptor : Descriptor}
    {extent : ExtentPointer}
    (holds : HoldsAt image sector (some descriptor))
    (onward : descriptor.continuation? = some extent)
    (refused : levels = 0 ∨ extent.location.toNat ∈ begun) :
    Settles image levels begun [sector]
      (.error (.format (.descriptorLoop extent.location.toNat))) := by
  refine .failed ((stuck_singleton_iff holds onward).mpr (Or.inl ⟨rfl, refused, rfl⟩))
    fun earlier hearlier other hstuck => ?_
  obtain ⟨_, hleads⟩ := hstuck.exists_leads
  exact hleads.not_lt_singleton hearlier

/-- The walk of the sequence in which a sector goes on is the walk over the sector. -/
theorem Settles.over_sector
    {sector : Nat}
    {descriptor : Descriptor}
    {extent : ExtentPointer}
    (holds : HoldsAt image sector (some descriptor))
    (onward : descriptor.continuation? = some extent)
    (fresh : extent.location.toNat ∉ begun)
    {outcome : Except Error Walked}
    (h : Settles image levels (insert extent.location.toNat begun) extent.sectors outcome) :
    Settles image (levels + 1) begun [sector] outcome := by
  have hbelow {place : List Nat} {error : Error}
      (hstuck : Stuck image (levels + 1) begun [sector] place error) :
      ∃ below, place = sector :: below ∧
        Stuck image levels (insert extent.location.toNat begun) extent.sectors below error := by
    refine ((stuck_singleton_iff holds onward).mp hstuck).resolve_left ?_
    rintro ⟨-, hlevels | hbegun, -⟩
    · exact Nat.succ_ne_zero levels hlevels
    · exact fresh hbegun
  cases h with
  | passed free visited =>
      refine .passed (fun place error hstuck => ?_) ?_
      · obtain ⟨below, -, hinside⟩ := hbelow hstuck
        exact free below error hinside
      · rw [visited, starts_singleton holds onward, Set.union_insert, Set.insert_union]
  | @failed place error stuck first =>
      refine .failed ((stuck_singleton_iff holds onward).mpr (Or.inr ⟨place, rfl, stuck⟩))
        fun earlier hearlier other hstuck => ?_
      obtain ⟨below, rfl, hinside⟩ := hbelow hstuck
      exact first below (List.cons_lt_cons_self.mp hearlier) other hinside

/-- A sector settles the walk over itself, if the sequence that it leads to does. -/
theorem settles_readOnward
    {enter : ExtentPointer → List Nat → ReadM Walked}
    {sector : Nat}
    {visited : List Nat}
    (henter : ∀ descriptor extent,
      HoldsAt image sector (some descriptor) →
      descriptor.continuation? = some extent →
      Settles image levels {start | start ∈ visited} [sector] (image.eval (enter extent visited))) :
    Settles image levels {start | start ∈ visited} [sector]
      (image.eval (readOnward enter sector visited)) := by
  cases hread : image.eval (readVolumeDescriptor sector) with
  | error error =>
      rw [readOnward, Image.eval_bind, hread]
      exact settles_of_unread hread
  | ok found =>
      have holds := (eval_readVolumeDescriptor_eq_ok_iff image sector found).mp hread
      rw [readOnward, image.eval_bind_of_eq_ok hread]
      cases found with
      | none => exact settles_of_final holds rfl [] visited
      | some descriptor =>
          simp only
          cases honward : descriptor.continuation? with
          | none => exact settles_of_final holds honward [descriptor] visited
          | some extent =>
              simp only
              rw [bind_pure_comp, Image.eval_map]
              exact (henter descriptor extent holds honward).map (descriptor :: ·)

/-- A walk over sectors that ascend settles if what it enters settles the walk over each. -/
theorem settles_readEach
    {enter : ExtentPointer → List Nat → ReadM Walked}
    (henter : ∀ sector descriptor extent visited,
      HoldsAt image sector (some descriptor) →
      descriptor.continuation? = some extent →
      Settles image levels {start | start ∈ visited} [sector] (image.eval (enter extent visited)))
    {sectors : List Nat}
    (hascending : sectors.Pairwise (· < ·))
    (visited : List Nat) :
    Settles image levels {start | start ∈ visited} sectors
      (image.eval (readEach enter sectors visited)) := by
  induction hascending generalizing visited with
  | nil =>
      refine .passed (fun place error hstuck => ?_) ?_
      · obtain ⟨_, hleads⟩ := hstuck.exists_leads
        obtain ⟨head, hhead, -⟩ := hleads.exists_cons
        cases hhead
      · refine (Set.union_eq_self_of_subset_right ?_).symm
        rintro start ⟨place, extent, ⟨_, _, hleads, -⟩, -⟩
        obtain ⟨head, hhead, -⟩ := hleads.exists_cons
        cases hhead
  | @cons sector sectors hbehind _ ih =>
      have hbefore : Before [sector] sectors := fun first hfirst later hlater =>
        List.mem_singleton.mp hfirst ▸ hbehind later hlater
      have hfound : Settles image levels {start | start ∈ visited} [sector] _ :=
        settles_readOnward fun descriptor extent => henter sector descriptor extent visited
      rw [readEach, Image.eval_bind]
      refine hfound.append hbefore fun walked => ?_
      have hlater := (ih walked.2).map (walked.1 ++ ·)
      rw [← Image.eval_map, ← bind_pure_comp] at hlater
      exact hlater

theorem ExtentPointer.sectors_ascending
    (extent : ExtentPointer) :
    extent.sectors.Pairwise (· < ·) :=
  List.pairwise_lt_range'

/-- The sequence in which a sector goes on settles the walk over the sector. -/
theorem settles_enterExtent
    {sector : Nat}
    {descriptor : Descriptor}
    {extent : ExtentPointer}
    (visited : List Nat)
    (holds : HoldsAt image sector (some descriptor))
    (onward : descriptor.continuation? = some extent) :
    Settles image levels {start | start ∈ visited} [sector]
      (image.eval (enterExtent levels extent visited)) := by
  induction levels generalizing sector descriptor extent visited with
  | zero => exact settles_of_refused holds onward (Or.inl rfl)
  | succ levels ih =>
      by_cases hvisited : extent.location.toNat ∈ visited
      · rw [enterExtent_of_mem levels extent hvisited]
        exact settles_of_refused holds onward (Or.inr hvisited)
      · rw [enterExtent_succ levels extent hvisited]
        refine Settles.over_sector holds onward hvisited ?_
        have hbegun : insert extent.location.toNat {start | start ∈ visited} =
            {start | start ∈ extent.location.toNat :: visited} :=
          Set.ext fun start => List.mem_cons.symm
        rw [hbegun]
        exact settles_readEach (fun _ _ _ visited => ih visited) extent.sectors_ascending _

end Walks

section Volumes

variable {image : Image}

theorem eq_unknownDescriptor_of_parse?
    {tag : Tag}
    {raw : Bytes}
    {sector : Nat}
    {fault : FormatFault}
    (h : Descriptor.parse? tag raw sector = .error fault) :
    fault = .unknownDescriptor tag.identifier sector := by
  rw [Descriptor.parse?] at h
  -- One case for each type of descriptor, one for a blank and one for an unknown type.
  repeat' split at h
  all_goals cases h
  rfl

/-- A descriptor that is not read is no loop. -/
theorem failsOnly_readVolumeDescriptor
    (sector : Nat) :
    image.FailsOnly (fun error => ∀ start, error ≠ .format (.descriptorLoop start))
      (readVolumeDescriptor sector) := by
  intro error herror start hloop
  subst hloop
  rw [readVolumeDescriptor, Image.eval_bind_eq_error_iff] at herror
  rcases herror with hread | ⟨⟨tag, raw⟩, -, hparse⟩
  · rw [readDescriptor, Image.eval_bind_eq_error_iff] at hread
    rcases hread with htag | ⟨bytes, -, hraw⟩
    · cases Image.failsOnly_readExact _ _ _ htag
    · rw [image.eval_bind_of_eq_ok (image.eval_readAt _ _)] at hraw
      split at hraw
      · cases hraw
      · cases hraw
  · simp only at hparse
    split at hparse
    · cases hparse
    · next hfault =>
        cases hparse
        cases eq_unknownDescriptor_of_parse? hfault

/-- The walk that begins at the first anchor. -/
theorem settles_from_anchor
    (anchor : Nat) :
    Settles image maxNesting {anchor} [anchor]
      (image.eval (readSequence (maxNesting + 1) anchor none [])) := by
  have hbegun : ({anchor} : Set Nat) = {start | start ∈ [anchor]} :=
    Set.ext fun start => List.mem_singleton.symm
  rw [readSequence_anchor, hbegun]
  exact settles_readEach (fun _ _ _ visited => settles_enterExtent visited)
    (List.pairwise_singleton _ anchor) [anchor]

/-- A volume is not read for the reason at the first place where the walk cannot go on. -/
theorem eval_read_eq_error
    {anchor : Nat}
    {place : List Nat}
    {error : Error}
    (hanchor : (anchorsOf image).head? = some anchor)
    (hstuck : Stuck image maxNesting {anchor} [anchor] place error)
    (hfirst : ∀ earlier < place, ∀ other,
      ¬ Stuck image maxNesting {anchor} [anchor] earlier other) :
    image.eval Volume.read = .error error := by
  obtain ⟨others, hothers⟩ := List.head?_eq_some_iff.mp hanchor
  rw [Volume.read, image.eval_bind_of_eq_ok (eval_probe image), hothers]
  simp only [Image.eval_bind]
  rw [(settles_from_anchor anchor).eq_error hstuck hfirst]
  rfl

/-- A volume that is not read because of a loop has a first anchor, and a first place to tell it. -/
theorem exists_stuck_of_eval_read
    {sector : Nat}
    (h : image.eval Volume.read = .error (.format (.descriptorLoop sector))) :
    ∃ anchor place,
      (anchorsOf image).head? = some anchor ∧
      Stuck image maxNesting {anchor} [anchor] place (.format (.descriptorLoop sector)) ∧
      ∀ earlier < place, ∀ other, ¬ Stuck image maxNesting {anchor} [anchor] earlier other := by
  rw [Volume.read, image.eval_bind_of_eq_ok (eval_probe image)] at h
  cases hanchors : anchorsOf image with
  | nil =>
      rw [hanchors] at h
      cases h
  | cons anchor others =>
      rw [hanchors] at h
      simp only [Image.eval_bind] at h
      have hsettles : Settles image maxNesting {anchor} [anchor] _ := settles_from_anchor anchor
      generalize image.eval (readSequence (maxNesting + 1) anchor none []) = outcome at h hsettles
      cases hsettles with
      | passed => cases h
      | @failed place _ stuck first =>
          cases h
          exact ⟨anchor, place, rfl, stuck, first⟩

/--
**What is taken for a loop.** A volume is not read because of a loop at a sector exactly if this is
the reason at the first place where the walk from the first anchor cannot go on: the sequence in
which the descriptor there goes on begins at the sector, and either it is nested more than 16 deep,
or the anchor stands at the sector, or an earlier place has named a sequence that begins there. Where
that sequence was named makes no difference: it need not be one of those that lead to the place.
-/
theorem eval_read_eq_descriptorLoop_iff
    (image : Image)
    (sector : Nat) :
    image.eval Volume.read = .error (.format (.descriptorLoop sector))
      ↔
    ∃ anchor place extent,
      (anchorsOf image).head? = some anchor ∧
      Opens image [anchor] place extent ∧
      extent.location.toNat = sector ∧
      (maxNesting < place.length ∨
        sector = anchor ∨
        ∃ earlier < place, ∃ other,
          Opens image [anchor] earlier other ∧ other.location.toNat = sector) ∧
      ∀ earlier < place, ∀ error, ¬ Stuck image maxNesting {anchor} [anchor] earlier error := by
  constructor
  · intro h
    obtain ⟨anchor, place, hanchor, hstuck, hfirst⟩ := exists_stuck_of_eval_read h
    cases hstuck with
    | unread _ hfailed => exact absurd rfl (failsOnly_readVolumeDescriptor _ _ hfailed sector)
    | @looped extent hopens hrefused =>
        exact ⟨anchor, place, extent, hanchor, hopens, rfl, hrefused, hfirst⟩
  · rintro ⟨anchor, place, extent, hanchor, hopens, rfl, hrefused, hfirst⟩
    exact eval_read_eq_error hanchor (.looped hopens hrefused) hfirst

end Volumes

section Shared

/-- A logical volume whose state is told in the sequence at sector three. -/
def sharingVolume : Bytes :=
  [6, 0] ++ List.replicate 430 0 ++ [0, 8, 0, 0, 3, 0, 0, 0]

/-- An anchor for sector four with a sequence of two sectors from sector one on. -/
def sharingAnchor : Bytes :=
  [2, 0, 0, 0, 6, 0, 0, 0, 0, 0, 0, 0, 4, 0, 0, 0, 0, 16, 0, 0, 1, 0, 0, 0]

/-- Two logical volumes whose state is told in one sequence, which ends there. -/
def sharingImage : Image :=
  .ofSectors [[], sharingVolume, sharingVolume, [9, 0], sharingAnchor]

theorem sharingImage_fits :
    ∀ bytes ∈ [[], sharingVolume, sharingVolume, [9, 0], sharingAnchor],
      bytes.length ≤ sectorSize := by
  decide +kernel

theorem anchorsOf_sharingImage : anchorsOf sharingImage = [4] := by
  have hsize : sharingImage.size = 10240 := Image.size_ofSectors sharingImage_fits
  have htag : sharingImage.part (sectorStart 4) Tag.size = sharingAnchor.take Tag.size :=
    (Image.part_ofSectors_take sharingImage_fits rfl (by decide)).trans (by decide +kernel)
  have hanchor : IsAnchor sharingImage 4 := by
    rw [IsAnchor, hsize, htag]
    decide +kernel
  have hcandidates : anchorCandidates (10240 / sectorSize) = [32, 256, 4] := by decide
  have hbehind {sector : Nat} (h : 5 ≤ sector) : ¬ IsAnchor sharingImage sector := by
    rw [IsAnchor, hsize, sectorStart, sectorSize, Tag.size]
    omega
  rw [anchorsOf, hsize, hcandidates]
  simp [hanchor, hbehind]

/-- What stands in a sector of the image is read from the bytes that it begins with. -/
theorem holdsAt_sharingImage
    {index : Nat}
    {bytes : Bytes}
    (hfound : [[], sharingVolume, sharingVolume, [9, 0], sharingAnchor][index]? = some bytes)
    (hshort : (Tag.parse ((Image.fillSector bytes).take Tag.size)).descriptorLength ≤ sectorSize)
    {found : Option Descriptor}
    (hparse : Descriptor.parse? (Tag.parse ((Image.fillSector bytes).take Tag.size))
      (Image.fillSector bytes) index = .ok found) :
    HoldsAt sharingImage index found :=
  ⟨_, _, descriptorAt_ofSectors sharingImage_fits hfound hshort, hparse⟩

theorem holdsAt_anchor :
    HoldsAt sharingImage 4 (some (.anchor 4 ⟨4096, 1⟩ ⟨0, 0⟩)) :=
  holdsAt_sharingImage rfl (by decide +kernel) (by decide +kernel)

theorem exists_holdsAt_integrity :
    ∃ recorded, HoldsAt sharingImage 3 (some (.integrity 3 recorded ⟨0, 0⟩)) :=
  ⟨_, holdsAt_sharingImage rfl (by decide +kernel) rfl⟩

theorem exists_holdsAt_volume
    {index : Nat}
    (hindex : index = 1 ∨ index = 2) :
    ∃ volume : LogicalVolume, HoldsAt sharingImage index (some (.logicalVolume volume)) ∧
      volume.integrity = ⟨2048, 3⟩ := by
  rcases hindex with rfl | rfl
  · refine ⟨_, holdsAt_sharingImage rfl (by decide +kernel) rfl, by decide +kernel⟩
  · refine ⟨_, holdsAt_sharingImage rfl (by decide +kernel) rfl, by decide +kernel⟩

theorem continuation?_of_integrity
    {volume : LogicalVolume}
    (h : volume.integrity = ⟨2048, 3⟩) :
    (Descriptor.logicalVolume volume).continuation? = some ⟨2048, 3⟩ := by
  rw [Descriptor.continuation?, Descriptor.nextExtent?, h]
  rfl

/-- Over the sector of a volume nothing is named but the shared sequence. -/
theorem opens_volume_iff
    {index : Nat}
    (hindex : index = 1 ∨ index = 2)
    {place : List Nat}
    {extent : ExtentPointer} :
    Opens sharingImage [index] place extent ↔ place = [index] ∧ extent = ⟨2048, 3⟩ := by
  obtain ⟨volume, hholds, hintegrity⟩ := exists_holdsAt_volume hindex
  obtain ⟨recorded, hlast⟩ := exists_holdsAt_integrity
  have hend {place : List Nat} {extent : ExtentPointer} :
      ¬ Opens sharingImage (ExtentPointer.sectors ⟨2048, 3⟩) place extent :=
    not_opens_of_final hlast rfl
  rw [opens_singleton_iff hholds (continuation?_of_integrity hintegrity)]
  simp only [hend, and_false, exists_false, or_false]

/-- A walk over a volume is stuck only where the shared sequence has begun. -/
theorem stuck_volume_iff
    {index : Nat}
    (hindex : index = 1 ∨ index = 2)
    {begun : Set Nat}
    {place : List Nat}
    {error : Error} :
    Stuck sharingImage 15 begun [index] place error
      ↔
    place = [index] ∧ 3 ∈ begun ∧ error = .format (.descriptorLoop 3) := by
  obtain ⟨volume, hholds, hintegrity⟩ := exists_holdsAt_volume hindex
  obtain ⟨recorded, hlast⟩ := exists_holdsAt_integrity
  have hend {begun : Set Nat} {place : List Nat} {error : Error} :
      ¬ Stuck sharingImage 14 begun (ExtentPointer.sectors ⟨2048, 3⟩) place error :=
    not_stuck_of_final hlast rfl
  have hlevels : ¬ 15 = 0 := by decide
  rw [stuck_singleton_iff hholds (continuation?_of_integrity hintegrity)]
  simp only [hend, and_false, exists_false, or_false, hlevels, false_or]
  rfl

theorem sectors_main : ExtentPointer.sectors ⟨4096, 1⟩ = [1] ++ [2] := by
  decide

/-- The walk is stuck at the second volume and nowhere else. -/
theorem stuck_sharingImage_iff
    {place : List Nat}
    {error : Error} :
    Stuck sharingImage maxNesting {4} [4] place error
      ↔
    place = [4, 2] ∧ error = .format (.descriptorLoop 3) := by
  have hbefore : Before [1] [2] := by simp [Before]
  rw [stuck_singleton_iff holdsAt_anchor rfl, sectors_main]
  constructor
  · rintro (⟨-, hrefused, -⟩ | ⟨below, rfl, hbelow⟩)
    · exact absurd hrefused (by decide)
    · rcases hbefore.stuck_append_iff.mp hbelow with hfirst | hsecond
      · obtain ⟨-, hbegun, -⟩ := (stuck_volume_iff (Or.inl rfl)).mp hfirst
        exact absurd hbegun (by decide)
      · obtain ⟨rfl, -, rfl⟩ := (stuck_volume_iff (Or.inr rfl)).mp hsecond
        exact ⟨rfl, rfl⟩
  · rintro ⟨rfl, rfl⟩
    refine Or.inr ⟨[2], rfl, hbefore.stuck_append_iff.mpr (Or.inr ?_)⟩
    refine (stuck_volume_iff (Or.inr rfl)).mpr ⟨rfl, Or.inr ?_, rfl⟩
    exact ⟨[1], ⟨2048, 3⟩, (opens_volume_iff (Or.inl rfl)).mpr ⟨rfl, rfl⟩, rfl⟩

/--
Two descriptors that name one sequence are taken for a loop, although no sequence that is named leads
back to where it begins, nor that of the anchor, and none is nested more than 16 deep.
-/
theorem descriptorLoop_without_cycle :
    sharingImage.eval Volume.read = .error (.format (.descriptorLoop 3)) ∧
    anchorsOf sharingImage = [4] ∧
    4 ∉ starts sharingImage [4] ∧
    ∀ place extent, Opens sharingImage [4] place extent →
      place.length ≤ maxNesting ∧ extent.location.toNat ∉ starts sharingImage extent.sectors := by
  have hmain {place : List Nat} {extent : ExtentPointer}
      (h : Opens sharingImage (ExtentPointer.sectors ⟨4096, 1⟩) place extent) :
      place.length = 1 ∧ extent = ⟨2048, 3⟩ := by
    rw [sectors_main, opens_append_iff, opens_volume_iff (Or.inl rfl),
      opens_volume_iff (Or.inr rfl)] at h
    rcases h with ⟨rfl, rfl⟩ | ⟨rfl, rfl⟩ <;> exact ⟨rfl, rfl⟩
  have hplaces {place : List Nat} {extent : ExtentPointer}
      (h : Opens sharingImage [4] place extent) :
      place.length ≤ 2 ∧ (extent = ⟨4096, 1⟩ ∨ extent = ⟨2048, 3⟩) := by
    rcases (opens_singleton_iff holdsAt_anchor rfl).mp h with ⟨rfl, rfl⟩ | ⟨below, rfl, hbelow⟩
    · exact ⟨by decide, Or.inl rfl⟩
    · obtain ⟨hlength, rfl⟩ := hmain hbelow
      exact ⟨by rw [List.length_cons, hlength], Or.inr rfl⟩
  have hend : starts sharingImage (ExtentPointer.sectors ⟨2048, 3⟩) = ∅ := by
    obtain ⟨recorded, hlast⟩ := exists_holdsAt_integrity
    exact starts_singleton_of_final hlast rfl
  refine ⟨?_, anchorsOf_sharingImage, ?_, fun place extent hopens => ?_⟩
  · have hanchor : (anchorsOf sharingImage).head? = some 4 := by rw [anchorsOf_sharingImage]; rfl
    refine eval_read_eq_error hanchor (stuck_sharingImage_iff.mpr ⟨rfl, rfl⟩)
      fun earlier hearlier other hstuck => ?_
    obtain ⟨rfl, -⟩ := stuck_sharingImage_iff.mp hstuck
    exact lt_irrefl _ hearlier
  · rintro ⟨place, extent, hopens, hstart⟩
    obtain ⟨-, rfl | rfl⟩ := hplaces hopens
    · exact absurd hstart (by decide)
    · exact absurd hstart (by decide)
  · obtain ⟨hlength, rfl | rfl⟩ := hplaces hopens
    · refine ⟨Nat.le_trans hlength (by decide), ?_⟩
      rintro ⟨below, another, hbelow, hstart⟩
      obtain ⟨-, rfl⟩ := hmain hbelow
      exact absurd hstart (by decide)
    · rw [hend]
      exact ⟨Nat.le_trans hlength (by decide), Set.notMem_empty _⟩

end Shared

end Udf
end Optical
