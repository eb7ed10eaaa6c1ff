import Optical.Detection
import Optical.Proofs.Fingerprint.FastPath
import Optical.Proofs.Iso.Ranking
import Optical.Proofs.Udf.Sequences

/-!
# Detection on any image

Whatever bytes an image holds, detection comes to one of three ends. An image with a sound anchor is
read as UDF. Any other image is read by one of its ISO9660 tables that have a tree, and if there is
no such table, then no file system is found. No other error comes up, since a search of an image
stays inside it and passes over what it cannot read.

The main statement is detect_outcomes. Settings that are detected for a table name the table that
was searched, although the descriptors are read a second time for the tree.
-/

namespace Optical

section Anchors

variable (image : Image)

theorem Udf.exists_eval_probe :
    ∃ anchors, image.eval probe = .ok anchors :=
  ⟨anchorsOf image, eval_probe image⟩

end Anchors

section Detection

variable {image : Image}
variable {anchors : List Nat}
variable {volume : Iso.Volume}

/-- An image with an anchor is read as UDF, whatever else it holds. -/
theorem eval_detect_of_anchor
    (hprobe : image.eval Udf.probe = .ok anchors)
    (hanchor : anchors ≠ []) :
    image.eval detect = .ok .udf := by
  rw [detect, Image.eval_bind_eq_ok_iff]
  refine ⟨anchors, hprobe, ?_⟩
  cases anchors with
  | nil => exact absurd rfl hanchor
  | cons anchor anchors => rfl

/-- An image without an anchor is read by the table that the search of its volume chooses. -/
theorem eval_detect_of_no_anchor
    (hprobe : image.eval Udf.probe = .ok [])
    (hvolume : image.eval Iso.Volume.read = .ok volume)
    {choice? : Option Iso.TableChoice}
    (hchoice : image.eval volume.bestTable = .ok choice?) :
    image.eval detect =
      choice?.elim (.error .noFileSystem) fun choice =>
        .ok (.iso choice.rockRidge choice.table) := by
  rw [detect, Image.eval_bind, hprobe]
  show image.eval (Iso.Volume.read >>= _) = _
  rw [Image.eval_bind, hvolume]
  show image.eval (volume.bestTable >>= _) = _
  rw [Image.eval_bind, hchoice]
  cases choice? <;> rfl

/-- The tree of a table is built with any names if one of the descriptors with its index has it. -/
theorem exists_eval_buildTree
    (hvolume : image.eval Iso.Volume.read = .ok volume)
    (hscanned : Iso.ScannedFrom 0 volume.descriptors)
    {descriptor : Iso.VolumeDescriptor}
    (hdescriptor : descriptor ∈ volume.descriptors)
    {rockRidge : Bool}
    (htree : Iso.HasTree image rockRidge descriptor) :
    ∃ tree, image.eval (buildTree (.iso rockRidge descriptor.index)) = .ok tree := by
  obtain ⟨root, tree, hroot, htree⟩ := htree
  refine ⟨tree, ?_⟩
  rw [buildTree, Image.eval_bind_eq_ok_iff]
  refine ⟨volume, hvolume, ?_⟩
  exact (hscanned.eval_buildTree_eq_ok_iff _ _ _).mpr
    ⟨descriptor, hdescriptor, rfl, root, hroot, htree⟩

end Detection

/--
**Detection on any image.** The anchors and the descriptors of an image can be read, whatever it
holds, and detection gives settings or finds no file system.

It gives UDF if there is an anchor. Without one it finds no file system if no primary or enhanced
descriptor with the record of a root has a tree, whichever names the tree shows. Settings for an
ISO9660 table have a tree.
-/
theorem detect_outcomes
    (image : Image) :
    ∃ anchors volume,
      image.eval Udf.probe = .ok anchors ∧
      image.eval Iso.Volume.read = .ok volume ∧
      ((∃ settings, image.eval detect = .ok settings) ∨
        image.eval detect = .error .noFileSystem) ∧
      (image.eval detect = .ok .udf ↔ anchors ≠ []) ∧
      (∀ rockRidge,
        image.eval detect = .error .noFileSystem
          ↔
        anchors = [] ∧ ¬ ∃ descriptor ∈ volume.descriptors,
          (descriptor.kind = .primary ∨ descriptor.kind = .enhanced) ∧
            Iso.HasTree image rockRidge descriptor) ∧
      ∀ rockRidge table,
        image.eval detect = .ok (.iso rockRidge table) →
          ∃ tree, image.eval (buildTree (.iso rockRidge table)) = .ok tree := by
  obtain ⟨anchors, hprobe⟩ := Udf.exists_eval_probe image
  obtain ⟨volume, hvolume, hscanned⟩ := Iso.exists_eval_volumeRead image
  obtain ⟨choice?, hchoice, hnone, hfound⟩ := Iso.exists_eval_bestTable image volume
  refine ⟨anchors, volume, hprobe, hvolume, ?_⟩
  by_cases hanchor : anchors = []
  · rw [hanchor] at hprobe
    have hdetect := eval_detect_of_no_anchor hprobe hvolume hchoice
    simp only [hscanned.exists_hasTree_iff, ← hnone]
    cases choice? with
    | none =>
        rw [hdetect]
        simp [hanchor]
    | some choice =>
        obtain ⟨descriptor, hdescriptor, hindex, htree⟩ := hfound choice rfl
        rw [hdetect]
        refine ⟨Or.inl ⟨_, rfl⟩, by simp [hanchor], by simp, fun rockRidge table h => ?_⟩
        cases h
        rw [← hindex]
        exact exists_eval_buildTree hvolume hscanned hdescriptor
          ((Iso.hasTree_iff image _ _ descriptor).mp htree)
  · have hdetect := eval_detect_of_anchor hprobe hanchor
    rw [hdetect]
    refine ⟨Or.inl ⟨_, rfl⟩, by simp [hanchor], by simp [hanchor], fun rockRidge table h => ?_⟩
    cases h

section Small

open Fingerprint

theorem eval_probe_smallImage : smallImage.eval Udf.probe = .ok [] := by
  have htag : smallImage.part (sectorStart 16) Udf.Tag.size =
      (Image.fillSector smallDescriptor).take Udf.Tag.size :=
    Image.part_ofSectors_take (Iso.smallSectors_fit smallDescriptor_fits) rfl (by decide)
  have hinvalid : Udf.Tag.isValidAt ((Image.fillSector smallDescriptor).take Udf.Tag.size)
      Udf.Tag.anchorPointer 16 = false := by decide +kernel
  have hcandidates : Udf.anchorCandidates (sectorStart 17 / sectorSize) = [32, 256, 16] := by
    decide
  rw [Udf.eval_probe, Udf.anchorsOf, smallImage_size, hcandidates, List.filter_eq_nil_iff.mpr]
  simp only [List.forall_mem_cons, decide_eq_true_eq, Udf.IsAnchor, smallImage_size, htag, hinvalid]
  exact ⟨fun h => absurd h.1 (by decide), fun h => absurd h.1 (by decide), by simp⟩

/-- The small image is read by a table of its volume. -/
theorem detect_outcomes_small :
    ∃ rockRidge table tree,
      smallImage.eval detect = .ok (.iso rockRidge table) ∧
      smallImage.eval (buildTree (.iso rockRidge table)) = .ok tree := by
  obtain ⟨anchors, volume, hprobe, hvolume, hends, hudf, hnone, hbuilds⟩ :=
    detect_outcomes smallImage
  obtain ⟨scanned, hscan, hscanned⟩ := Iso.exists_eval_volumeRead smallImage
  obtain ⟨found, hfound, hroot⟩ := eval_volumeRead_smallImage
  rw [hvolume] at hscan hfound
  cases hscan
  cases hfound
  rw [eval_probe_smallImage] at hprobe
  cases hprobe
  -- The first descriptor has a tree, so the search cannot find no file system.
  obtain ⟨descriptor, hplace, hrecord⟩ : ∃ descriptor,
      volume.descriptors[0]? = some descriptor ∧ descriptor.root = some Iso.smallRoot := by
    rw [Iso.Volume.root] at hroot
    split at hroot
    · cases hroot
    · next descriptor hplace =>
        split at hroot
        · cases hroot
        · next root hrecord =>
            cases hroot
            exact ⟨descriptor, hplace, hrecord⟩
  have hdescriptor := List.mem_of_getElem? hplace
  obtain ⟨hpacked, hlaidOut⟩ := Iso.laidOut_small smallDescriptor_fits
  have htree : Iso.HasTree smallImage false descriptor :=
    ⟨_, _, hrecord, Iso.eval_buildTree_of_laidOut (by decide) hpacked hlaidOut⟩
  have hkind := hscanned.kind descriptor hdescriptor (by rw [hrecord]; rfl)
  have hsome : smallImage.eval detect ≠ .error .noFileSystem := fun hfailed =>
    ((hnone false).mp hfailed).2 ⟨descriptor, hdescriptor, hkind, htree⟩
  obtain ⟨settings, hsettings⟩ := hends.resolve_right hsome
  cases settings with
  | udf => exact absurd rfl (hudf.mp hsettings)
  | iso rockRidge table =>
      obtain ⟨tree, hbuilt⟩ := hbuilds rockRidge table hsettings
      exact ⟨rockRidge, table, tree, hsettings, hbuilt⟩

end Small

end Optical
