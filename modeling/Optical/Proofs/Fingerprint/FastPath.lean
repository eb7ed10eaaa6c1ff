import Optical.Proofs.Addresses
import Optical.Proofs.Fingerprint.Samples
import Optical.Proofs.Iso.Layout
import Optical.Proofs.Iso.Tables

/-!
# Reading a file by its lines on an unchanged image

A file of a tree can be read in two ways: its extent at once, or, without the tree, by the two lines
of its fingerprints. On an image that has not changed both ways come to the same end. They give the
same bytes, or both find that the image ends inside the extent; the lines are never refused and never
taken for those of another state.

Three facts are put together:

* the lines of fingerprints that were taken read back;
* the digests that are computed again are the recorded ones;
* a stream over an extent hands over the bytes of the extent or fails as their read does.
-/

namespace Optical
namespace Fingerprint

section Unchanged

variable {image : Image}
variable {κ : Type}
variable {entry : Entry κ}

/-- On the image that was marked, two lines give a stream over the extent of the file. -/
theorem eval_resolve_onImage
    (hsize : image.size < offsetBound)
    (hend : entry.endOffset < offsetBound) :
    image.eval (resolve
        (String.ofList (ImageFingerprint.onImage image sectorSize imageSamples).render)
        (String.ofList (FileFingerprint.onImage image entry).render)) =
      some <$> (image.ask (Window.ofExtent entry.extent).readRemaining).1 := by
  have himage := ImageFingerprint.parse_render (ImageFingerprint.sound_onImage hsize)
  have hfile := FileFingerprint.parse_render (FileFingerprint.sound_onImage image hend)
  rw [eval_resolve image himage hfile (FileFingerprint.window?_onImage image hend)]
  exact if_pos ⟨rfl, rfl⟩

end Unchanged

/--
**A file is read by its lines as it is read by its extent.**
For every node of every tree that an image is read as, both fingerprints can be taken, and their
lines give the bytes of the node exactly when its extent can be read, and the same bytes. If the
image ends inside the extent, both reads say so; the lines are neither refused nor found outdated.
The length of an image in memory is a 64-bit number; no line could keep a greater one.
-/
theorem resolve_taken_lines
    {image : Image}
    (addressable : image.size < offsetBound)
    {settings : Settings}
    {tree : FileTree Attributes}
    (built : image.eval (buildTree settings) = .ok tree)
    {id : Nat}
    {entry : Entry Attributes}
    (found : tree.get? id = some entry) :
    ∃ imageMark fileMark,
      image.eval ImageFingerprint.ofImage = .ok imageMark ∧
      image.eval (FileFingerprint.ofEntry entry) = .ok fileMark ∧
      (∀ bytes,
        image.eval (resolve (String.ofList imageMark.render) (String.ofList fileMark.render)) =
            .ok (some bytes)
          ↔
        image.eval entry.extent.contents = .ok bytes) ∧
      (∀ failure, image.eval entry.extent.contents = .error failure →
        failure.isUnexpectedEnd = true ∧
        ∃ resolveFailure,
          image.eval (resolve (String.ofList imageMark.render) (String.ofList fileMark.render)) =
            .error resolveFailure ∧
          resolveFailure.isUnexpectedEnd = true) ∧
      image.eval (resolve (String.ofList imageMark.render) (String.ofList fileMark.render)) ≠
        .ok none ∧
      ∀ text,
        image.eval (resolve (String.ofList imageMark.render) (String.ofList fileMark.render)) ≠
          .error (.invalidFingerprint text) := by
  have hend := endOffset_lt_of_eval_buildTree built found
  have htaken := ImageFingerprint.eval_take image sectorSize imageSamples
  have hmarked := (FileFingerprint.eval_ofEntry_eq_ok_iff image _).mpr ⟨hend, rfl⟩
  refine ⟨_, _, htaken, hmarked, ?_⟩
  rw [eval_resolve_onImage addressable hend]
  rcases entry.extent.contents_or_unexpectedEnd image with
    ⟨bytes, hcontents, hstream⟩ | ⟨failure, streamFailure, hcontents, hended, hstream, hstreamEnded⟩
  · rw [hcontents, hstream]
    refine ⟨fun other => ?_, ?_, ?_, ?_⟩
    · constructor
      · intro h
        cases h
        rfl
      · intro h
        cases h
        rfl
    · intro failure h
      cases h
    · intro h
      cases h
    · intro text h
      cases h
  · rw [hcontents, hstream]
    refine ⟨fun bytes => ?_, ?_, ?_, ?_⟩
    · constructor
      · intro h
        cases h
      · intro h
        cases h
    · intro other h
      cases h
      exact ⟨hended, streamFailure, rfl, hstreamEnded⟩
    · intro h
      cases h
    · intro text h
      cases h
      cases hstreamEnded

section Small

open Iso

/-- The descriptor of a volume whose root is that of the small catalog. -/
def smallDescriptor : Bytes :=
  [1] ++ VolumeHeader.magic ++ [1] ++ List.replicate 149 0 ++ smallRoot.encode

/-- An image of the small catalog with its descriptor in sector 16. -/
def smallImage : Image :=
  .ofSectors (smallSectors ++ (List.replicate 13 [] ++ [smallDescriptor]))

theorem smallDescriptor_fits :
    ∀ bytes ∈ List.replicate 13 [] ++ [smallDescriptor], bytes.length ≤ sectorSize := by
  decide +kernel

theorem smallImage_size : smallImage.size = sectorStart 17 :=
  Image.size_ofSectors (smallSectors_fit smallDescriptor_fits)

theorem eval_volumeRead_smallImage :
    ∃ volume, smallImage.eval Volume.read = .ok volume ∧ volume.root 0 = .ok smallRoot := by
  have hstep : scanStep (Image.fillSector smallDescriptor) = .keep .primary := by decide +kernel
  have hroot : (VolumeDescriptor.parse (Image.fillSector smallDescriptor) .primary 0 16).root =
      some smallRoot := by decide +kernel
  have hfit := smallSectors_fit smallDescriptor_fits
  rw [← List.append_assoc] at hfit
  have hread := eval_volumeRead_ofSectors hfit rfl hstep
  rw [List.append_assoc] at hread
  refine ⟨_, hread, ?_⟩
  simp only [Volume.root, List.getElem?_cons_zero, firstDescriptorSector, hroot]

/-- A file whose path holds a bar is read by its lines. -/
theorem resolve_taken_lines_small :
    ∃ (tree : FileTree Attributes) (entry : Entry Attributes)
      (imageMark : ImageFingerprint) (fileMark : FileFingerprint),
      smallImage.size < offsetBound ∧
      smallImage.eval (buildTree (.iso false 0)) = .ok tree ∧
      tree.get? 2 = some entry ∧
      entry.path = "/A|B" ∧
      smallImage.eval ImageFingerprint.ofImage = .ok imageMark ∧
      smallImage.eval (FileFingerprint.ofEntry entry) = .ok fileMark ∧
      smallImage.eval (resolve (String.ofList imageMark.render) (String.ofList fileMark.render)) =
        .ok (some [1, 2, 3, 4]) := by
  have hsize : smallImage.size < offsetBound := by
    rw [smallImage_size]
    decide
  obtain ⟨hpacked, hlaidOut⟩ := laidOut_small smallDescriptor_fits
  have hbuilt : smallImage.eval (buildTree (.iso false 0)) =
      .ok (FileTree.preorder (rootNode smallRoot true) (smallCatalog.nodes.map Prod.fst)) := by
    obtain ⟨volume, hvolume, hroot⟩ := eval_volumeRead_smallImage
    rw [buildTree, Image.eval_bind_eq_ok_iff]
    refine ⟨volume, hvolume, ?_⟩
    rw [Volume.buildTree, hroot]
    exact eval_buildTree_of_laidOut (by decide) hpacked hlaidOut
  have hfound : (FileTree.preorder (rootNode smallRoot true)
      (smallCatalog.nodes.map Prod.fst)).get? 2 = some _ := rfl
  obtain ⟨imageMark, fileMark, himage, hfile, hresolved, -⟩ :=
    resolve_taken_lines hsize hbuilt hfound
  refine ⟨_, _, imageMark, fileMark, hsize, hbuilt, hfound, ?_, himage, hfile, ?_⟩
  · decide +kernel
  · rw [hresolved]
    exact hlaidOut.eval_contents _ _ (List.mem_cons_of_mem _ List.mem_cons_self)

end Small

end Fingerprint
end Optical
