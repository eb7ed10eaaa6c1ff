import Optical.Proofs.Iso.Agreement
import Optical.Proofs.Iso.Guards
import Optical.Proofs.Iso.Packing
import Optical.Proofs.Iso.Scan

/-!
# Tables of contents on any image

A volume reads whatever an image holds in place of descriptors and directories. The scan of the
descriptors stays inside the image, and whatever is wrong with the tree of a table concerns this
table alone.

* exists_eval_volumeRead says that the scan succeeds and that every descriptor can be found again by
  its index;
* eval_volumeRead_ofSectors is the scan of an image that ends with its only descriptor;
* failsOnly_buildTree bounds the errors of a tree;
* hasTree_iff says that the names that are shown do not decide whether a table has a tree.
-/

namespace Optical
namespace Iso

section Scan

variable {image : Image}

/-- What a scan that gives the first descriptor an index gives. -/
structure ScannedFrom (first : Nat) (descriptors : List VolumeDescriptor) : Prop where
  /-- A descriptor is found again by its index. -/
  index : ∀ place descriptor, descriptors[place]? = some descriptor →
    descriptor.index = first + place
  /-- Only a primary or an enhanced descriptor holds the record of a root. -/
  kind : ∀ descriptor ∈ descriptors, descriptor.root.isSome = true →
    descriptor.kind = .primary ∨ descriptor.kind = .enhanced

/-- The descriptors in the sectors of a run are counted from the index of the first. -/
theorem scannedFrom_describe
    (index : Nat)
    (found : List (Nat × VolumeKind)) :
    ScannedFrom index (describe image index found) where
  index place descriptor h := congrArg VolumeDescriptor.index (describe_getElem? h)
  kind descriptor hmem hrooted := by
    obtain ⟨place, hplace⟩ := List.mem_iff_getElem?.mp hmem
    rw [describe_getElem? hplace] at hrooted
    cases hkind : descriptor.kind with
    | primary => exact Or.inl rfl
    | enhanced => exact Or.inr rfl
    | bootRecord | partition | terminator =>
        rw [hkind] at hrooted
        cases hrooted

/-- A descriptor stands in the place that its index names. -/
theorem ScannedFrom.getElem?_index
    {descriptors : List VolumeDescriptor}
    (h : ScannedFrom 0 descriptors)
    {descriptor : VolumeDescriptor}
    (hmem : descriptor ∈ descriptors) :
    descriptors[descriptor.index]? = some descriptor := by
  obtain ⟨place, hplace⟩ := List.mem_iff_getElem?.mp hmem
  rw [h.index place descriptor hplace, Nat.zero_add]
  exact hplace

/-- The tables are scanned in the order of their indices. -/
theorem ScannedFrom.pairwise_index
    {first : Nat}
    {descriptors : List VolumeDescriptor}
    (h : ScannedFrom first descriptors) :
    descriptors.Pairwise fun earlier later => earlier.index < later.index := by
  rw [List.pairwise_iff_getElem]
  intro place other hplace hother hbefore
  rw [h.index place _ (List.getElem?_eq_getElem hplace),
    h.index other _ (List.getElem?_eq_getElem hother)]
  exact Nat.add_lt_add_left hbefore first

theorem exists_eval_volumeRead
    (image : Image) :
    ∃ volume, image.eval Volume.read = .ok volume ∧ ScannedFrom 0 volume.descriptors := by
  obtain ⟨count, -, hread⟩ := exists_isRun image
  exact ⟨_, hread, scannedFrom_describe 0 _⟩

/-- A volume with one table, whose descriptor ends the image. -/
theorem eval_volumeRead_ofSectors
    {sectors : List Bytes}
    {descriptor : Bytes}
    {kind : VolumeKind}
    (hfit : ∀ bytes ∈ sectors ++ [descriptor], bytes.length ≤ sectorSize)
    (hplace : sectors.length = firstDescriptorSector)
    (hkind : scanStep (Image.fillSector descriptor) = .keep kind) :
    (Image.ofSectors (sectors ++ [descriptor])).eval Volume.read =
      .ok ⟨[.parse (Image.fillSector descriptor) kind 0 firstDescriptorSector]⟩ := by
  have hsize : (Image.ofSectors (sectors ++ [descriptor])).size =
      sectorStart (firstDescriptorSector + 1) := by
    rw [Image.size_ofSectors hfit, List.length_append, hplace]
    rfl
  have hfound : (sectors ++ [descriptor])[firstDescriptorSector]? = some descriptor := by
    rw [← hplace, List.getElem?_concat_length]
  have hread := Image.eval_readSector (Nat.le_of_eq hsize.symm)
  rw [Image.sectorAt, Image.part_ofSectors hfit hfound] at hread
  rw [Volume.read, Image.eval_bind_eq_ok_iff]
  refine ⟨_, Image.eval_size _, ?_⟩
  rw [hsize]
  show Image.eval _ (scanFrom (sectorStart 17) 0 (0 + 1) firstDescriptorSector >>= _) = _
  rw [Image.eval_bind_eq_ok_iff]
  refine ⟨_, ?_, rfl⟩
  rw [scanFrom, if_neg (by decide), Image.eval_bind_eq_ok_iff]
  refine ⟨_, hread, ?_⟩
  rw [hkind]
  exact (Image.eval_bind_eq_ok_iff _ _ _ _).mpr ⟨[], rfl, rfl⟩

end Scan

section Failures

/-- Whatever is wrong with a directory or with one below it concerns its own table only. -/
theorem failsOnly_buildTree
    (image : Image)
    (rockRidge : Bool)
    (root : DirectoryRecord) :
    image.FailsOnly (isUnreadableTable · = true) (buildTree root rockRidge) := by
  intro error herror
  cases stops_of_eval_buildTree herror with
  | cycle => rfl
  | tooDeep => rfl
  | @unreadable way last _ _ _ _ hfailed =>
      have hended := failsOnly_readDirectory last error hfailed
      cases error with
      | medium fault => exact hended
      | _ => cases hended

end Failures

section Trees

/-- The tree of a table can be read. -/
def HasTree (image : Image) (rockRidge : Bool) (descriptor : VolumeDescriptor) : Prop :=
  ∃ root tree, descriptor.root = some root ∧ image.eval (buildTree root rockRidge) = .ok tree

/-- Whether a tree can be read does not depend on the names that are shown. -/
theorem hasTree_iff
    (image : Image)
    (first second : Bool)
    (descriptor : VolumeDescriptor) :
    HasTree image first descriptor ↔ HasTree image second descriptor := by
  have hsame : ∀ root, (∃ tree, image.eval (buildTree root first) = .ok tree) ↔
      ∃ tree, image.eval (buildTree root second) = .ok tree := by
    intro root
    rw [(exists_contents_lockstep image first root).exists_ok_iff,
      (exists_contents_lockstep image second root).exists_ok_iff]
  constructor
  · rintro ⟨root, tree, hroot, htree⟩
    obtain ⟨other, hother⟩ := (hsame root).mp ⟨tree, htree⟩
    exact ⟨root, other, hroot, hother⟩
  · rintro ⟨root, tree, hroot, htree⟩
    obtain ⟨other, hother⟩ := (hsame root).mpr ⟨tree, htree⟩
    exact ⟨root, other, hroot, hother⟩

/-- Of scanned descriptors only the primary and the enhanced ones can have a tree. -/
theorem ScannedFrom.exists_hasTree_iff
    {image : Image}
    {first : Nat}
    {descriptors : List VolumeDescriptor}
    (h : ScannedFrom first descriptors)
    (rockRidge : Bool) :
    (∃ descriptor ∈ descriptors,
      (descriptor.kind = .primary ∨ descriptor.kind = .enhanced) ∧
        HasTree image rockRidge descriptor)
      ↔
    ∃ descriptor ∈ descriptors, HasTree image true descriptor := by
  constructor
  · rintro ⟨descriptor, hdescriptor, -, htree⟩
    exact ⟨descriptor, hdescriptor, (hasTree_iff image _ _ descriptor).mp htree⟩
  · rintro ⟨descriptor, hdescriptor, htree⟩
    have hrooted : descriptor.root.isSome = true := by
      obtain ⟨root, -, hroot, -⟩ := htree
      rw [hroot]
      rfl
    exact ⟨descriptor, hdescriptor, h.kind descriptor hdescriptor hrooted,
      (hasTree_iff image _ _ descriptor).mp htree⟩

theorem Volume.eval_buildTree_of_root
    {image : Image}
    {volume : Volume}
    {table : Nat}
    {root : DirectoryRecord}
    (h : volume.root table = .ok root)
    (rockRidge : Bool) :
    image.eval (volume.buildTree table rockRidge) = image.eval (Iso.buildTree root rockRidge) := by
  rw [Volume.buildTree, h]
  rfl

/-- A table of a scanned volume is that of the descriptor with its index. -/
theorem ScannedFrom.eval_buildTree_eq_ok_iff
    {image : Image}
    {volume : Volume}
    (h : ScannedFrom 0 volume.descriptors)
    (table : Nat)
    (rockRidge : Bool)
    (tree : FileTree Attributes) :
    image.eval (volume.buildTree table rockRidge) = .ok tree
      ↔
    ∃ descriptor ∈ volume.descriptors, descriptor.index = table ∧
      ∃ root, descriptor.root = some root ∧ image.eval (buildTree root rockRidge) = .ok tree := by
  have hroot : ∀ root, volume.root table = .ok root ↔
      ∃ descriptor ∈ volume.descriptors, descriptor.index = table ∧ descriptor.root = some root := by
    intro root
    rw [Volume.root]
    constructor
    · intro hfound
      split at hfound
      · cases hfound
      · next descriptor hplace =>
          split at hfound
          · cases hfound
          · next hrecord =>
              cases hfound
              have hindex := h.index table descriptor hplace
              rw [Nat.zero_add] at hindex
              exact ⟨descriptor, List.mem_of_getElem? hplace, hindex, hrecord⟩
    · rintro ⟨descriptor, hmem, rfl, hrecord⟩
      simp only [h.getElem?_index hmem, hrecord]
  rw [Volume.buildTree, Image.eval_bind_eq_ok_iff]
  simp only [Image.eval_ofExcept, hroot]
  constructor
  · rintro ⟨root, ⟨descriptor, hmem, hindex, hrecord⟩, htree⟩
    exact ⟨descriptor, hmem, hindex, root, hrecord, htree⟩
  · rintro ⟨descriptor, hmem, hindex, root, hrecord, htree⟩
    exact ⟨root, ⟨descriptor, hmem, hindex, hrecord⟩, htree⟩

end Trees

end Iso
end Optical
