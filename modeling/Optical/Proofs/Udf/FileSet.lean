import Optical.Proofs.Image.Sectors
import Optical.Udf.Tree

/-!
# Where the file set stands

The search for the file set looks at the partitions in order and, in each, at one descriptor after
another. It is told here as it would be told without a program: an extended file entry is passed over
with the sectors of its contents, a file set ends the search, and nothing else may stand in its way.

* DescriptorAt says which descriptor stands at a sector of an image, read whole;
* Search is a search through the sectors of a partition and what it comes to;
* Located says that partitions lead to a file set;
* eval_locateFileSet_eq_ok_iff says that the search finds the file set that they lead to.
-/

namespace Optical
namespace Udf

section Descriptors

/-- A descriptor with a tag stands at a sector of an image, and the image holds all of it. -/
structure DescriptorAt (image : Image) (sector : Nat) (tag : Tag) (raw : Bytes) : Prop where
  tagInside : sectorStart sector + Tag.size ≤ image.size
  tagRead : tag = Tag.parse (image.part (sectorStart sector) Tag.size)
  inside : sectorStart sector + tag.descriptorLength ≤ image.size
  rawRead : raw = image.part (sectorStart sector) (max tag.descriptorLength sectorSize)

variable (image : Image)

theorem eval_readDescriptor_eq_ok_iff
    (sector : Nat)
    (tag : Tag)
    (raw : Bytes) :
    image.eval (readDescriptor sector) = .ok (tag, raw) ↔ DescriptorAt image sector tag raw := by
  rw [readDescriptor, Image.eval_bind_eq_ok_iff]
  have hpositive : ∀ tag : Tag, 0 < tag.descriptorLength := fun tag =>
    Nat.lt_of_lt_of_le (by decide : 0 < Tag.size) (Nat.le_add_right _ _)
  constructor
  · rintro ⟨head, hhead, h⟩
    obtain ⟨hinside, rfl⟩ := (Image.eval_readExact_eq_ok_iff image _ _ _).mp hhead
    rw [Image.eval_bind_eq_ok_iff] at h
    obtain ⟨bytes, hbytes, h⟩ := h
    rw [Image.eval_readAt] at hbytes
    cases hbytes
    split at h
    · cases h
    · next hwhole =>
        cases h
        have hlength := hpositive (Tag.parse (image.part (sectorStart sector) Tag.size))
        rw [Image.part_length] at hwhole
        exact ⟨by simp only [Tag.size] at hinside ⊢; omega, rfl, by omega, rfl⟩
  · rintro ⟨htag, rfl, hinside, rfl⟩
    refine ⟨_, (Image.eval_readExact_eq_ok_iff image _ _ _).mpr ⟨Or.inr htag, rfl⟩, ?_⟩
    rw [Image.eval_bind_eq_ok_iff]
    refine ⟨_, Image.eval_readAt image _ _, ?_⟩
    have hwhole : ¬ (image.part (sectorStart sector)
        (max (Tag.parse (image.part (sectorStart sector) Tag.size)).descriptorLength
          sectorSize)).length <
        (Tag.parse (image.part (sectorStart sector) Tag.size)).descriptorLength := by
      rw [Image.part_length]
      omega
    rw [if_neg hwhole]
    rfl

/-- A descriptor stands in the sector that it was put in. -/
theorem descriptorAt_ofSectors
    {sectors : List Bytes}
    (h : ∀ bytes ∈ sectors, bytes.length ≤ sectorSize)
    {index : Nat}
    {bytes : Bytes}
    (hfound : sectors[index]? = some bytes)
    (hshort : (Tag.parse ((Image.fillSector bytes).take Tag.size)).descriptorLength ≤ sectorSize) :
    DescriptorAt (Image.ofSectors sectors) index
      (Tag.parse ((Image.fillSector bytes).take Tag.size)) (Image.fillSector bytes) := by
  obtain ⟨hindex, -⟩ := List.getElem?_eq_some_iff.mp hfound
  have hsize : sectorStart index + sectorSize ≤ (Image.ofSectors sectors).size := by
    rw [Image.size_ofSectors h, sectorStart, sectorStart, ← Nat.succ_mul]
    exact Nat.mul_le_mul_right _ hindex
  have htag : Tag.size ≤ sectorSize := by decide
  refine ⟨Nat.le_trans (Nat.add_le_add_left htag _) hsize, ?_,
    Nat.le_trans (Nat.add_le_add_left hshort _) hsize, ?_⟩
  · rw [Image.part_ofSectors_take h hfound htag]
  · rw [Nat.max_eq_right hshort, Image.part_ofSectors h hfound]

end Descriptors

section Search

/-- The sectors of an extended file entry that are passed over, its contents with it. -/
def passedSectors (raw : Bytes) : Nat :=
  max 1 ((FileEntry.parse raw true).informationLength.toNat / sectorSize)

theorem passedSectors_pos (raw : Bytes) : 0 < passedSectors raw :=
  Nat.lt_of_lt_of_le Nat.zero_lt_one (Nat.le_max_left _ _)

/--
A search from a sector up to an end comes to its result: it finds a file set, or it reaches the end
over extended file entries alone.
-/
inductive Search (image : Image) (last : Nat) : (sector : Nat) → Option FileSet → Prop where
  | ended {sector : Nat} (h : last ≤ sector) : Search image last sector none
  | found {sector : Nat} {tag : Tag} {raw : Bytes}
      (inside : sector < last)
      (descriptor : DescriptorAt image sector tag raw)
      (fileSet : tag.identifier = Tag.fileSet) :
      Search image last sector (some (.parse raw sector))
  | passed {sector : Nat} {tag : Tag} {raw : Bytes} {result : Option FileSet}
      (inside : sector < last)
      (descriptor : DescriptorAt image sector tag raw)
      (entry : tag.identifier = Tag.extendedFileEntry)
      (later : Search image last (sector + passedSectors raw) result) :
      Search image last sector result

/--
Partitions lead to a file set: it stands in one of them, and those before it are passed. A partition
has as many sectors as its length says, from its start on.
-/
def Located
    (image : Image)
    (partitions : List Partition)
    (home : Partition)
    (fileSet : FileSet) : Prop :=
  ∃ before after, partitions = before ++ home :: after ∧
    (∀ partition ∈ before,
      Search image (partition.start.toNat + partition.length.toNat) partition.start.toNat none) ∧
    Search image (home.start.toNat + home.length.toNat) home.start.toNat (some fileSet)

variable {image : Image}

/-- A file set stands before the end of the search. -/
theorem Search.sector_lt
    {last sector : Nat}
    {fileSet : FileSet}
    (h : Search image last sector (some fileSet)) :
    fileSet.sector < last := by
  generalize hresult : some fileSet = result at h
  induction h with
  | ended => cases hresult
  | found inside =>
      cases hresult
      exact inside
  | passed _ _ _ _ ih => exact ih hresult

theorem Search.eval_findFileSet
    {sector last : Nat}
    {result : Option FileSet}
    (h : Search image last sector result) :
    image.eval (findFileSet sector last) = .ok result := by
  induction h with
  | ended hended =>
      rw [findFileSet, if_pos hended]
      rfl
  | @found sector tag raw inside hat hfileSet =>
      rw [findFileSet, if_neg (Nat.not_le.mpr inside), Image.eval_bind_eq_ok_iff]
      refine ⟨(tag, raw), (eval_readDescriptor_eq_ok_iff image sector tag raw).mpr hat, ?_⟩
      simp only [hfileSet]
      rfl
  | @passed sector tag raw _ inside hat hentry _ ih =>
      rw [findFileSet, if_neg (Nat.not_le.mpr inside), Image.eval_bind_eq_ok_iff]
      refine ⟨(tag, raw), (eval_readDescriptor_eq_ok_iff image sector tag raw).mpr hat, ?_⟩
      simp only [hentry]
      exact ih

/-- What a search gives on an image, it comes to. -/
theorem Search.of_eval_findFileSet
    {sector last : Nat}
    {result : Option FileSet}
    (h : image.eval (findFileSet sector last) = .ok result) :
    Search image last sector result := by
  induction hleft : last - sector using Nat.strongRecOn generalizing sector with
  | _ left ih =>
      rw [findFileSet] at h
      split at h
      · next hended =>
          cases h
          exact .ended hended
      · next hinside =>
          rw [Image.eval_bind_eq_ok_iff] at h
          obtain ⟨⟨tag, raw⟩, hdescriptor, h⟩ := h
          have hat := (eval_readDescriptor_eq_ok_iff image sector tag raw).mp hdescriptor
          simp only at h
          split at h
          · next hfileSet =>
              cases h
              exact .found (Nat.not_le.mp hinside) hat hfileSet
          · split at h
            · next hentry =>
                -- A step passes a sector at least, so it comes nearer to the end.
                have hpassed := passedSectors_pos raw
                have hlater := ih (last - (sector + passedSectors raw)) (by omega) h rfl
                exact .passed (Nat.not_le.mp hinside) hat hentry hlater
            · cases h

/-- A search on an image succeeds with the result that it comes to. -/
theorem eval_findFileSet_eq_ok_iff
    (sector last : Nat)
    (result : Option FileSet) :
    image.eval (findFileSet sector last) = .ok result ↔ Search image last sector result :=
  ⟨.of_eval_findFileSet, Search.eval_findFileSet⟩

/-- The search of the partitions finds the file set that they lead to. -/
theorem eval_locateFileSet_eq_ok_iff
    (partitions : List Partition)
    (home : Partition)
    (fileSet : FileSet) :
    image.eval (locateFileSet partitions) = .ok (home, fileSet)
      ↔
    Located image partitions home fileSet := by
  induction partitions with
  | nil =>
      constructor
      · intro h
        cases h
      · rintro ⟨before, after, hsplit, -⟩
        exact absurd hsplit (by simp)
  | cons partition partitions ih =>
      rw [locateFileSet, Image.eval_bind_eq_ok_iff]
      simp only [eval_findFileSet_eq_ok_iff]
      constructor
      · rintro ⟨result, hsearch, h⟩
        cases result with
        | some found =>
            cases h
            exact ⟨[], partitions, rfl, by simp, hsearch⟩
        | none =>
            obtain ⟨before, after, rfl, hpassed, hfound⟩ := ih.mp h
            refine ⟨partition :: before, after, rfl, ?_, hfound⟩
            rw [List.forall_mem_cons]
            exact ⟨hsearch, hpassed⟩
      · rintro ⟨before, after, hsplit, hpassed, hfound⟩
        cases before with
        | nil =>
            obtain ⟨rfl, rfl⟩ := List.cons_eq_cons.mp hsplit
            exact ⟨some fileSet, hfound, rfl⟩
        | cons first before =>
            obtain ⟨rfl, rfl⟩ := List.cons_eq_cons.mp hsplit
            rw [List.forall_mem_cons] at hpassed
            exact ⟨none, hpassed.1, ih.mpr ⟨before, after, rfl, hpassed.2, hfound⟩⟩

end Search

end Udf
end Optical
