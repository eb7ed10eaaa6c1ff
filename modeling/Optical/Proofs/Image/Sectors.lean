import Optical.Proofs.Image.Parts

/-!
# Images made of sectors

A sector is read if it lies inside the image as a whole, and what is read depends on the bytes of the
image between its start and its end.

A writer fills an image sector by sector. Here every sector is given by the bytes at its start, and
zeros fill what they leave of it. The image is as long as its sectors, and each sector is found where
it was put.
-/

namespace Optical
namespace Image

section Reading

/-- The bytes of a sector, as far as the image holds them. -/
def sectorAt (image : Image) (sector : Nat) : Bytes :=
  image.part (sectorStart sector) sectorSize

/-- The sector lies inside the image as a whole. -/
def HasSector (image : Image) (sector : Nat) : Prop :=
  sectorStart (sector + 1) ≤ image.size

instance (image : Image) (sector : Nat) : Decidable (image.HasSector sector) :=
  inferInstanceAs (Decidable (_ ≤ _))

theorem sectorStart_succ (sector : Nat) :
    sectorStart (sector + 1) = sectorStart sector + sectorSize :=
  Nat.succ_mul sector sectorSize

theorem sectorStart_le {first second : Nat} (h : first ≤ second) :
    sectorStart first ≤ sectorStart second :=
  Nat.mul_le_mul_right sectorSize h

theorem sectorAt_length_le (image : Image) (sector : Nat) :
    (image.sectorAt sector).length ≤ sectorSize := by
  rw [sectorAt, part_length]
  exact Nat.min_le_left _ _

/-- A whole sector is read if it lies inside the image. -/
theorem eval_readSector_eq_ok_iff
    (image : Image)
    (sector : Nat)
    (bytes : Bytes) :
    image.eval (ReadM.readSector sector) = .ok bytes
      ↔
    image.HasSector sector ∧ bytes = image.sectorAt sector := by
  rw [ReadM.readSector, eval_readExact_eq_ok_iff, HasSector, sectorStart_succ, sectorAt]
  simp [sectorSize]

theorem eval_readSector
    {image : Image}
    {sector : Nat}
    (h : image.HasSector sector) :
    image.eval (ReadM.readSector sector) = .ok (image.sectorAt sector) :=
  (eval_readSector_eq_ok_iff image sector _).mpr ⟨h, rfl⟩

/-- Images that agree on a run of sectors hold the same bytes in each of them. -/
theorem AgreeOn.sectorAt_eq
    {first second : Image}
    {start stop sector : Nat}
    (h : first.AgreeOn second (sectorStart start) (sectorStart stop))
    (hstart : start ≤ sector)
    (hstop : sector < stop) :
    first.sectorAt sector = second.sectorAt sector := by
  refine h.part_eq (sectorStart_le hstart) ?_
  rw [← sectorStart_succ]
  exact sectorStart_le hstop

end Reading

/-- A sector that begins with some bytes and has zeros behind them. -/
def fillSector (bytes : Bytes) : Bytes :=
  bytes ++ List.replicate (sectorSize - bytes.length) 0

/-- The image whose sectors begin with the given bytes. -/
def ofSectors (sectors : List Bytes) : Image :=
  (sectors.flatMap fillSector).toArray

section Sectors

theorem fillSector_length
    {bytes : Bytes}
    (h : bytes.length ≤ sectorSize) :
    (fillSector bytes).length = sectorSize := by
  rw [fillSector, List.length_append, List.length_replicate]
  omega

theorem length_flatMap_fillSector
    {sectors : List Bytes}
    (h : ∀ bytes ∈ sectors, bytes.length ≤ sectorSize) :
    (sectors.flatMap fillSector).length = sectorStart sectors.length := by
  induction sectors with
  | nil => exact (Nat.zero_mul _).symm
  | cons bytes sectors ih =>
      rw [List.forall_mem_cons] at h
      rw [List.flatMap_cons, List.length_append, fillSector_length h.1, ih h.2, List.length_cons,
        sectorStart, sectorStart, Nat.succ_mul, Nat.add_comm]

/-- A run of bytes in an image is read at the offset where it was put. -/
theorem part_toArray
    (front bytes after : Bytes) :
    Image.part (front ++ (bytes ++ after)).toArray front.length bytes.length = bytes := by
  rw [part_eq_slice, List.toList_toArray, Bytes.slice, List.drop_left, List.take_left]

variable {sectors : List Bytes}

theorem size_ofSectors
    (h : ∀ bytes ∈ sectors, bytes.length ≤ sectorSize) :
    (ofSectors sectors).size = sectorStart sectors.length := by
  rw [ofSectors, List.size_toArray, length_flatMap_fillSector h]

/-- The bytes before a sector and those after it. -/
theorem exists_flatMap_fillSector_eq
    (h : ∀ bytes ∈ sectors, bytes.length ≤ sectorSize)
    {index : Nat}
    {bytes : Bytes}
    (hfound : sectors[index]? = some bytes) :
    ∃ front after,
      front.length = sectorStart index ∧
      sectors.flatMap fillSector = front ++ (fillSector bytes ++ after) := by
  obtain ⟨hindex, hbytes⟩ := List.getElem?_eq_some_iff.mp hfound
  refine ⟨(sectors.take index).flatMap fillSector, (sectors.drop (index + 1)).flatMap fillSector,
    ?_, ?_⟩
  · have hfront : ∀ bytes ∈ sectors.take index, bytes.length ≤ sectorSize :=
      fun bytes hmem => h bytes (List.mem_of_mem_take hmem)
    rw [length_flatMap_fillSector hfront, List.length_take, Nat.min_eq_left (Nat.le_of_lt hindex)]
  · rw [← List.flatMap_cons, ← hbytes, ← List.drop_eq_getElem_cons hindex, ← List.flatMap_append,
      List.take_append_drop]

/-- A sector is read whole where it was put. -/
theorem part_ofSectors
    (h : ∀ bytes ∈ sectors, bytes.length ≤ sectorSize)
    {index : Nat}
    {bytes : Bytes}
    (hfound : sectors[index]? = some bytes) :
    (ofSectors sectors).part (sectorStart index) sectorSize = fillSector bytes := by
  obtain ⟨front, after, hfront, hall⟩ := exists_flatMap_fillSector_eq h hfound
  have hlength := fillSector_length (h bytes (List.mem_of_getElem? hfound))
  rw [ofSectors, hall, ← hfront, ← hlength, part_toArray]

theorem part_ofSectors_take
    (h : ∀ bytes ∈ sectors, bytes.length ≤ sectorSize)
    {index : Nat}
    {bytes : Bytes}
    (hfound : sectors[index]? = some bytes)
    {count : Nat}
    (hcount : count ≤ sectorSize) :
    (ofSectors sectors).part (sectorStart index) count = (fillSector bytes).take count := by
  rw [← part_ofSectors h hfound, part_eq_slice, part_eq_slice, Bytes.slice, Bytes.slice,
    List.take_take, Nat.min_eq_left hcount]

/-- So are the bytes at its start. -/
theorem part_ofSectors_bytes
    (h : ∀ bytes ∈ sectors, bytes.length ≤ sectorSize)
    {index : Nat}
    {bytes : Bytes}
    (hfound : sectors[index]? = some bytes) :
    (ofSectors sectors).part (sectorStart index) bytes.length = bytes := by
  obtain ⟨front, after, hfront, hall⟩ := exists_flatMap_fillSector_eq h hfound
  rw [ofSectors, hall, ← hfront, fillSector, List.append_assoc, part_toArray]

/-- Images that begin with the same sectors agree on them, whatever sectors follow. -/
theorem agreeOn_ofSectors
    {front : List Bytes}
    (h : ∀ bytes ∈ front, bytes.length ≤ sectorSize)
    (later others : List Bytes) :
    (ofSectors (front ++ later)).AgreeOn (ofSectors (front ++ others)) 0
      (sectorStart front.length) := by
  intro offset _ hoffset
  rw [← length_flatMap_fillSector h] at hoffset
  rw [ofSectors, ofSectors, List.getElem?_toArray, List.getElem?_toArray, List.flatMap_append,
    List.flatMap_append, List.getElem?_append_left hoffset, List.getElem?_append_left hoffset]

end Sectors

end Image
end Optical
