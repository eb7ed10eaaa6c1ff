import Optical.Iso.Listing
import Optical.Proofs.Image.Sectors
import Optical.Proofs.Iso.Encoding

/-!
# Packed directories

A writer packs the records of a directory into sectors. It begins a new sector for a record that does
not fit behind those before it, and fills what is left with zeros. Where the sectors are divided is
the writer's choice, as long as no record crosses the end of its sector.

* ofSector_of_parse? and ofSector_of_parse?_eq_none say how a sector is listed, and sector_induction
  goes along its records;
* Packs relates the records of a sector to its bytes, PackedFrom those of a directory to an image;
* ofSector_of_packs and eval_readDirectory_of_packed say that exactly these records are listed, and
  that the listing ends cleanly.
-/

namespace Optical
namespace Iso

/-- Encoded records one behind the other, and zeros behind them. -/
inductive Packs : List DirectoryRecord → Bytes → Prop where
  | zeros (count : Nat) : Packs [] (List.replicate count 0)
  | record {record : DirectoryRecord} {bytes : Bytes}
      {records : List DirectoryRecord} {rest : Bytes} :
      record.Encodes bytes →
      Packs records rest →
      Packs (record :: records) (bytes ++ rest)

/-- A count of whole sectors of an image, from one on, with records packed in each of them. -/
inductive PackedFrom (image : Image) : (count sector : Nat) → List DirectoryRecord → Prop where
  | done (sector : Nat) : PackedFrom image 0 sector []
  | sector {count sector : Nat} {here later : List DirectoryRecord} :
      sectorStart (sector + 1) ≤ image.size →
      Packs here (image.part (sectorStart sector) sectorSize) →
      PackedFrom image count (sector + 1) later →
      PackedFrom image (count + 1) sector (here ++ later)

section Sectors

theorem stepOf_of_parse?
    {raw : Bytes}
    {record : DirectoryRecord}
    (h : DirectoryRecord.parse? raw = some record) :
    stepOf raw = .record record := by
  cases raw with
  | nil => cases h
  | cons first rest =>
      have hfirst : first ≠ 0 := by
        rintro rfl
        simp [DirectoryRecord.parse?, DirectoryRecord.headerLength] at h
      rw [stepOf, if_neg hfirst, h]

theorem ofSector_of_record
    {raw : Bytes}
    {record : DirectoryRecord}
    (h : stepOf raw = .record record) :
    Listing.ofSector raw = .cons record (.ofSector (raw.drop record.length.toNat)) := by
  rw [Listing.ofSector]
  split
  · next hstep =>
      rw [h] at hstep
      cases hstep
  · next found hstep =>
      rw [h] at hstep
      cases hstep
      rfl

theorem ofSector_of_finish
    {raw : Bytes}
    {clean : Bool}
    (h : stepOf raw = .finish clean) :
    Listing.ofSector raw = ⟨[], clean⟩ := by
  rw [Listing.ofSector]
  split
  · next hstep =>
      rw [h] at hstep
      cases hstep
      rfl
  · next found hstep =>
      rw [h] at hstep
      cases hstep

/-- What is no record ends its sector, and cleanly only if it is made of zeros. -/
theorem stepOf_of_parse?_eq_none
    {raw : Bytes}
    (h : DirectoryRecord.parse? raw = none) :
    stepOf raw = .finish raw.isBlank := by
  cases raw with
  | nil => rfl
  | cons first rest =>
      rw [stepOf]
      split
      · rfl
      · next hfirst =>
          have hblank : Bytes.isBlank (first :: rest) = false := by
            rw [Bytes.isBlank, List.all_cons, beq_eq_false_iff_ne.mpr hfirst, Bool.false_and]
          rw [h, hblank]

theorem ofSector_of_parse?
    {raw : Bytes}
    {record : DirectoryRecord}
    (h : DirectoryRecord.parse? raw = some record) :
    Listing.ofSector raw = .cons record (.ofSector (raw.drop record.length.toNat)) :=
  ofSector_of_record (stepOf_of_parse? h)

theorem ofSector_of_parse?_eq_none
    {raw : Bytes}
    (h : DirectoryRecord.parse? raw = none) :
    Listing.ofSector raw = ⟨[], raw.isBlank⟩ :=
  ofSector_of_finish (stepOf_of_parse?_eq_none h)

/-- What holds where no record stands, and in front of a record if it holds behind it, holds always. -/
@[elab_as_elim] theorem sector_induction
    {motive : Bytes → Prop}
    (raw : Bytes)
    (ended : ∀ raw, DirectoryRecord.parse? raw = none → motive raw)
    (record : ∀ raw record, DirectoryRecord.parse? raw = some record →
      motive (raw.drop record.length.toNat) → motive raw) :
    motive raw := by
  induction hlength : raw.length using Nat.strongRecOn generalizing raw with
  | _ length ih =>
      cases hparse : DirectoryRecord.parse? raw with
      | none => exact ended raw hparse
      | some found =>
          refine record raw found hparse (ih _ ?_ _ rfl)
          have hfits := DirectoryRecord.parse?_length hparse
          rw [DirectoryRecord.headerLength] at hfits
          rw [List.length_drop]
          omega

theorem stepOf_zeros (count : Nat) :
    stepOf (List.replicate count 0) = .finish true := by
  cases count with
  | zero => rfl
  | succ count =>
      rw [List.replicate_succ, stepOf, if_pos rfl]
      simp [Bytes.isBlank]

/-- Packed records are listed, and their sector ends cleanly. -/
theorem ofSector_of_packs
    {records : List DirectoryRecord}
    {raw : Bytes}
    (h : Packs records raw) :
    Listing.ofSector raw = ⟨records, true⟩ := by
  induction h with
  | zeros count => exact ofSector_of_finish (stepOf_zeros count)
  | @record record bytes records rest hbytes _ ih =>
      rw [ofSector_of_parse? (DirectoryRecord.parse?_of_encodes hbytes rest), ← hbytes.length_eq,
        List.drop_left, ih]
      rfl

/-- Encoded records that begin a sector are packed in it. -/
theorem packs_fillSector
    {records : List DirectoryRecord}
    (h : ∀ record ∈ records, record.length.toNat = record.encodedLength) :
    Packs records (Image.fillSector (records.flatMap DirectoryRecord.encode)) := by
  rw [Image.fillSector]
  generalize sectorSize - (records.flatMap DirectoryRecord.encode).length = count
  induction records with
  | nil => exact .zeros count
  | cons record records ih =>
      rw [List.forall_mem_cons] at h
      rw [List.flatMap_cons, List.append_assoc]
      exact .record (DirectoryRecord.encodes_encode h.1) (ih h.2)

end Sectors

section Directories

variable {image : Image}

/-- The records of packed sectors are listed in order, and every sector ends cleanly. -/
theorem eval_readSectors_of_packed
    {count sector : Nat}
    {records : List DirectoryRecord}
    (h : PackedFrom image count sector records) :
    image.eval (readSectors count sector) = .ok ⟨records, true⟩ := by
  induction h with
  | done => rfl
  | sector hinside hhere _ ih =>
      rw [readSectors, Image.eval_bind_eq_ok_iff]
      refine ⟨_, Image.eval_readSector hinside, ?_⟩
      rw [Image.eval_bind_eq_ok_iff]
      refine ⟨_, ih, ?_⟩
      rw [Image.sectorAt, ofSector_of_packs hhere]
      rfl

/-- So are the records of a packed directory. -/
theorem eval_readDirectory_of_packed
    {extent : Extent}
    {records : List DirectoryRecord}
    (h : PackedFrom image extent.sectorCount extent.sector records) :
    image.eval (readDirectory extent) = .ok ⟨records, true⟩ :=
  eval_readSectors_of_packed h

/-- A directory may take one sector of an image. -/
theorem packedFrom_ofSectors
    {sectors : List Bytes}
    (hfit : ∀ bytes ∈ sectors, bytes.length ≤ sectorSize)
    {records : List DirectoryRecord}
    (hlengths : ∀ record ∈ records, record.length.toNat = record.encodedLength)
    {sector : Nat}
    (hfound : sectors[sector]? = some (records.flatMap DirectoryRecord.encode)) :
    PackedFrom (Image.ofSectors sectors) 1 sector records := by
  obtain ⟨hinside, -⟩ := List.getElem?_eq_some_iff.mp hfound
  rw [← List.append_nil records]
  refine .sector ?_ ?_ (.done (sector + 1))
  · rw [Image.size_ofSectors hfit]
    exact Nat.mul_le_mul_right sectorSize hinside
  · rw [Image.part_ofSectors hfit hfound]
    exact packs_fillSector hlengths

end Directories

end Iso
end Optical
