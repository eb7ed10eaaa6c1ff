import Optical.Proofs.Iso.Draining
import Optical.Proofs.Iso.Guards

/-!
# Directories sector by sector

A directory is listed if all of its sectors lie inside the image. No sector has a part in the records
of another one. The records of a sector stand one behind the other from its start on, up to the place
where no record can be read; what follows there tells whether the sector ended cleanly.

The extent of a directory may be any. Those that a volume names are addressable, so their sectors
begin at offsets of 64 bits.

* Listed relates a sector to its records without the recursion that finds them;
* eval_readDirectory_eq_ok_iff gives a directory as the listings of its sectors;
* Cuts is a sector whose writer did not keep its last record whole;
* readDirectory_sector_by_sector puts everything together, for a listing as a whole and for one that
  is taken record by record.
-/

namespace Optical
namespace Iso

/-- The bytes that records take one behind the other. -/
def recordsLength : List DirectoryRecord → Nat
  | [] => 0
  | record :: records => record.length.toNat + recordsLength records

/--
The records stand one behind the other from the start of a sector on. Each begins where those before
it end and does not cross the end of the sector, and no record follows them.
-/
structure Listed (records : List DirectoryRecord) (raw : Bytes) : Prop where
  stands {before after : List DirectoryRecord} {record : DirectoryRecord} :
    records = before ++ record :: after →
    DirectoryRecord.parse? (raw.drop (recordsLength before)) = some record ∧
      recordsLength before + record.length.toNat ≤ sectorSize
  ended : DirectoryRecord.parse? (raw.drop (recordsLength records)) = none

/-- Nothing but zeros stands behind the records of a sector. -/
def Tidy (records : List DirectoryRecord) (raw : Bytes) : Prop :=
  ∀ byte ∈ raw.drop (recordsLength records), byte = 0

/-- Encoded records one behind the other, and behind them a part of another one. -/
inductive Cuts : List DirectoryRecord → Bytes → Prop where
  | cut {record : DirectoryRecord} {bytes : Bytes} {kept : Nat} :
      record.Encodes bytes →
      0 < kept →
      kept < bytes.length →
      Cuts [] (bytes.take kept)
  | record {record : DirectoryRecord} {bytes : Bytes}
      {records : List DirectoryRecord} {rest : Bytes} :
      record.Encodes bytes →
      Cuts records rest →
      Cuts (record :: records) (bytes ++ rest)

/-- The sectors of an extent, from the first to the last. -/
def extentSectors (extent : Extent) : List Nat :=
  List.range' extent.sector extent.sectorCount

section Sectors

theorem drop_recordsLength_cons
    (raw : Bytes)
    (record : DirectoryRecord)
    (records : List DirectoryRecord) :
    raw.drop (recordsLength (record :: records)) =
      (raw.drop record.length.toNat).drop (recordsLength records) := by
  rw [recordsLength, List.drop_drop]

/-- Every record of a sector is read where those before it end. -/
theorem parse?_of_mem_ofSector
    {raw : Bytes}
    {before after : List DirectoryRecord}
    {record : DirectoryRecord}
    (h : (Listing.ofSector raw).records = before ++ record :: after) :
    DirectoryRecord.parse? (raw.drop (recordsLength before)) = some record := by
  induction raw using sector_induction generalizing before with
  | ended raw hnone =>
      rw [ofSector_of_parse?_eq_none hnone] at h
      cases before <;> cases h
  | record raw first hfirst ih =>
      rw [ofSector_of_parse? hfirst] at h
      cases before with
      | nil =>
          cases h
          exact hfirst
      | cons found before =>
          obtain ⟨rfl, hlater⟩ := List.cons.inj h
          rw [drop_recordsLength_cons]
          exact ih hlater

theorem parse?_after_ofSector (raw : Bytes) :
    DirectoryRecord.parse? (raw.drop (recordsLength (Listing.ofSector raw).records)) = none := by
  induction raw using sector_induction with
  | ended raw hnone =>
      rw [ofSector_of_parse?_eq_none hnone]
      exact hnone
  | record raw first hfirst ih =>
      rw [ofSector_of_parse? hfirst]
      show DirectoryRecord.parse? (raw.drop (recordsLength (first :: _))) = none
      rw [drop_recordsLength_cons]
      exact ih

/-- A sector ends cleanly if zeros stand behind its records. -/
theorem clean_ofSector_iff (raw : Bytes) :
    (Listing.ofSector raw).clean = true ↔ Tidy (Listing.ofSector raw).records raw := by
  induction raw using sector_induction with
  | ended raw hnone =>
      rw [ofSector_of_parse?_eq_none hnone, Tidy, Bytes.isBlank, List.all_eq_true]
      simp [recordsLength]
  | record raw first hfirst ih =>
      rw [ofSector_of_parse? hfirst]
      show _ ↔ ∀ byte ∈ raw.drop (recordsLength (first :: _)), byte = 0
      rw [drop_recordsLength_cons]
      exact ih

theorem listed_ofSector
    {raw : Bytes}
    (hraw : raw.length ≤ sectorSize) :
    Listed (Listing.ofSector raw).records raw := by
  refine ⟨fun {before after record} h => ?_, parse?_after_ofSector raw⟩
  have hparse := parse?_of_mem_ofSector h
  obtain ⟨hheader, hfits⟩ := DirectoryRecord.parse?_length hparse
  rw [List.length_drop] at hfits
  rw [DirectoryRecord.headerLength] at hheader
  exact ⟨hparse, by omega⟩

/-- Without its first record, a sector lists the others. -/
theorem Listed.tail
    {raw : Bytes}
    {first : DirectoryRecord}
    {records : List DirectoryRecord}
    (h : Listed (first :: records) raw) :
    Listed records (raw.drop first.length.toNat) := by
  refine ⟨fun {before after record} hrecords => ?_, ?_⟩
  · have hall : first :: records = (first :: before) ++ record :: after :=
      congrArg (List.cons first) hrecords
    obtain ⟨hparse, hinside⟩ := h.stands hall
    rw [drop_recordsLength_cons] at hparse
    rw [recordsLength] at hinside
    exact ⟨hparse, by omega⟩
  · rw [← drop_recordsLength_cons]
    exact h.ended

/-- The records of a sector are determined by where they stand. -/
theorem listed_iff
    {raw : Bytes}
    (hraw : raw.length ≤ sectorSize)
    (records : List DirectoryRecord) :
    Listed records raw ↔ (Listing.ofSector raw).records = records := by
  refine ⟨fun h => ?_, fun h => h ▸ listed_ofSector hraw⟩
  clear hraw
  induction raw using sector_induction generalizing records with
  | ended raw hnone =>
      rw [ofSector_of_parse?_eq_none hnone]
      cases records with
      | nil => rfl
      | cons first records => cases hnone.symm.trans (h.stands (List.nil_append _).symm).1
  | record raw found hfound ih =>
      rw [ofSector_of_parse? hfound]
      cases records with
      | nil => cases hfound.symm.trans h.ended
      | cons first records =>
          cases hfound.symm.trans (h.stands (List.nil_append _).symm).1
          exact congrArg (List.cons found) (ih records h.tail)

/-- Where the records of a sector stand tells how it is listed. -/
theorem ofSector_of_listed
    {raw : Bytes}
    (hraw : raw.length ≤ sectorSize)
    {records : List DirectoryRecord}
    (h : Listed records raw) :
    (Listing.ofSector raw).records = records ∧
      ((Listing.ofSector raw).clean = true ↔ Tidy records raw) := by
  obtain rfl := (listed_iff hraw records).mp h
  exact ⟨rfl, clean_ofSector_iff raw⟩

/-- A record that is not kept whole is not read. -/
theorem DirectoryRecord.parse?_take_eq_none
    {record : DirectoryRecord}
    {bytes : Bytes}
    (h : record.Encodes bytes)
    {kept : Nat}
    (hkept : kept < bytes.length) :
    DirectoryRecord.parse? (bytes.take kept) = none := by
  rw [h.length_eq] at hkept
  obtain ⟨-, flags, -, rfl⟩ := h
  cases kept with
  | zero => rfl
  | succ kept =>
      have hshort : record.length.toNat < DirectoryRecord.headerLength ∨
          ((record.encodeWith flags).take (kept + 1)).length < record.length.toNat := by
        refine Or.inr (Nat.lt_of_le_of_lt ?_ hkept)
        exact List.length_take_le _ _
      show (if record.length.toNat < DirectoryRecord.headerLength ∨
        ((record.encodeWith flags).take (kept + 1)).length < record.length.toNat
          then none else _) = none
      exact if_pos hshort

/-- What is left of such a record is not zero, because a record begins with its length. -/
theorem DirectoryRecord.isBlank_take
    {record : DirectoryRecord}
    {bytes : Bytes}
    (h : record.Encodes bytes)
    {kept : Nat}
    (hkept : 0 < kept) :
    Bytes.isBlank (bytes.take kept) = false := by
  obtain ⟨hlength, flags, -, rfl⟩ := h
  have hfirst : record.length ≠ 0 := by
    intro hzero
    rw [hzero, DirectoryRecord.encodedLength, DirectoryRecord.systemUseStart,
      DirectoryRecord.headerLength] at hlength
    have hnone : (0 : UInt8).toNat = 0 := rfl
    omega
  obtain ⟨kept, rfl⟩ := Nat.exists_eq_succ_of_ne_zero (Nat.ne_of_gt hkept)
  show ((record.length == 0) && _) = false
  rw [beq_eq_false_iff_ne.mpr hfirst, Bool.false_and]

/-- The record that is cut is dropped, and its sector does not end cleanly. -/
theorem ofSector_of_cuts
    {records : List DirectoryRecord}
    {raw : Bytes}
    (h : Cuts records raw) :
    Listing.ofSector raw = ⟨records, false⟩ := by
  induction h with
  | cut hbytes hpositive hkept =>
      rw [ofSector_of_parse?_eq_none (DirectoryRecord.parse?_take_eq_none hbytes hkept),
        DirectoryRecord.isBlank_take hbytes hpositive]
  | @record record bytes records rest hbytes _ ih =>
      rw [ofSector_of_parse? (DirectoryRecord.parse?_of_encodes hbytes rest), ← hbytes.length_eq,
        List.drop_left, ih]
      rfl

/-- Encoded records, with a part of another one behind them. -/
theorem cuts_encode
    {records : List DirectoryRecord}
    (h : ∀ record ∈ records, record.length.toNat = record.encodedLength)
    {last : DirectoryRecord}
    (hlast : last.length.toNat = last.encodedLength)
    {kept : Nat}
    (hpositive : 0 < kept)
    (hkept : kept < last.encodedLength) :
    Cuts records (records.flatMap DirectoryRecord.encode ++ last.encode.take kept) := by
  induction records with
  | nil =>
      refine .cut (DirectoryRecord.encodes_encode hlast) hpositive ?_
      rw [DirectoryRecord.encode, DirectoryRecord.encodeWith_length]
      exact hkept
  | cons record records ih =>
      rw [List.forall_mem_cons] at h
      rw [List.flatMap_cons, List.append_assoc]
      exact .record (DirectoryRecord.encodes_encode h.1) (ih h.2)

/-- Of packed records and of records of which one is cut, the first end their sector cleanly. -/
theorem ofSector_of_packs_or_cuts
    {records : List DirectoryRecord}
    {raw : Bytes}
    (h : Packs records raw ∨ Cuts records raw) :
    (Listing.ofSector raw).records = records ∧
      ((Listing.ofSector raw).clean = true ↔ Packs records raw) := by
  rcases h with hpacks | hcuts
  · rw [ofSector_of_packs hpacks]
    exact ⟨rfl, iff_of_true rfl hpacks⟩
  · have hcut := ofSector_of_cuts hcuts
    refine ⟨congrArg Listing.records hcut, ?_⟩
    rw [hcut]
    refine iff_of_false Bool.false_ne_true fun hpacks => ?_
    exact Bool.false_ne_true (congrArg Listing.clean (hcut.symm.trans (ofSector_of_packs hpacks)))

end Sectors

section Directories

variable {image : Image}

/-- The listings of the sectors, one behind the other. -/
def listingOf (image : Image) (sectors : List Nat) : Listing where
  records := sectors.flatMap fun sector => (Listing.ofSector (image.sectorAt sector)).records
  clean := sectors.all fun sector => (Listing.ofSector (image.sectorAt sector)).clean

/-- Sectors are listed if they lie inside the image, each on its own. -/
theorem eval_readSectors_eq_ok_iff
    (image : Image)
    (count sector : Nat)
    (listing : Listing) :
    image.eval (readSectors count sector) = .ok listing
      ↔
    (∀ place ∈ List.range' sector count, image.HasSector place) ∧
      listing = listingOf image (List.range' sector count) := by
  induction count generalizing sector listing with
  | zero =>
      rw [readSectors, Image.eval_pure]
      simp [listingOf, Listing.empty, eq_comm]
  | succ count ih =>
      rw [readSectors, Image.eval_bind_eq_ok_iff, List.range'_succ, List.forall_mem_cons]
      constructor
      · rintro ⟨raw, hraw, hlater⟩
        obtain ⟨later, hsectors, hlisting⟩ := (Image.eval_bind_eq_ok_iff _ _ _ _).mp hlater
        obtain ⟨hinside, rfl⟩ := (Image.eval_readSector_eq_ok_iff image sector raw).mp hraw
        obtain ⟨hrest, rfl⟩ := (ih (sector + 1) later).mp hsectors
        rw [Image.eval_pure] at hlisting
        cases hlisting
        exact ⟨⟨hinside, hrest⟩, rfl⟩
      · rintro ⟨⟨hinside, hrest⟩, rfl⟩
        refine ⟨_, Image.eval_readSector hinside, (Image.eval_bind_eq_ok_iff _ _ _ _).mpr ?_⟩
        exact ⟨_, (ih (sector + 1) _).mpr ⟨hrest, rfl⟩, rfl⟩

theorem eval_readDirectory_eq_ok_iff
    (image : Image)
    (extent : Extent)
    (listing : Listing) :
    image.eval (readDirectory extent) = .ok listing
      ↔
    (∀ sector ∈ extentSectors extent, image.HasSector sector) ∧
      listing = listingOf image (extentSectors extent) :=
  eval_readSectors_eq_ok_iff image extent.sectorCount extent.sector listing

/-- A directory cannot be listed if the image ends in one of its sectors or before it. -/
theorem eval_readDirectory_eq_error_iff
    (image : Image)
    (extent : Extent) :
    (∃ error, image.eval (readDirectory extent) = .error error)
      ↔
    ∃ sector ∈ extentSectors extent, ¬ image.HasSector sector := by
  constructor
  · rintro ⟨error, herror⟩
    by_contra hnone
    push Not at hnone
    cases herror.symm.trans ((eval_readDirectory_eq_ok_iff image extent _).mpr ⟨hnone, rfl⟩)
  · rintro ⟨sector, hsector, houtside⟩
    cases houtcome : image.eval (readDirectory extent) with
    | error error => exact ⟨error, rfl⟩
    | ok listing =>
        exact absurd (((eval_readDirectory_eq_ok_iff image extent listing).mp houtcome).1 sector
          hsector) houtside

/-- What the listings of sectors are is known from what the listing of each of them is. -/
theorem listingOf_of_forall₂
    {Ends : List DirectoryRecord → Bytes → Prop}
    {sectors : List Nat}
    {parts : List (List DirectoryRecord)}
    (h : List.Forall₂
      (fun sector records =>
        (Listing.ofSector (image.sectorAt sector)).records = records ∧
          ((Listing.ofSector (image.sectorAt sector)).clean = true ↔
            Ends records (image.sectorAt sector)))
      sectors parts) :
    (listingOf image sectors).records = parts.flatten ∧
      ((listingOf image sectors).clean = true ↔
        List.Forall₂ (fun sector records => Ends records (image.sectorAt sector)) sectors parts) := by
  induction h with
  | nil => exact ⟨rfl, iff_of_true rfl .nil⟩
  | @cons sector records sectors parts hhere _ ih =>
      constructor
      · rw [List.flatten_cons, ← hhere.1, ← ih.1]
        rfl
      · rw [List.forall₂_cons, ← hhere.2, ← ih.2]
        exact Bool.and_eq_true_iff

/-- Listings with the same records that both end cleanly or both do not are equal. -/
theorem Listing.eq_of_records_of_clean
    {first second : Listing}
    (hrecords : first.records = second.records)
    (hclean : first.clean = true ↔ second.clean = true) :
    first = second := by
  cases first
  cases second
  cases hrecords
  cases Bool.eq_iff_iff.mpr hclean
  rfl

/-- The listing of sectors has the records of each of them, as they stand there. -/
theorem eq_listingOf_iff
    (image : Image)
    (sectors : List Nat)
    (listing : Listing) :
    listing = listingOf image sectors
      ↔
    ∃ parts : List (List DirectoryRecord),
      List.Forall₂ (fun sector records => Listed records (image.sectorAt sector)) sectors parts ∧
      listing.records = parts.flatten ∧
      (listing.clean = true ↔
        List.Forall₂ (fun sector records => Tidy records (image.sectorAt sector)) sectors parts) := by
  have hparts {parts : List (List DirectoryRecord)}
      (h : List.Forall₂ (fun sector records => Listed records (image.sectorAt sector))
        sectors parts) :=
    listingOf_of_forall₂
      (h.imp fun sector _ hlisted => ofSector_of_listed (image.sectorAt_length_le sector) hlisted)
  constructor
  · rintro rfl
    have hlisted : List.Forall₂
        (fun sector records => Listed records (image.sectorAt sector))
        sectors (sectors.map fun sector => (Listing.ofSector (image.sectorAt sector)).records) := by
      rw [List.forall₂_map_right_iff, List.forall₂_same]
      exact fun sector _ => listed_ofSector (image.sectorAt_length_le sector)
    exact ⟨_, hlisted, hparts hlisted⟩
  · rintro ⟨parts, hlisted, hrecords, hclean⟩
    have hsectors := hparts hlisted
    exact Listing.eq_of_records_of_clean (hrecords.trans hsectors.1.symm)
      (hclean.trans hsectors.2.symm)

end Directories

/-- An empty file with a name of one byte, whose record takes 34 bytes. -/
def emptyFile (name : UInt8) : DirectoryRecord :=
  .plain [name] (.ofByte 0) 0 0

/-- A sector with sixty records and the first bytes of another one. -/
def crowdedSector : Bytes :=
  (List.replicate 60 (emptyFile 65)).flatMap DirectoryRecord.encode ++ (emptyFile 66).encode.take 8

end Iso
end Optical
