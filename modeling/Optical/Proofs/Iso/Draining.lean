import Optical.Proofs.Iso.Packing

/-!
# Records one at a time

A directory can be listed as a whole, or its records are taken from a cursor one at a time. Between
two records a cursor keeps the number of its sector, the bytes of the sector if they are read, the
offset in it, whether all sectors before ended cleanly and whether one could not be read. A listing is
a recursion over the sectors and keeps none of this.

* Drained says what is taken from a cursor until it has no more records or fails;
* drained_loaded is a cursor inside a sector, drained_unloaded one between two sectors;
* drained_ofExtent_iff says that a cursor at the start of a directory gives what the listing gives.
-/

namespace Optical
namespace Iso

/--
The records that a cursor gives one at a time until there are no more, with the state of the cursor
at the end, or the error that it comes to.
-/
inductive Drained (image : Image) : DirectoryCursor → Except Error Listing → Prop where
  | ended {cursor last : DirectoryCursor} :
      image.ask cursor.next? = (none, last) →
      Drained image cursor (.ok ⟨[], last.clean⟩)
  | failed {cursor last : DirectoryCursor} {error : Error} :
      image.ask cursor.next? = (some (.error error), last) →
      Drained image cursor (.error error)
  | record {cursor next : DirectoryCursor} {record : DirectoryRecord}
      {outcome : Except Error Listing} :
      image.ask cursor.next? = (some (.ok record), next) →
      Drained image next outcome →
      Drained image cursor (outcome.map (.cons record))

section Steps

variable {image : Image}
variable {extent : Extent}
variable {index offset : Nat}
variable {raw : Bytes}
variable {clean : Bool}

/-- A cursor goes on in its sector, which it reads first if it has not done so. -/
theorem ask_next?_of_lt
    {loaded : Option Bytes}
    (h : index < extent.sectorCount) :
    image.ask (DirectoryCursor.next? ⟨extent, index, offset, loaded, clean, false⟩) =
      match image.eval (DirectoryCursor.load ⟨extent, index, offset, loaded, clean, false⟩) with
      | .error error => (some (.error error), ⟨extent, index, offset, loaded, clean, true⟩)
      | .ok sector =>
          match nextInSector sector offset with
          | .record record =>
              (some (.ok record),
                ⟨extent, index, offset + record.length.toNat, some sector, clean, false⟩)
          | .finish rest =>
              image.ask (DirectoryCursor.next?
                ⟨extent, index + 1, 0, none, clean && rest, false⟩) := by
  have hopen : ¬ (false = true ∨ extent.sectorCount ≤ index) := by
    rintro (hfailed | hend)
    · cases hfailed
    · exact Nat.not_le.mpr h hend
  rw [DirectoryCursor.next?, if_neg hopen, Image.ask_bind, ← Image.eval]
  cases image.eval (DirectoryCursor.load ⟨extent, index, offset, loaded, clean, false⟩) with
  | error error => rfl
  | ok sector =>
      dsimp only
      cases nextInSector sector offset with
      | record record => rfl
      | finish rest => rfl

theorem ask_next?_of_ended
    (image : Image)
    {loaded : Option Bytes}
    (h : extent.sectorCount ≤ index) :
    image.ask (DirectoryCursor.next? ⟨extent, index, offset, loaded, clean, false⟩) =
      (none, ⟨extent, index, offset, loaded, clean, false⟩) := by
  rw [DirectoryCursor.next?, if_pos (Or.inr h)]
  rfl

/-- In a sector that is read, the next record is the one at the offset. -/
theorem ask_next?_of_record
    (h : index < extent.sectorCount)
    {record : DirectoryRecord}
    (hrecord : DirectoryRecord.parse? (raw.drop offset) = some record) :
    image.ask (DirectoryCursor.next? ⟨extent, index, offset, some raw, clean, false⟩) =
      (some (.ok record),
        ⟨extent, index, offset + record.length.toNat, some raw, clean, false⟩) := by
  have hstep : nextInSector raw offset = .record record := stepOf_of_parse? hrecord
  rw [ask_next?_of_lt h]
  show (match nextInSector raw offset with | .record _ => _ | .finish _ => _) = _
  rw [hstep]

/-- Where no record stands, the cursor goes on with the next sector. -/
theorem ask_next?_of_finish
    (h : index < extent.sectorCount)
    (hnone : DirectoryRecord.parse? (raw.drop offset) = none) :
    image.ask (DirectoryCursor.next? ⟨extent, index, offset, some raw, clean, false⟩) =
      image.ask (DirectoryCursor.next?
        ⟨extent, index + 1, 0, none, clean && Bytes.isBlank (raw.drop offset), false⟩) := by
  have hstep : nextInSector raw offset = .finish (Bytes.isBlank (raw.drop offset)) :=
    stepOf_of_parse?_eq_none hnone
  rw [ask_next?_of_lt h]
  show (match nextInSector raw offset with | .record _ => _ | .finish _ => _) = _
  rw [hstep]

/-- A cursor that reads its sector goes on as if it had read it before. -/
theorem ask_next?_of_read
    (h : index < extent.sectorCount)
    (hread : image.eval (ReadM.readSector (extent.sector + index)) = .ok raw) :
    image.ask (DirectoryCursor.next? ⟨extent, index, 0, none, clean, false⟩) =
      image.ask (DirectoryCursor.next? ⟨extent, index, 0, some raw, clean, false⟩) := by
  rw [ask_next?_of_lt h, ask_next?_of_lt h]
  simp only [DirectoryCursor.load, hread, Image.eval_pure]

theorem ask_next?_of_unread
    (h : index < extent.sectorCount)
    {error : Error}
    (hread : image.eval (ReadM.readSector (extent.sector + index)) = .error error) :
    image.ask (DirectoryCursor.next? ⟨extent, index, 0, none, clean, false⟩) =
      (some (.error error), ⟨extent, index, 0, none, clean, true⟩) := by
  rw [ask_next?_of_lt h]
  simp only [DirectoryCursor.load, hread]

end Steps

section Runs

variable {image : Image}
variable {extent : Extent}

/-- A cursor is drained in one way only. -/
theorem Drained.unique
    {cursor : DirectoryCursor}
    {first second : Except Error Listing}
    (h : Drained image cursor first)
    (hsecond : Drained image cursor second) :
    first = second := by
  induction h generalizing second with
  | ended hnext =>
      cases hsecond with
      | ended hother => cases hnext.symm.trans hother; rfl
      | failed hother => cases hnext.symm.trans hother
      | record hother => cases hnext.symm.trans hother
  | failed hnext =>
      cases hsecond with
      | ended hother => cases hnext.symm.trans hother
      | failed hother => cases hnext.symm.trans hother; rfl
      | record hother => cases hnext.symm.trans hother
  | record hnext _ ih =>
      cases hsecond with
      | ended hother => cases hnext.symm.trans hother
      | failed hother => cases hnext.symm.trans hother
      | record hother hlater =>
          cases hnext.symm.trans hother
          rw [ih hlater]

/-- Cursors that go on alike are drained alike. -/
theorem Drained.of_ask_eq
    {cursor other : DirectoryCursor}
    {outcome : Except Error Listing}
    (hsame : image.ask cursor.next? = image.ask other.next?)
    (h : Drained image other outcome) :
    Drained image cursor outcome := by
  cases h with
  | ended hnext => exact .ended (hsame.trans hnext)
  | failed hnext => exact .failed (hsame.trans hnext)
  | record hnext hlater => exact .record (hsame.trans hnext) hlater

/-- The state of the sectors before is added to a listing. -/
def afterSectors (clean : Bool) (listing : Listing) : Listing :=
  Listing.append ⟨[], clean⟩ listing

/-- Inside a sector, the records in its rest come first, and then those of the later sectors. -/
theorem drained_loaded
    {index : Nat}
    (h : index < extent.sectorCount)
    {later : Except Error Listing}
    (hlater : ∀ clean,
      Drained image ⟨extent, index + 1, 0, none, clean, false⟩ (later.map (afterSectors clean)))
    (raw : Bytes)
    (offset : Nat)
    (clean : Bool) :
    Drained image ⟨extent, index, offset, some raw, clean, false⟩
      (later.map fun listing =>
        afterSectors clean ((Listing.ofSector (raw.drop offset)).append listing)) := by
  generalize hrest : raw.drop offset = rest
  induction rest using sector_induction generalizing offset with
  | ended rest hnone =>
      subst hrest
      have hnext := Drained.of_ask_eq (ask_next?_of_finish h hnone)
        (hlater (clean && Bytes.isBlank (raw.drop offset)))
      rw [ofSector_of_parse?_eq_none hnone]
      convert hnext using 2
      funext listing
      simp [afterSectors, Listing.append, Bool.and_assoc]
  | record rest record hrecord ih =>
      subst hrest
      rw [List.drop_drop] at ih
      have hnext := Drained.record (ask_next?_of_record h hrecord) (ih _ rfl)
      rw [ofSector_of_parse? hrecord, List.drop_drop]
      convert hnext using 1
      cases later with
      | error error => rfl
      | ok listing => rfl

/-- Between two sectors, a cursor gives the listing of the sectors that are left. -/
theorem drained_unloaded
    (image : Image)
    {count index : Nat}
    (h : index + count = extent.sectorCount)
    (clean : Bool) :
    Drained image ⟨extent, index, 0, none, clean, false⟩
      ((image.eval (readSectors count (extent.sector + index))).map (afterSectors clean)) := by
  induction count generalizing index clean with
  | zero =>
      have hended : Drained image ⟨extent, index, 0, none, clean, false⟩ (.ok ⟨[], clean⟩) :=
        .ended (ask_next?_of_ended image (Nat.le_of_eq h.symm))
      simpa [readSectors, afterSectors, Listing.append, Listing.empty, Except.map] using hended
  | succ count ih =>
      have hindex : index < extent.sectorCount := by omega
      rw [readSectors, Image.eval_bind]
      cases hread : image.eval (ReadM.readSector (extent.sector + index)) with
      | error error => exact .failed (ask_next?_of_unread hindex hread)
      | ok raw =>
          have hlater : ∀ clean, Drained image ⟨extent, index + 1, 0, none, clean, false⟩
              ((image.eval (readSectors count (extent.sector + index + 1))).map
                (afterSectors clean)) :=
            fun clean => ih (by omega) clean
          have hhere := Drained.of_ask_eq (ask_next?_of_read hindex hread)
            (drained_loaded hindex hlater raw 0 clean)
          show Drained image _ ((image.eval (_ >>= _)).map _)
          rw [Image.eval_bind]
          cases hsectors : image.eval (readSectors count (extent.sector + index + 1)) with
          | error error =>
              rw [hsectors] at hhere
              exact hhere
          | ok listing =>
              rw [hsectors] at hhere
              exact hhere

/-- A cursor at the start of a directory gives what the listing of the directory gives. -/
theorem drained_ofExtent_iff
    (image : Image)
    (extent : Extent)
    (outcome : Except Error Listing) :
    Drained image (.ofExtent extent) outcome ↔ image.eval (readDirectory extent) = outcome := by
  have hdrained : Drained image (.ofExtent extent) (image.eval (readDirectory extent)) := by
    have hwhole := drained_unloaded image (Nat.zero_add extent.sectorCount) true
    have hsame : afterSectors true = id := by
      funext listing
      simp [afterSectors, Listing.append]
    rw [hsame, Nat.add_zero] at hwhole
    cases houtcome : image.eval (readDirectory extent) with
    | error error =>
        rw [readDirectory] at houtcome
        rw [houtcome] at hwhole
        exact hwhole
    | ok listing =>
        rw [readDirectory] at houtcome
        rw [houtcome] at hwhole
        exact hwhole
  exact ⟨hdrained.unique, fun h => h ▸ hdrained⟩

end Runs

end Iso
end Optical
