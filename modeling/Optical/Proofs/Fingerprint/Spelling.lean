import Optical.Fingerprint.Resolve
import Optical.Proofs.Text.Spelling

/-!
# Spelling of fingerprints

Which lines are read as fingerprints, and what each of them is read as, said without the readers.
The numbers of a line may have a plus sign and leading zeros and its digest may be in either case,
so a fingerprint has many lines; a line has one fingerprint. The path of a file stands between the
fifth bar and the last one, and nothing in it has a meaning.

A fingerprint fits its format if samples can be taken by it, its numbers are 64-bit numbers and its
digest is in lower case; that of a file has to be about bytes that end at a 64-bit offset.
-/

namespace Optical

open Text

namespace ImageFingerprint

/-- The fingerprint can be kept as a line. -/
structure Fits (f : ImageFingerprint) : Prop where
  sampleSize_pos : 1 ≤ f.sampleSize
  sampleSize_le : f.sampleSize ≤ 1048576
  sampleCount_pos : 1 ≤ f.sampleCount
  sampleCount_lt : f.sampleCount < 2 ^ 64
  length_lt : f.length < 2 ^ 64
  digest : Digest.IsLower f.digest.toList

/-- The lines for a fingerprint, with a bar between each field and the next. -/
inductive Spells : List Char → ImageFingerprint → Prop where
  | fields {sampleSize sampleCount length digest : List Char} {f : ImageFingerprint}
      (hsampleSize : Numeral sampleSize f.sampleSize)
      (hsampleCount : Numeral sampleCount f.sampleCount)
      (hlength : Numeral length f.length)
      (hdigest : Digest.Spells digest f.digest.toList) :
      Spells (joinFields '|' [['I', '1'], sampleSize, sampleCount, length, digest]) f

end ImageFingerprint

namespace FileFingerprint

/-- The fingerprint can be kept as a line. -/
structure Fits (f : FileFingerprint) : Prop where
  sampleSize_pos : 1 ≤ f.sampleSize
  sampleSize_le : f.sampleSize ≤ 1048576
  sampleCount_pos : 1 ≤ f.sampleCount
  sampleCount_lt : f.sampleCount < 2 ^ 64
  size_lt : f.size < 2 ^ 64
  sector_lt : f.sector < 2 ^ 64
  end_lt : f.sector * f.sampleSize + f.size < 2 ^ 64
  digest : Digest.IsLower f.digest.toList

/-- The lines for a fingerprint, with a bar between each field and the next. -/
inductive Spells : List Char → FileFingerprint → Prop where
  | fields {sampleSize sampleCount size sector digest : List Char} {f : FileFingerprint}
      (hsampleSize : Numeral sampleSize f.sampleSize)
      (hsampleCount : Numeral sampleCount f.sampleCount)
      (hsize : Numeral size f.size)
      (hsector : Numeral sector f.sector)
      (hdigest : Digest.Spells digest f.digest.toList) :
      Spells (joinFields '|'
        [['F', '1'], sampleSize, sampleCount, size, sector, f.path.toList, digest]) f

end FileFingerprint

section Fields

theorem bar_not_mem_of_numeral
    {numeral : List Char}
    {n : Nat}
    (h : Numeral numeral n) :
    '|' ∉ numeral :=
  fun hmem => h.forall_mem (P := (· ≠ '|')) (by decide) (by decide) '|' hmem rfl

theorem bar_not_mem_of_spells
    {text digest : List Char}
    (h : Digest.Spells text digest) :
    '|' ∉ text :=
  Digest.not_mem_of_readDigest? ((Digest.readDigest?_eq_some_iff text digest).mpr h) (by decide)

theorem isSampling_iff
    (sampleSize sampleCount : Nat) :
    Fingerprint.isSampling sampleSize sampleCount = true
      ↔
    1 ≤ sampleSize ∧ sampleSize ≤ 1048576 ∧ 1 ≤ sampleCount := by
  have hmax : Fingerprint.maxSampleSize = 1048576 := by decide
  simp only [Fingerprint.isSampling, hmax, Bool.and_eq_true, bne_iff_ne, decide_eq_true_eq]
  omega

theorem windowStart?_isSome_iff
    (sector sectorSize size : Nat) :
    (Fingerprint.windowStart? sector sectorSize size).isSome = true
      ↔
    sector * sectorSize + size < 2 ^ 64 := by
  have hbound : offsetBound = 2 ^ 64 := by decide
  rw [Fingerprint.windowStart?, hbound]
  split
  · next hfits => exact iff_of_true rfl hfits
  · next hover => exact iff_of_false nofun hover

end Fields

namespace ImageFingerprint

/-- The line of a fingerprint is read if the image is no longer than a number of 64 bits. -/
theorem parse?_of_spells
    {line : List Char}
    {f : ImageFingerprint}
    (h : Spells line f)
    (hsampling : Fingerprint.isSampling f.sampleSize f.sampleCount = true)
    (hcount : f.sampleCount < 2 ^ 64) :
    parse? line = if f.length < 2 ^ 64 then some f else none := by
  cases h with
  | @fields sampleSize sampleCount length digest _ hsampleSize hsampleCount hlength hdigest =>
      have hbars : ∀ field ∈ [['I', '1'], sampleSize, sampleCount, length, digest],
          '|' ∉ field := by
        simp only [List.forall_mem_cons]
        exact ⟨by decide, bar_not_mem_of_numeral hsampleSize,
          bar_not_mem_of_numeral hsampleCount, bar_not_mem_of_numeral hlength,
          bar_not_mem_of_spells hdigest, by simp⟩
      have hsize : f.sampleSize < 2 ^ 64 :=
        Nat.lt_of_le_of_lt ((isSampling_iff _ _).mp hsampling).2.1 (by decide)
      rw [parse?, splitOn_joinFields hbars (List.cons_ne_nil _ _)]
      simp only [readNumeral?_of_numeral hsampleSize, readNumeral?_of_numeral hsampleCount,
        readNumeral?_of_numeral hlength, if_pos hsize, if_pos hcount,
        (Digest.readDigest?_eq_some_iff _ _).mpr hdigest, Option.bind_eq_bind, Option.bind_some]
      by_cases hfits : f.length < 2 ^ 64
      · rw [if_pos hfits, if_pos hfits, Option.bind_some, if_pos ⟨rfl, hsampling⟩,
          String.ofList_toList]
        rfl
      · rw [if_neg hfits, if_neg hfits, Option.bind_none]

/-- A line is read as the fingerprint that it spells, if this fits, and as no other. -/
theorem parse?_eq_some_iff
    (line : List Char)
    (f : ImageFingerprint) :
    parse? line = some f ↔ Spells line f ∧ f.Fits := by
  constructor
  · intro h
    rw [parse?] at h
    split at h
    · next mark sampleSize sampleCount length digest hsplit =>
        simp only [Option.bind_eq_bind, Option.bind_eq_some_iff, readNumeral?_eq_some_iff,
          Digest.readDigest?_eq_some_iff] at h
        obtain ⟨size, ⟨hsize, -⟩, count, ⟨hcount, hcountFits⟩, bytes, ⟨hbytes, hbytesFit⟩,
          kept, hkept, h⟩ := h
        split at h
        · next hsound =>
            cases h
            obtain ⟨rfl, hsampling⟩ := hsound
            obtain ⟨hpositive, hmost, hsome⟩ := (isSampling_iff _ _).mp hsampling
            rw [← String.toList_ofList (l := kept)] at hkept
            rw [← joinFields_splitOn '|' line, hsplit]
            exact ⟨.fields hsize hcount hbytes hkept,
              ⟨hpositive, hmost, hsome, hcountFits, hbytesFit, hkept.isLower⟩⟩
        · cases h
    · cases h
  · rintro ⟨hspells, hfits⟩
    have hsampling := (isSampling_iff _ _).mpr
      ⟨hfits.sampleSize_pos, hfits.sampleSize_le, hfits.sampleCount_pos⟩
    rw [parse?_of_spells hspells hsampling hfits.sampleCount_lt, if_pos hfits.length_lt]

/-- The line that is written for a fingerprint is one for it. -/
theorem spells_render
    {f : ImageFingerprint}
    (h : Digest.IsLower f.digest.toList) :
    Spells f.render f :=
  .fields (numeral_writeNumeral _) (numeral_writeNumeral _) (numeral_writeNumeral _) h.spells_self

/-- Fingerprints of images are kept as lines. -/
theorem lineFormat : LineFormat Spells Fits render parse .invalidFingerprint := by
  have hparse : ∀ line, parse line =
      (parse? line.toList).elim (.error (.invalidFingerprint line)) .ok := by
    intro line
    rw [parse]
    cases parse? line.toList <;> rfl
  exact lineFormat_of_spelling hparse parse?_eq_some_iff fun _ hfits => spells_render hfits.digest

end ImageFingerprint

namespace FileFingerprint

/-- A line is read as the fingerprint that it spells, if this fits, and as no other. -/
theorem parse?_eq_some_iff
    (line : List Char)
    (f : FileFingerprint) :
    parse? line = some f ↔ Spells line f ∧ f.Fits := by
  constructor
  · intro h
    simp only [parse?, Option.bind_eq_bind, Option.bind_eq_some_iff, readNumeral?_eq_some_iff,
      Digest.readDigest?_eq_some_iff, Prod.exists, cutFirst?_eq_some_iff,
      cutLast?_eq_some_iff] at h
    obtain ⟨mark, _, ⟨-, rfl⟩, sampleSize, _, ⟨-, rfl⟩, sampleCount, _, ⟨-, rfl⟩, size, _, ⟨-, rfl⟩,
      sector, _, ⟨-, rfl⟩, path, digest, ⟨-, rfl⟩, h⟩ := h
    obtain ⟨sampleBytes, ⟨hsampleSize, -⟩, samples, ⟨hsampleCount, hcountFits⟩, bytes,
      ⟨hsize, hsizeFits⟩, place, ⟨hsector, hsectorFits⟩, kept, hdigest, h⟩ := h
    split at h
    · next hsound =>
        cases h
        obtain ⟨rfl, hsampling, hwindow⟩ := hsound
        obtain ⟨hpositive, hmost, hsome⟩ := (isSampling_iff _ _).mp hsampling
        have hend := (windowStart?_isSome_iff _ _ _).mp hwindow
        rw [← String.toList_ofList (l := kept)] at hdigest
        have hspells := Spells.fields (f := ⟨sampleBytes, samples, bytes, place, String.ofList path,
          String.ofList kept⟩) hsampleSize hsampleCount hsize hsector hdigest
        rw [String.toList_ofList] at hspells
        exact ⟨hspells, ⟨hpositive, hmost, hsome, hcountFits, hsizeFits, hsectorFits, hend,
          hdigest.isLower⟩⟩
    · cases h
  · rintro ⟨hspells, hfits⟩
    cases hspells with
    | @fields sampleSize sampleCount size sector digest _ hsampleSize hsampleCount hsize hsector
        hdigest =>
        have hsampling := (isSampling_iff _ _).mpr
          ⟨hfits.sampleSize_pos, hfits.sampleSize_le, hfits.sampleCount_pos⟩
        have hwindow := (windowStart?_isSome_iff _ _ _).mpr hfits.end_lt
        have hbytes := Nat.lt_of_le_of_lt hfits.sampleSize_le (by decide : 1048576 < 2 ^ 64)
        simp only [parse?, joinFields, cutFirst?_append (show '|' ∉ ['F', '1'] by decide),
          cutFirst?_append (bar_not_mem_of_numeral hsampleSize),
          cutFirst?_append (bar_not_mem_of_numeral hsampleCount),
          cutFirst?_append (bar_not_mem_of_numeral hsize),
          cutFirst?_append (bar_not_mem_of_numeral hsector),
          cutLast?_append _ (bar_not_mem_of_spells hdigest),
          (readNumeral?_eq_some_iff _ _).mpr ⟨hsampleSize, hbytes⟩,
          (readNumeral?_eq_some_iff _ _).mpr ⟨hsampleCount, hfits.sampleCount_lt⟩,
          (readNumeral?_eq_some_iff _ _).mpr ⟨hsize, hfits.size_lt⟩,
          (readNumeral?_eq_some_iff _ _).mpr ⟨hsector, hfits.sector_lt⟩,
          (Digest.readDigest?_eq_some_iff _ _).mpr hdigest, Option.bind_eq_bind, Option.bind_some]
        rw [if_pos ⟨rfl, hsampling, hwindow⟩, String.ofList_toList, String.ofList_toList]
        rfl

/-- Fingerprints of files are kept as lines. -/
theorem lineFormat : LineFormat Spells Fits render parse .invalidFingerprint := by
  have hparse : ∀ line, parse line =
      (parse? line.toList).elim (.error (.invalidFingerprint line)) .ok := by
    intro line
    rw [parse]
    cases parse? line.toList <;> rfl
  refine lineFormat_of_spelling hparse parse?_eq_some_iff fun f hfits => ?_
  exact .fields (numeral_writeNumeral _) (numeral_writeNumeral _) (numeral_writeNumeral _)
    (numeral_writeNumeral _) hfits.digest.spells_self

end FileFingerprint

namespace Fingerprint

/-- A line that is no fingerprint of an image is refused before a question is asked. -/
theorem run_resolve_of_image_refused
    {image : String}
    {error : Error}
    (h : ImageFingerprint.parse image = .error error)
    (file : String) :
    (resolve image file).run = .done (.error error) := by
  rw [resolve, resolveWindow, h]
  rfl

/-- A line that is no fingerprint of a file is refused before a question is asked. -/
theorem run_resolve_of_file_refused
    {image file : String}
    {f : ImageFingerprint}
    (himage : ImageFingerprint.parse image = .ok f)
    {error : Error}
    (hfile : FileFingerprint.parse file = .error error) :
    (resolve image file).run = .done (.error error) := by
  rw [resolve, resolveWindow, himage, hfile]
  rfl

/--
**Fingerprints are kept as lines.** The line of a fingerprint that fits its format is read as this
fingerprint, whatever the path of the file is. A line is read as the fingerprint that it spells, and
the line that is written for this is read as the same again. Every other line is refused with an
error that quotes the whole of it, and a file is then not looked for: the program that should read
it ends with this error and asks its medium nothing.
-/
theorem lineFormat_fingerprints :
    LineFormat ImageFingerprint.Spells ImageFingerprint.Fits ImageFingerprint.render
      ImageFingerprint.parse .invalidFingerprint ∧
    LineFormat FileFingerprint.Spells FileFingerprint.Fits FileFingerprint.render
      FileFingerprint.parse .invalidFingerprint ∧
    (∀ image file, (∀ f, ImageFingerprint.Spells image.toList f → ¬ f.Fits) →
      (resolve image file).run = .done (.error (.invalidFingerprint image))) ∧
    ∀ image file f, ImageFingerprint.parse image = .ok f →
      (∀ g, FileFingerprint.Spells file.toList g → ¬ g.Fits) →
        (resolve image file).run = .done (.error (.invalidFingerprint file)) := by
  refine ⟨ImageFingerprint.lineFormat, FileFingerprint.lineFormat, ?_, ?_⟩
  · intro image file hother
    exact run_resolve_of_image_refused (ImageFingerprint.lineFormat.parse_refused image hother) file
  · intro image file f himage hother
    exact run_resolve_of_file_refused himage (FileFingerprint.lineFormat.parse_refused file hother)

/-- A fingerprint of a file whose path looks like the line of an image. -/
def barred : FileFingerprint :=
  ⟨2048, 4, 5, 3, "/I1|2048|\n", "0123456789abcdef0123456789abcdef"⟩

/-- Two lines of one fingerprint, and a line that is refused before anything is read. -/
theorem lineFormat_fingerprints_barred :
    barred.Fits ∧
    FileFingerprint.parse "F1|2048|4|5|3|/I1|2048|\n|0123456789abcdef0123456789abcdef" =
      .ok barred ∧
    FileFingerprint.parse "F1|+2048|04|5|3|/I1|2048|\n|0123456789ABCDEF0123456789ABCDEF" =
      .ok barred ∧
    (resolve "I1|2048" "F1").run = .done (.error (.invalidFingerprint "I1|2048")) := by
  obtain ⟨himage, hfile, hrefused, -⟩ := lineFormat_fingerprints
  have hdigest : Digest.Spells "0123456789ABCDEF0123456789ABCDEF".toList barred.digest.toList :=
    (Digest.readDigest?_eq_some_iff _ _).mp (by decide)
  have hfits : barred.Fits :=
    ⟨by decide, by decide, by decide, by decide, by decide, by decide, by decide, hdigest.isLower⟩
  have hsampleSize : Digits ['2', '0', '4', '8'] barred.sampleSize := by decide
  have hsampleCount : Digits ['0', '4'] barred.sampleCount := by decide
  have hsize : Digits ['5'] barred.size := by decide
  have hsector : Digits ['3'] barred.sector := by decide
  have hspells : FileFingerprint.Spells
      "F1|+2048|04|5|3|/I1|2048|\n|0123456789ABCDEF0123456789ABCDEF".toList barred :=
    .fields (f := barred) (.signed hsampleSize) (.plain hsampleCount) (.plain hsize)
      (.plain hsector) hdigest
  refine ⟨hfits, hfile.parse_render _ hfits, (hfile.parse_iff _ _).mpr ⟨hspells, hfits⟩, ?_⟩
  refine hrefused "I1|2048" "F1" fun f hother hotherFits => ?_
  have hread := (himage.parse_iff _ f).mpr ⟨hother, hotherFits⟩
  cases hread

end Fingerprint
end Optical
