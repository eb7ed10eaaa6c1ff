import Optical.Fingerprint.Resolve
import Optical.Proofs.Fingerprint.Lines
import Optical.Proofs.Window.OnImage

/-!
# Fingerprints of an image in memory

On an image in memory a fingerprint is a function of bytes. The samples of a window are runs of bytes
at equal distances, cut at the end of the window and at the end of the image; the digest covers them
in order, behind the bytes of the path if it is a file that is marked.

* samplesOf are the bytes that the samples of a window cover;
* eval_take and eval_currentDigest give the fingerprints of an image and of a file;
* sound_onImage says, of both kinds, that fingerprints that were taken can be kept as lines;
* eval_resolve says what two recorded lines give on an image.
-/

namespace Optical

theorem Digest.md5_length (message : Bytes) : (Digest.md5 message).length = 16 := by
  simp [Digest.md5, Digest.Md5.finish]

/-- The text of every digest that is computed can be kept. -/
theorem Digest.isKept_digestText (message : Bytes) :
    Digest.IsKept (Digest.digestText (Digest.md5 message)) := by
  rw [Digest.IsKept, Digest.digestText, String.toList_ofList]
  exact Digest.readDigest?_hex (Digest.md5_length message)

namespace Fingerprint

section Samples

variable (image : Image)

/-- The bytes of an image that a sample at an offset in a window covers. -/
def sampleAt (w : Window) (sampleSize offset : Nat) : Bytes :=
  image.part (w.start + offset) (min sampleSize (w.length - offset))

/-- The bytes of an image that the samples of a window cover, in order. -/
def samplesOf (w : Window) (sampleSize sampleCount : Nat) : Bytes :=
  (sampleOffsets w.length sampleCount).flatMap (sampleAt image w sampleSize)

/-- The digest of a head and of the samples of a window on an image. -/
def digestOn (head : Bytes) (w : Window) (sampleSize sampleCount : Nat) : String :=
  Digest.digestText (Digest.md5 (head ++ samplesOf image w sampleSize sampleCount))

theorem eval_readSample
    (w : Window)
    (sampleSize offset : Nat) :
    image.eval (readSample w sampleSize offset) = .ok (sampleAt image w sampleSize offset) := by
  show image.ask (Window.fill { w with position := offset } sampleSize >>= _) = _
  rw [Image.ask_bind, Window.ask_fill]
  rfl

theorem eval_readSamples
    (w : Window)
    (sampleSize sampleCount : Nat) :
    image.eval (readSamples w sampleSize sampleCount) =
      .ok (samplesOf image w sampleSize sampleCount) := by
  rw [readSamples, Image.eval_bind, Image.eval_mapM]
  simp only [eval_readSample]
  rw [show (fun offset => Except.ok (sampleAt image w sampleSize offset)) =
    fun offset => (pure (sampleAt image w sampleSize offset) : Except Error Bytes) from rfl]
  rw [List.mapM_pure]
  rfl

theorem eval_digestOf
    (head : Bytes)
    (w : Window)
    (sampleSize sampleCount : Nat) :
    image.eval (digestOf head w sampleSize sampleCount) =
      .ok (digestOn image head w sampleSize sampleCount) := by
  rw [digestOf, Image.eval_bind, eval_readSamples]
  rfl

end Samples

end Fingerprint

open Fingerprint

namespace ImageFingerprint

/-- The fingerprint of an image with samples of a size and number. -/
def onImage (image : Image) (sampleSize sampleCount : Nat) : ImageFingerprint where
  sampleSize := sampleSize
  sampleCount := sampleCount
  length := image.size
  digest := digestOn image [] (Window.ofRange 0 image.size) sampleSize sampleCount

/-- The fingerprint of an image can always be taken. -/
theorem eval_take
    (image : Image)
    (sampleSize sampleCount : Nat) :
    image.eval (take sampleSize sampleCount) = .ok (onImage image sampleSize sampleCount) := by
  rw [take, Image.eval_bind, Image.eval_size]
  show image.eval (digestOf _ _ _ _ >>= _) = _
  rw [Image.eval_bind, eval_digestOf]
  rfl

/-- The fingerprint of an image whose offsets are 64-bit numbers can be kept. -/
theorem sound_onImage
    {image : Image}
    (h : image.size < offsetBound) :
    (onImage image sectorSize imageSamples).Sound where
  sampling := (by decide : isSampling sectorSize imageSamples = true)
  sampleCount := (by decide : imageSamples < Text.numeralBound)
  length := h
  digest := Digest.isKept_digestText _

/-- The line of an image is read back if the offsets of the image are 64-bit numbers. -/
theorem parse_render_onImage
    (image : Image) :
    parse (String.ofList (onImage image sectorSize imageSamples).render) =
      if image.size < offsetBound then .ok (onImage image sectorSize imageSamples)
      else .error (.invalidFingerprint
        (String.ofList (onImage image sectorSize imageSamples).render)) :=
  parse_render_eq
    (by decide : isSampling sectorSize imageSamples = true)
    (by decide : imageSamples < Text.numeralBound)
    (Digest.isKept_digestText _)

end ImageFingerprint

namespace FileFingerprint

/-- The digest of a file exists if its window does. -/
theorem eval_currentDigest
    (image : Image)
    {f : FileFingerprint}
    {w : Window}
    (h : f.window? = some w) :
    image.eval f.currentDigest =
      .ok (digestOn image (Text.Utf8.encode f.path.toList) w f.sampleSize f.sampleCount) := by
  rw [currentDigest, h]
  exact eval_digestOf image _ w _ _

section Entries

variable {κ : Type}

/-- The fingerprint of the file of a node. -/
def onImage (image : Image) (entry : Entry κ) : FileFingerprint where
  sampleSize := sectorSize
  sampleCount := fileSamples
  size := entry.size
  sector := entry.sector
  path := entry.path
  digest := digestOn image (Text.Utf8.encode entry.path.toList) (Window.ofExtent entry.extent)
    sectorSize fileSamples

variable {entry : Entry κ}

theorem windowStart?_entry
    (h : entry.extent.byteOffset + entry.size < offsetBound) :
    windowStart? entry.sector sectorSize entry.size = some entry.extent.byteOffset :=
  if_pos h

theorem window?_onImage
    (image : Image)
    (h : entry.extent.byteOffset + entry.size < offsetBound) :
    (onImage image entry).window? = some (Window.ofExtent entry.extent) := by
  show (windowStart? entry.sector sectorSize entry.size).map _ = _
  rw [windowStart?_entry h]
  rfl

/-- The fingerprint of a file can be taken if and only if its window ends at a 64-bit offset. -/
theorem eval_ofEntry_eq_ok_iff
    (image : Image)
    (f : FileFingerprint) :
    image.eval (ofEntry entry) = .ok f
      ↔
    entry.extent.byteOffset + entry.size < offsetBound ∧ f = onImage image entry := by
  rw [ofEntry, Image.eval_bind_eq_ok_iff]
  constructor
  · rintro ⟨digest, hdigest, hf⟩
    by_cases h : entry.extent.byteOffset + entry.size < offsetBound
    · rw [eval_currentDigest image (by rw [window?, windowStart?_entry h]; rfl)] at hdigest
      cases hdigest
      cases hf
      exact ⟨h, rfl⟩
    · have hnone : windowStart? entry.sector sectorSize entry.size = none := if_neg h
      rw [currentDigest, window?, hnone] at hdigest
      cases hdigest
  · rintro ⟨h, rfl⟩
    refine ⟨(onImage image entry).digest, ?_, rfl⟩
    rw [eval_currentDigest image (by rw [window?, windowStart?_entry h]; rfl)]
    rfl

/-- The fingerprint of a file can then be kept as well. -/
theorem sound_onImage
    (image : Image)
    (h : entry.extent.byteOffset + entry.size < offsetBound) :
    (onImage image entry).Sound where
  sampling := (by decide : isSampling sectorSize fileSamples = true)
  sampleCount := (by decide : fileSamples < Text.numeralBound)
  size := Nat.lt_of_le_of_lt (Nat.le_add_left _ _) h
  sector := by
    have hsector : entry.sector ≤ entry.extent.byteOffset :=
      Nat.le_mul_of_pos_right entry.sector (by decide)
    exact Nat.lt_of_le_of_lt (Nat.le_trans hsector (Nat.le_add_right _ _)) h
  window := by
    show (windowStart? entry.sector sectorSize entry.size).isSome = true
    rw [windowStart?_entry h]
    rfl
  digest := Digest.isKept_digestText _

end Entries

end FileFingerprint

namespace Fingerprint

/-- What two lines give on an image: the file's bytes, if both fingerprints are found again. -/
theorem eval_resolve
    (image : Image)
    {imageLine fileLine : String}
    {recorded : ImageFingerprint}
    {file : FileFingerprint}
    {w : Window}
    (himage : ImageFingerprint.parse imageLine = .ok recorded)
    (hfile : FileFingerprint.parse fileLine = .ok file)
    (hwindow : file.window? = some w) :
    image.eval (resolve imageLine fileLine) =
      if ImageFingerprint.onImage image recorded.sampleSize recorded.sampleCount = recorded ∧
          digestOn image (Text.Utf8.encode file.path.toList) w file.sampleSize file.sampleCount =
            file.digest then
        some <$> (image.ask w.readRemaining).1
      else .ok none := by
  have hopened : image.eval (resolveWindow imageLine fileLine) =
      if ImageFingerprint.onImage image recorded.sampleSize recorded.sampleCount = recorded ∧
          digestOn image (Text.Utf8.encode file.path.toList) w file.sampleSize file.sampleCount =
            file.digest then
        .ok (some w)
      else .ok none := by
    rw [resolveWindow, himage, hfile]
    show image.eval (ImageFingerprint.take _ _ >>= _) = _
    rw [Image.eval_bind, ImageFingerprint.eval_take]
    show image.eval (if _ then _ else _) = _
    split
    · next hchanged =>
        rw [if_neg fun h => hchanged h.1]
        rfl
    · next hsame =>
        rw [Image.eval_bind, FileFingerprint.eval_currentDigest image hwindow]
        show image.eval (if _ then _ else _) = _
        split
        · next hchanged =>
            rw [if_neg fun h => hchanged h.2]
            rfl
        · next hkept =>
            rw [if_pos ⟨Decidable.of_not_not hsame, Decidable.of_not_not hkept⟩, hwindow]
            rfl
  rw [resolve, Image.eval_bind, hopened]
  split
  · next hboth =>
      show image.ask (w.readRemaining >>= _) = _
      rw [Image.ask_bind]
      rfl
  · rfl

end Fingerprint
end Optical
