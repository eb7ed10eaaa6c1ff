import Optical.Proofs.Fingerprint.Spelling

/-!
# Lines of fingerprints read back

A fingerprint that the library has taken can always be kept as a line: its numbers fit in 64 bits,
samples can be taken by it, and its digest is one in lower case. Such a fingerprint is sound. A
sound fingerprint fits its format, so its line is read as that fingerprint.
-/

namespace Optical

open Fingerprint

/-- A digest as it is kept. -/
def Digest.IsKept (digest : String) : Prop :=
  Digest.readDigest? digest.toList = some digest.toList

/-- A fingerprint of an image that can be kept as a line. -/
structure ImageFingerprint.Sound (f : ImageFingerprint) : Prop where
  sampling : isSampling f.sampleSize f.sampleCount = true
  sampleCount : f.sampleCount < Text.numeralBound
  length : f.length < Text.numeralBound
  digest : Digest.IsKept f.digest

/-- A fingerprint of a file that can be kept as a line. -/
structure FileFingerprint.Sound (f : FileFingerprint) : Prop where
  sampling : isSampling f.sampleSize f.sampleCount = true
  sampleCount : f.sampleCount < Text.numeralBound
  size : f.size < Text.numeralBound
  sector : f.sector < Text.numeralBound
  window : (windowStart? f.sector f.sampleSize f.size).isSome = true
  digest : Digest.IsKept f.digest

theorem Digest.IsKept.isLower
    {digest : String}
    (h : Digest.IsKept digest) :
    Digest.IsLower digest.toList :=
  ((Digest.readDigest?_eq_some_iff _ _).mp h).isLower

/--
The line of a fingerprint of an image is read as that fingerprint, and refused if the image is
longer than any number of 64 bits.
-/
theorem ImageFingerprint.parse_render_eq
    {f : ImageFingerprint}
    (hsampling : isSampling f.sampleSize f.sampleCount = true)
    (hcount : f.sampleCount < Text.numeralBound)
    (hdigest : Digest.IsKept f.digest) :
    ImageFingerprint.parse (String.ofList f.render) =
      if f.length < Text.numeralBound then .ok f
      else .error (.invalidFingerprint (String.ofList f.render)) := by
  rw [Text.numeralBound_eq] at hcount ⊢
  rw [parse, String.toList_ofList, parse?_of_spells (spells_render hdigest.isLower) hsampling hcount]
  by_cases hlength : f.length < 2 ^ 64
  · rw [if_pos hlength, if_pos hlength]
  · rw [if_neg hlength, if_neg hlength]

/-- The line of a sound fingerprint of an image is read as that fingerprint. -/
theorem ImageFingerprint.parse_render
    {f : ImageFingerprint}
    (h : f.Sound) :
    ImageFingerprint.parse (String.ofList f.render) = .ok f := by
  rw [parse_render_eq h.sampling h.sampleCount h.digest, if_pos h.length]

/-- The line of a sound fingerprint of a file is read as that fingerprint. -/
theorem FileFingerprint.parse_render
    {f : FileFingerprint}
    (h : f.Sound) :
    FileFingerprint.parse (String.ofList f.render) = .ok f := by
  obtain ⟨hpositive, hmost, hsome⟩ := (isSampling_iff _ _).mp h.sampling
  have hend := (windowStart?_isSome_iff _ _ _).mp h.window
  exact FileFingerprint.lineFormat.parse_render f
    ⟨hpositive, hmost, hsome, h.sampleCount, h.size, h.sector, hend, h.digest.isLower⟩

end Optical
