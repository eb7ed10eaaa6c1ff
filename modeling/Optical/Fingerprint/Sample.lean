import Optical.Digest.Md5
import Optical.FileTree.Basic
import Optical.Fingerprint.Line
import Optical.Text.Utf8
import Optical.Window.Read

/-!
# Samples

The digest of a fingerprint is taken from samples at equal distances, the first at the start of the
window. The distance is the quotient of the length and the number of samples, plus one, so every
sample begins inside the window; those that reach its end are cut there.

The digest of a file covers its path as well.
-/

namespace Optical
namespace Fingerprint

/-- The distance between the starts of two samples. -/
def sampleStep (length count : Nat) : Nat :=
  length / count + 1

/-- The bytes of a sample at an offset in a window, fewer at the end. -/
def readSample (w : Window) (size offset : Nat) : ReadM Bytes :=
  ExceptT.mk do
    let (answer, _) ← Window.fill { w with position := offset } size
    return answer

/-- The offsets of a count of samples, those past the end of the window left out. -/
def sampleOffsets (length count : Nat) : List Nat :=
  let step := sampleStep length count
  (List.range (min count ((length + (step - 1)) / step))).map (· * step)

/-- The bytes of all samples of a window in order. -/
def readSamples (w : Window) (sampleSize sampleCount : Nat) : ReadM Bytes := do
  let samples ← (sampleOffsets w.length sampleCount).mapM (readSample w sampleSize)
  return samples.flatten

/-- The digest of a head and of the samples of a window. -/
def digestOf (head : Bytes) (w : Window) (sampleSize sampleCount : Nat) : ReadM String := do
  let samples ← readSamples w sampleSize sampleCount
  return Digest.digestText (Digest.md5 (head ++ samples))

end Fingerprint

open Fingerprint

namespace ImageFingerprint

/-- Takes the fingerprint of an image with samples of a size and number. -/
def take (sampleSize sampleCount : Nat) : ReadM ImageFingerprint := do
  let length ← ReadM.size
  let digest ← digestOf [] (Window.ofRange 0 length) sampleSize sampleCount
  return { sampleSize, sampleCount, length, digest }

/-- Takes the fingerprint of an image. -/
def ofImage : ReadM ImageFingerprint :=
  take sectorSize imageSamples

end ImageFingerprint

namespace FileFingerprint

/-- The window on the bytes of a file, if it ends at a 64-bit offset. -/
def window? (f : FileFingerprint) : Option Window :=
  (windowStart? f.sector f.sampleSize f.size).map fun start => Window.ofRange start f.size

/-- The name of a file in the error for a window that is too large. -/
def description (f : FileFingerprint) : String :=
  f.path ++ ": sector " ++ String.ofList (Text.writeNumeral f.sector) ++ " size "
    ++ String.ofList (Text.writeNumeral f.size)

/-- Computes the digest of the file that a fingerprint is about. -/
def currentDigest (f : FileFingerprint) : ReadM String :=
  match f.window? with
  | none => throw (.invalidFingerprint f.description)
  | some w => digestOf (Text.Utf8.encode f.path.toList) w f.sampleSize f.sampleCount

/-- Takes the fingerprint of the file of a node. -/
def ofEntry {κ : Type} (entry : Entry κ) : ReadM FileFingerprint := do
  let blank : FileFingerprint :=
    { sampleSize := sectorSize, sampleCount := fileSamples
      size := entry.size, sector := entry.sector, path := entry.path, digest := "" }
  return { blank with digest := ← blank.currentDigest }

end FileFingerprint
end Optical
