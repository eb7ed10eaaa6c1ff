import Optical.Digest.Hex
import Optical.Error
import Optical.Extent
import Optical.Text.Fields
import Optical.Text.Numeral

/-!
# Lines of fingerprints

A fingerprint marks the state of an image, or of a file in it, by a digest of a few samples spread
over its bytes. It is kept as a line of fields with bars between them.

* The line of an image is I1, the sample size, the number of samples, the length and the digest.
* The line of a file is F1, the sample size, which is also the size of the sectors it counts in, the
  number of samples, the size, the sector, the path and the digest. The path may hold any character.
-/

namespace Optical

/-- The fingerprint of an image. -/
structure ImageFingerprint where
  sampleSize : Nat
  sampleCount : Nat
  length : Nat
  digest : String
deriving DecidableEq, Repr

/-- The fingerprint of a file. -/
structure FileFingerprint where
  sampleSize : Nat
  sampleCount : Nat
  size : Nat
  sector : Nat
  path : String
  digest : String
deriving DecidableEq, Repr

namespace Fingerprint

/-- The greatest size of a sample. -/
def maxSampleSize : Nat := 1024 * 1024

/-- The number of samples of an image. -/
def imageSamples : Nat := 10

/-- The number of samples of a file. -/
def fileSamples : Nat := 4

/-- The first field of the line of an image. -/
def imageMark : List Char := ['I', '1']

/-- The first field of the line of a file. -/
def fileMark : List Char := ['F', '1']

/-- Samples can be taken. -/
def isSampling (sampleSize sampleCount : Nat) : Bool :=
  sampleSize != 0 && sampleSize ≤ maxSampleSize && sampleCount != 0

/-- The offset of a run of bytes that begins at a sector, if its end is a 64-bit number. -/
def windowStart? (sector sectorSize size : Nat) : Option Nat :=
  if sector * sectorSize + size < offsetBound then some (sector * sectorSize) else none

end Fingerprint

open Fingerprint

namespace ImageFingerprint

/-- The line that keeps a fingerprint. -/
def render (f : ImageFingerprint) : List Char :=
  Text.joinFields '|' [imageMark, Text.writeNumeral f.sampleSize, Text.writeNumeral f.sampleCount,
    Text.writeNumeral f.length, f.digest.toList]

/-- The fingerprint in a line. -/
def parse? (line : List Char) : Option ImageFingerprint :=
  match line.splitOn '|' with
  | [mark, sampleSize, sampleCount, length, digest] => do
      let sampleSize ← Text.readNumeral? sampleSize
      let sampleCount ← Text.readNumeral? sampleCount
      let length ← Text.readNumeral? length
      let digest ← Digest.readDigest? digest
      if mark = imageMark ∧ isSampling sampleSize sampleCount then
        return { sampleSize, sampleCount, length, digest := String.ofList digest }
      else none
  | _ => none

/-- The fingerprint in a line, or an error that quotes it. -/
def parse (line : String) : Except Error ImageFingerprint :=
  match parse? line.toList with
  | some f => .ok f
  | none => .error (.invalidFingerprint line)

end ImageFingerprint

namespace FileFingerprint

/-- The line that keeps a fingerprint. -/
def render (f : FileFingerprint) : List Char :=
  Text.joinFields '|' [fileMark, Text.writeNumeral f.sampleSize, Text.writeNumeral f.sampleCount,
    Text.writeNumeral f.size, Text.writeNumeral f.sector, f.path.toList, f.digest.toList]

/-- The fingerprint in a line. -/
def parse? (line : List Char) : Option FileFingerprint := do
  let (mark, line) ← Text.cutFirst? '|' line
  let (sampleSize, line) ← Text.cutFirst? '|' line
  let (sampleCount, line) ← Text.cutFirst? '|' line
  let (size, line) ← Text.cutFirst? '|' line
  let (sector, line) ← Text.cutFirst? '|' line
  let (path, digest) ← Text.cutLast? '|' line
  let sampleSize ← Text.readNumeral? sampleSize
  let sampleCount ← Text.readNumeral? sampleCount
  let size ← Text.readNumeral? size
  let sector ← Text.readNumeral? sector
  let digest ← Digest.readDigest? digest
  if mark = fileMark ∧ isSampling sampleSize sampleCount
      ∧ (windowStart? sector sampleSize size).isSome then
    return { sampleSize, sampleCount, size, sector
             path := String.ofList path, digest := String.ofList digest }
  else none

/-- The fingerprint in a line, or an error that quotes it. -/
def parse (line : String) : Except Error FileFingerprint :=
  match parse? line.toList with
  | some f => .ok f
  | none => .error (.invalidFingerprint line)

end FileFingerprint
end Optical
