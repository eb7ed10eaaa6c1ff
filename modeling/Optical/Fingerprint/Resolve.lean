import Optical.Fingerprint.Sample
import Optical.Window.Transfer

/-!
# Reading a file by its fingerprint

Two lines, one of an image and one of a file in it, let the file be read later without its tree, as
long as neither shows a change.
-/

namespace Optical
namespace Fingerprint

/--
The window on a file that was recorded by two lines, if neither the image nor the file has changed
since. Lines that cannot be understood are refused before anything is read.
-/
def resolveWindow (image file : String) : ReadM (Option Window) := do
  let recordedImage ← ReadM.ofExcept (ImageFingerprint.parse image)
  let recordedFile ← ReadM.ofExcept (FileFingerprint.parse file)
  let current ← ImageFingerprint.take recordedImage.sampleSize recordedImage.sampleCount
  if current ≠ recordedImage then return none
  else if (← recordedFile.currentDigest) ≠ recordedFile.digest then return none
  else return recordedFile.window?

/-- The bytes of a file that was recorded by two lines, if nothing shows a change since. -/
def resolve (image file : String) : ReadM (Option Bytes) := do
  match ← resolveWindow image file with
  | none => return none
  | some w =>
      ExceptT.mk do
        let (answer, _) ← w.readRemaining
        return answer.map some

end Fingerprint
end Optical
