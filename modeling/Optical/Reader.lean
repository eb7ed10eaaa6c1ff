import Optical.Content
import Optical.Detection
import Optical.Fingerprint.Resolve

/-!
# Image readers

A reader remembers how its image is to be read, once that is known. Settings may be given at the
start; otherwise they are detected when they are first needed, and kept even if the tree cannot be
built with them.
-/

namespace Optical

/-- What is known about how an image is to be read. -/
structure Reader where
  settings : Option Settings
deriving DecidableEq, Repr

namespace Reader

/-- A reader that knows nothing yet. -/
def new : Reader := ⟨none⟩

/-- A reader that is told how to read. -/
def withSettings (settings : Settings) : Reader := ⟨some settings⟩

/-- The settings, detected if they are not known; a failure is not remembered. -/
def detect (reader : Reader) : Query (Except Error Settings × Reader) :=
  match reader.settings with
  | some settings => return (.ok settings, reader)
  | none => do
      match ← Optical.detect.run with
      | .ok settings => return (.ok settings, withSettings settings)
      | .error error => return (.error error, reader)

/-- The tree of the image. -/
def tree (reader : Reader) : Query (Except Error (FileTree Attributes) × Reader) := do
  match ← reader.detect with
  | (.ok settings, known) => return (← (buildTree settings).run, known)
  | (.error error, same) => return (.error error, same)

end Reader
end Optical
