import Optical.Iso.Volume
import Optical.Settings
import Optical.Udf.Tree

/-!
# Detection

An image with a sound UDF anchor is read as UDF; any other by the best table of its ISO9660 volume.
-/

namespace Optical

/-- Finds out how an image is to be read. -/
def detect : ReadM Settings := do
  let anchors ← Udf.probe
  if !anchors.isEmpty then return .udf
  else
    let volume ← Iso.Volume.read
    match ← volume.bestTable with
    | some choice => return .iso choice.rockRidge choice.table
    | none => throw .noFileSystem

/-- Reads the tree of an image in a given way. -/
def buildTree : Settings → ReadM (FileTree Attributes)
  | .udf => do (← Udf.Volume.read).buildTree
  | .iso rockRidge table => do (← Iso.Volume.read).buildTree table rockRidge

end Optical
