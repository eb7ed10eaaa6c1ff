import Optical.Reader
import Optical.Window.Operation

/-!
# Sessions of image readers

A holder of a reader makes one request after another: reads at any offset, the settings, the tree,
the contents of a node or a stream over them, fingerprints, and files by their fingerprints. The
reader goes on from request to request with the settings that it has found, and the source with
whatever it remembers.
-/

namespace Optical

/-- One use of a reader. -/
inductive Request where
  | readAt (offset count : Nat)
  | detect
  | tree
  /-- The tree with settings that are not kept. -/
  | treeWith (settings : Settings)
  | contents (node : Node Attributes)
  /-- A new stream over the contents of a node, and what is done with it. -/
  | stream (node : Node Attributes) (operations : List Window.Operation)
  | imageFingerprint
  | fileFingerprint (entry : Entry Attributes)
  | resolve (image file : String)
deriving DecidableEq, Repr

/-- What a request is told. -/
inductive Reply where
  | bytes (answer : Except Error Bytes)
  | settings (answer : Except Error Settings)
  | tree (answer : Except Error (FileTree Attributes))
  | streamed (outcomes : List (Window.Outcome × Nat))
  | imageFingerprint (answer : Except Error ImageFingerprint)
  | fileFingerprint (answer : Except Error FileFingerprint)
  | resolved (answer : Except Error (Option Bytes))

namespace Reader

/-- Serves one request; only the search for settings changes what the reader knows. -/
def serve (reader : Reader) : Request → Query (Reply × Reader)
  | .readAt offset count => do
      return (.bytes (← (ReadM.readAt offset count).run), reader)
  | .detect => do
      let (answer, known) ← reader.detect
      return (.settings answer, known)
  | .tree => do
      let (answer, known) ← reader.tree
      return (.tree answer, known)
  | .treeWith settings => do
      return (.tree (← (buildTree settings).run), reader)
  | .contents node => do
      return (.bytes (← node.extent.contents.run), reader)
  | .stream node operations => do
      let (outcomes, _) ← (Window.ofExtent node.extent).performAll operations
      return (.streamed outcomes, reader)
  | .imageFingerprint => do
      return (.imageFingerprint (← ImageFingerprint.ofImage.run), reader)
  | .fileFingerprint entry => do
      return (.fileFingerprint (← (FileFingerprint.ofEntry entry).run), reader)
  | .resolve image file => do
      return (.resolved (← (Fingerprint.resolve image file).run), reader)

/-- Serves requests one after another on one source and tells what the reader knows in the end. -/
def serveAll {m : Type → Type} [Monad m] (source : Source m) (reader : Reader) :
    List Request → m (List Reply × Reader)
  | [] => return ([], reader)
  | request :: requests => do
      let (reply, known) ← (reader.serve request).run source
      let (later, last) ← serveAll source known requests
      return (reply :: later, last)

end Reader
end Optical
