import Optical.FileTree.Basic

/-!
# Finding a node by its path

A path is a list of segments between slashes or backslashes; empty segments do not count. Each
segment leads to the first child whose name it matches. A name matches itself, its part before a
version suffix such as ";1", and that part without the dot at its end.
-/

namespace Optical

/-- A name without its version suffix. -/
def stripVersion (name : List Char) : List Char :=
  name.takeWhile (· != ';')

/-- A segment of a path stands for a stored name. -/
def nameMatches (stored segment : List Char) : Bool :=
  stored == segment || stripVersion stored == segment
    || (stored.contains ';' && stripVersion stored == segment ++ ['.'])

/-- The character separates the segments of a path. -/
def isSeparator (c : Char) : Bool :=
  c == '/' || c == '\\'

/-- The segments of a path. -/
def pathSegments (path : List Char) : List (List Char) :=
  (path.splitOnP isSeparator).filter (!·.isEmpty)

namespace FileTree

variable {κ : Type}

/-- A segment of a path stands for a node. -/
def childMatches (tree : FileTree κ) (segment : List Char) (id : Nat) : Bool :=
  (tree.get? id).any fun entry => nameMatches entry.name.toList segment

/-- The node to which segments lead from a node. -/
def descend? (tree : FileTree κ) : Nat → List (List Char) → Option Nat
  | id, [] => some id
  | id, segment :: segments =>
      match (tree.childrenOf id).find? (tree.childMatches segment) with
      | none => none
      | some child => tree.descend? child segments

/-- The node to which a path leads from the root. -/
def find? (tree : FileTree κ) (path : String) : Option Nat :=
  tree.descend? root (pathSegments path.toList)

end FileTree
end Optical
