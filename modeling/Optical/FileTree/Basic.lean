import Optical.Extent
import Optical.Forest

/-!
# File trees

A file tree is an array of nodes, numbered in the order in which they were attached; the root has
the number zero. Each node keeps the number of its parent, the numbers of its children in order,
and its path from the root, so that a node can be named and found without a search.

* ofRoot and attach build a tree, ofForest builds one from a root and the forest below it;
* walk lists the nodes, each before its children, and files leaves out the directories;
* fullPath spells the way from the root with any separator.
-/

namespace Optical

/-- What a tree is told about a node when it is attached. -/
structure Node (κ : Type) where
  name : String
  /-- The length of the contents in bytes. -/
  size : Nat
  /-- The sector at which the contents begin. -/
  sector : Nat
  isDirectory : Bool
  /-- What the file system records beyond that. -/
  attributes : κ
deriving DecidableEq, Repr

namespace Node

variable {κ : Type}

/-- The extent that holds the contents. -/
def extent (node : Node κ) : Extent := ⟨node.sector, node.size⟩

end Node

/-- A node with its place in a tree. -/
structure Entry (κ : Type) extends Node κ where
  parent : Option Nat
  children : List Nat
  path : String
deriving DecidableEq, Repr

/-- A tree of files and directories. -/
structure FileTree (κ : Type) where
  entries : Array (Entry κ)
deriving DecidableEq, Repr

namespace FileTree

section

variable {κ : Type}

/-- The number of the root. -/
def root : Nat := 0

/-- The tree of a root alone. -/
def ofRoot (node : Node κ) : FileTree κ :=
  ⟨#[{ node with parent := none, children := [], path := "/" }]⟩

/-- The number of nodes. -/
def size (tree : FileTree κ) : Nat := tree.entries.size

/-- The tree has no nodes. -/
def isEmpty (tree : FileTree κ) : Bool := tree.entries.isEmpty

/-- The node with a number. -/
def get? (tree : FileTree κ) (id : Nat) : Option (Entry κ) := tree.entries[id]?

/-- The numbers of a node's children in order. -/
def childrenOf (tree : FileTree κ) (id : Nat) : List Nat :=
  (tree.get? id).elim [] (·.children)

/-- The path of a node. -/
def pathOf (tree : FileTree κ) (id : Nat) : String :=
  (tree.get? id).elim "" (·.path)

/-- The path of a child, given the path of its parent. -/
def joinPath (parent name : String) : String :=
  if parent = "/" then "/" ++ name else parent ++ "/" ++ name

/-- The tree with one more node, whose number is the size of the tree before. -/
def attach (tree : FileTree κ) (parent : Nat) (node : Node κ) : FileTree κ :=
  let id := tree.size
  let path := joinPath (tree.pathOf parent) node.name
  let linked := tree.entries.modify parent fun entry =>
    { entry with children := entry.children ++ [id] }
  ⟨linked.push { node with parent := some parent, children := [], path }⟩

@[simp] theorem size_ofRoot (node : Node κ) : (ofRoot node).size = 1 := rfl

@[simp] theorem size_attach (tree : FileTree κ) (parent : Nat) (node : Node κ) :
    (tree.attach parent node).size = tree.size + 1 := by
  simp [attach, size]

/-- The tree with a forest attached below a node, each label before those below it. -/
def graft (tree : FileTree κ) (parent : Nat) : Forest (Node κ) → FileTree κ
  | .nil => tree
  | .cons node below rest =>
      let id := tree.size
      ((tree.attach parent node).graft id below).graft parent rest

theorem size_graft (tree : FileTree κ) (parent : Nat) (forest : Forest (Node κ)) :
    (tree.graft parent forest).size = tree.size + forest.size := by
  induction forest generalizing tree parent with
  | nil => rfl
  | cons node below rest ihBelow ihRest =>
      simp only [graft, ihRest, ihBelow, size_attach, Forest.size, Forest.labels,
        List.length_cons, List.length_append]
      omega

/-- The tree of a root and the forest below it. -/
def ofForest (node : Node κ) (below : Forest (Node κ)) : FileTree κ :=
  (ofRoot node).graft root below

/--
The nodes on a stack and below them, each before its children.
At most so many nodes are listed as the first argument says.
-/
def walkStack (tree : FileTree κ) : Nat → List Nat → List Nat
  | 0, _ => []
  | _, [] => []
  | fuel + 1, id :: stack => id :: walkStack tree fuel (tree.childrenOf id ++ stack)

/-- All nodes, each before its children. -/
def walk (tree : FileTree κ) : List Nat :=
  tree.walkStack tree.size [root]

/-- The node is no directory. -/
def isFile (tree : FileTree κ) (id : Nat) : Bool :=
  (tree.get? id).any fun entry => !entry.isDirectory

/-- The nodes that are no directories, in the order of the walk. -/
def files (tree : FileTree κ) : List Nat :=
  tree.walk.filter tree.isFile

/--
The names on the way from the root to a node, the root's own left out.
The way has at most so many steps as the first argument says.
-/
def namesTo (tree : FileTree κ) : Nat → Nat → List String
  | 0, _ => []
  | fuel + 1, id =>
      match tree.get? id with
      | none => []
      | some entry =>
          match entry.parent with
          | none => []
          | some parent => namesTo tree fuel parent ++ [entry.name]

/-- The way from the root to a node, with a separator before each name. -/
def fullPath (tree : FileTree κ) (id : Nat) (separator : Char) : String :=
  match tree.namesTo tree.size id with
  | [] => String.singleton separator
  | names => String.join (names.map fun name => String.singleton separator ++ name)

end

end FileTree
end Optical
