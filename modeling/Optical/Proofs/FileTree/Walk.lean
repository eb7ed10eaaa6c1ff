import Mathlib.Data.List.Range
import Optical.Proofs.FileTree.Preorder

/-!
# The walk of a tree

A walk goes through a tree with a stack of nodes still to be visited. What it lists is told here
without a stack: a visit of some nodes lists each of them, followed by a visit of its children.

In a tree that is made from a root and the forest below it, the numbers of the nodes were given out in
the order in which a walk comes to them, so the walk lists the numbers from zero up.

* Visits says what a visit of nodes lists, and walkStack_of_visits that a walk lists just this;
* walk_ofForest is the walk of a tree made from a forest;
* map_get?_files_of_walk lists the files of a tree that is walked in this order.
-/

namespace Optical
namespace FileTree

section Visits

variable {κ : Type}

/-- A visit of nodes lists each of them, followed by a visit of its children. -/
inductive Visits (tree : FileTree κ) : List Nat → List Nat → Prop where
  | ended : Visits tree [] []
  | node {id : Nat} {ids below later : List Nat}
      (inside : Visits tree (tree.childrenOf id) below)
      (others : Visits tree ids later) :
      Visits tree (id :: ids) (id :: (below ++ later))

variable {tree : FileTree κ}

/-- Nodes on top of the stack are visited first; the walk then goes on with the rest of the stack. -/
theorem walkStack_of_visits
    {ids order : List Nat}
    (h : Visits tree ids order)
    (fuel : Nat)
    (stack : List Nat) :
    tree.walkStack (order.length + fuel) (ids ++ stack) = order ++ tree.walkStack fuel stack := by
  induction h generalizing fuel stack with
  | ended => rw [List.length_nil, Nat.zero_add, List.nil_append, List.nil_append]
  | @node id ids below later _ _ ihInside ihOthers =>
      have hfuel : (id :: (below ++ later)).length + fuel =
          below.length + (later.length + fuel) + 1 := by
        rw [List.length_cons, List.length_append]
        omega
      rw [hfuel, List.cons_append, walkStack, ihInside, ihOthers, List.cons_append,
        List.append_assoc]

/-- A walk with fuel for a whole visit of the root lists this visit. -/
theorem walk_of_visits
    {order : List Nat}
    (h : Visits tree [root] order)
    (hsize : order.length = tree.size) :
    tree.walk = order := by
  have hwalk := walkStack_of_visits h 0 []
  rw [Nat.add_zero, List.append_nil, hsize] at hwalk
  rw [walk, hwalk, walkStack, List.append_nil]

end Visits

section Numbered

variable {κ : Type}

/--
A visit of the trees of a forest lists their labels by number. The forest is any part of the tree,
given by the entries around it.
-/
theorem visits_siblings
    {tree : FileTree κ}
    {parent start : Nat}
    {above : String}
    {forest : Forest (Node κ)}
    {before after : List (Entry κ)}
    (hentries : tree.entries.toList = before ++ (entriesFrom parent above start forest ++ after))
    (hbefore : before.length = start) :
    Visits tree (siblings start forest) (List.range' start forest.size) := by
  induction forest generalizing parent start above before after with
  | nil => exact .ended
  | cons node below rest ihBelow ihRest =>
      simp only [entriesFrom, List.cons_append, List.append_assoc] at hentries
      have hchildren : tree.childrenOf start = siblings (start + 1) below := by
        rw [childrenOf, get?, ← Array.getElem?_toList, hentries, ← hbefore,
          List.getElem?_append_right (Nat.le_refl _), Nat.sub_self]
        rfl
      rw [List.append_cons] at hentries
      have hlength : (entriesFrom start (joinPath above node.name) (start + 1) below).length =
          below.size := by
        rw [← List.length_map Entry.toNode, entriesFrom_map_toNode, Forest.size]
      -- The node itself, then the forest below it, then its brothers.
      have hbelow := ihBelow hentries
        (by rw [List.length_append, List.length_singleton, hbefore])
      have hrest := ihRest (hentries.trans (List.append_assoc _ _ _).symm)
        (by rw [List.length_append, List.length_append, List.length_singleton, hbefore, hlength])
      have hsize : (Forest.cons node below rest).size = below.size + rest.size + 1 := by
        simp only [Forest.size, Forest.labels, List.length_cons, List.length_append]
      rw [hsize, siblings, List.range'_succ, ← List.range'_append_1]
      exact .node (hchildren ▸ hbelow) hrest

/-- The walk of a tree made from a root and a forest lists the nodes as they are numbered. -/
theorem walk_ofForest
    (node : Node κ)
    (below : Forest (Node κ)) :
    (ofForest node below).walk = List.range (ofForest node below).size := by
  have hsize : (ofForest node below).size = below.size + 1 := by
    rw [ofForest, size_graft, size_ofRoot, Nat.add_comm]
  have hchildren : (ofForest node below).childrenOf root = siblings (root + 1) below := by
    rw [ofForest_eq_preorder]
    rfl
  obtain ⟨top, hentries⟩ : ∃ top, (ofForest node below).entries.toList =
      [top] ++ (entriesFrom root "/" (root + 1) below ++ []) := by
    rw [ofForest_eq_preorder, List.append_nil]
    exact ⟨_, rfl⟩
  have hbelow := visits_siblings hentries rfl
  have hvisits : Visits (ofForest node below) [root] (List.range (below.size + 1)) := by
    rw [List.range_eq_range', List.range'_succ, ← List.append_nil (List.range' _ _)]
    exact .node (hchildren ▸ hbelow) .ended
  rw [hsize]
  exact walk_of_visits hvisits (by rw [List.length_range, hsize])

theorem map_getElem?_range
    {α : Type}
    (elements : List α) :
    (List.range elements.length).map (elements[·]?) = elements.map some := by
  apply List.ext_getElem?
  intro index
  simp only [List.getElem?_map]
  by_cases h : index < elements.length
  · rw [List.getElem?_range h, List.getElem?_eq_getElem h, Option.map_some, Option.map_some,
      List.getElem?_eq_getElem h]
  · rw [List.getElem?_eq_none (by rw [List.length_range]; omega),
      List.getElem?_eq_none (Nat.not_lt.mp h)]
    rfl

/-- A tree whose walk goes by the numbers lists its entries that are no directories in order. -/
theorem map_get?_files_of_walk
    {tree : FileTree κ}
    (h : tree.walk = List.range tree.size) :
    tree.files.map tree.get? =
      (tree.entries.toList.filter fun entry => !entry.isDirectory).map some := by
  have hget : tree.get? = (tree.entries.toList[·]?) := by
    funext id
    rw [get?, Array.getElem?_toList]
  have hread : (List.range tree.size).map tree.get? = tree.entries.toList.map some := by
    rw [hget, ← map_getElem?_range, Array.length_toList, size]
  have hfile : tree.isFile =
      (fun found : Option (Entry κ) => found.any fun entry => !entry.isDirectory) ∘ tree.get? := rfl
  rw [files, h, hfile, ← List.filter_map, hread, List.filter_map]
  rfl

/-- So it has as many files as entries that are no directories. -/
theorem length_files_of_walk
    {tree : FileTree κ}
    (h : tree.walk = List.range tree.size) :
    tree.files.length = (tree.entries.toList.filter fun entry => !entry.isDirectory).length := by
  have hlengths := congrArg List.length (map_get?_files_of_walk h)
  rwa [List.length_map, List.length_map] at hlengths

end Numbered

end FileTree
end Optical
