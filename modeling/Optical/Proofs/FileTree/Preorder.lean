import Mathlib.Data.List.Forall2
import Optical.FileTree.Basic

/-!
# Trees numbered in preorder

A tree that is made from a root and the forest below it numbers its nodes in the order of the
forest: each node comes before those below it, and those come before its next brother. So the place
of every entry can be computed from the forest alone, without a look at how the tree grew.

* siblings gives the numbers of the trees of a forest, entriesFrom gives all its entries;
* preorder is the tree with these entries below a root;
* ofForest_eq_preorder says that attaching the nodes one by one gives this tree.
-/

namespace Optical
namespace FileTree

section Numbers

variable {κ : Type}

/-- The numbers of the trees of a forest, given the number of its first label. -/
def siblings : Nat → Forest (Node κ) → List Nat
  | _, .nil => []
  | start, .cons _ below rest => start :: siblings (start + 1 + below.size) rest

/--
The entries of a forest, given the number of the node that it hangs from, that node's path, and the
number of the forest's first label.
-/
def entriesFrom (parent : Nat) (above : String) : Nat → Forest (Node κ) → List (Entry κ)
  | _, .nil => []
  | start, .cons node below rest =>
      let path := joinPath above node.name
      { node with parent := some parent, children := siblings (start + 1) below, path } ::
        (entriesFrom start path (start + 1) below ++
          entriesFrom parent above (start + 1 + below.size) rest)

/-- The tree of a root and the forest below it, its nodes numbered in the order of the forest. -/
def preorder (node : Node κ) (below : Forest (Node κ)) : FileTree κ :=
  let top : Entry κ :=
    { node with parent := none, children := siblings (root + 1) below, path := "/" }
  ⟨(top :: entriesFrom root "/" (root + 1) below).toArray⟩

/-- The entries of a forest tell of its labels in order. -/
theorem entriesFrom_map_toNode
    (parent : Nat)
    (above : String)
    (start : Nat)
    (forest : Forest (Node κ)) :
    (entriesFrom parent above start forest).map Entry.toNode = forest.labels := by
  induction forest generalizing parent above start with
  | nil => rfl
  | cons node below rest ihBelow ihRest =>
      simp only [entriesFrom, Forest.labels, List.map_cons, List.map_append, ihBelow, ihRest]

/-- The entries of a tree in preorder tell of its root and of the labels of its forest. -/
theorem preorder_map_toNode
    (node : Node κ)
    (below : Forest (Node κ)) :
    (preorder node below).entries.toList.map Entry.toNode = node :: below.labels := by
  simp only [preorder, List.map_cons, entriesFrom_map_toNode]

/-- The numbers of the nodes do not depend on what the nodes tell. -/
theorem siblings_map
    (f : Node κ → Node κ)
    (start : Nat)
    (forest : Forest (Node κ)) :
    siblings start (forest.map f) = siblings start forest := by
  induction forest generalizing start with
  | nil => rfl
  | cons node below rest _ ihRest =>
      simp only [Forest.map, siblings, Forest.size_map, ihRest]

/-- The entry has the same place in its tree and tells of another node. -/
structure Retold (f : Node κ → Node κ) (entry other : Entry κ) : Prop where
  node : other.toNode = f entry.toNode
  parent : other.parent = entry.parent
  children : other.children = entry.children

/-- So the entries of a forest with other nodes have the same places. -/
theorem entriesFrom_map
    (f : Node κ → Node κ)
    (parent : Nat)
    (above otherAbove : String)
    (start : Nat)
    (forest : Forest (Node κ)) :
    List.Forall₂ (Retold f) (entriesFrom parent above start forest)
      (entriesFrom parent otherAbove start (forest.map f)) := by
  induction forest generalizing parent above otherAbove start with
  | nil => exact .nil
  | cons node below rest ihBelow ihRest =>
      simp only [Forest.map, entriesFrom, Forest.size_map, siblings_map]
      exact .cons ⟨rfl, rfl, rfl⟩ (List.rel_append (ihBelow _ _ _ _) (ihRest _ _ _ _))

end Numbers

section Growth

variable {κ : Type}

/-- An entry with more children. -/
def adopt (ids : List Nat) (entry : Entry κ) : Entry κ :=
  { entry with children := entry.children ++ ids }

theorem adopt_adopt
    (first second : List Nat) :
    adopt (κ := κ) second ∘ adopt first = adopt (first ++ second) := by
  funext entry
  simp only [Function.comp_apply, adopt, List.append_assoc]

theorem adopt_nil : adopt (κ := κ) [] = id := by
  funext entry
  simp only [adopt, List.append_nil, id]

theorem modify_append_of_lt
    {entries : List (Entry κ)}
    {index : Nat}
    (h : index < entries.length)
    (f : Entry κ → Entry κ)
    (later : List (Entry κ)) :
    (entries ++ later).modify index f = entries.modify index f ++ later := by
  induction entries generalizing index with
  | nil => cases h
  | cons entry entries ih =>
      cases index with
      | zero => rfl
      | succ index => exact congrArg (entry :: ·) (ih (Nat.lt_of_succ_lt_succ h))

theorem modify_append_length
    (entries : List (Entry κ))
    (f : Entry κ → Entry κ)
    (entry : Entry κ)
    (later : List (Entry κ)) :
    (entries ++ entry :: later).modify entries.length f = entries ++ f entry :: later := by
  induction entries with
  | nil => rfl
  | cons first entries ih => exact congrArg (first :: ·) ih

theorem toList_attach
    (tree : FileTree κ)
    (parent : Nat)
    (node : Node κ) :
    (tree.attach parent node).entries.toList =
      tree.entries.toList.modify parent (adopt [tree.size]) ++
        [{ node with parent := some parent, children := [],
                     path := joinPath (tree.pathOf parent) node.name }] := by
  simp only [attach, Array.toList_push, Array.toList_modify]
  rfl

theorem pathOf_length
    {tree : FileTree κ}
    {entries later : List (Entry κ)}
    {entry : Entry κ}
    (h : tree.entries.toList = entries ++ entry :: later) :
    tree.pathOf entries.length = entry.path := by
  have hentry : tree.get? entries.length = some entry := by
    rw [get?, ← Array.getElem?_toList, h, List.getElem?_append_right (Nat.le_refl _)]
    simp
  rw [pathOf, hentry]
  rfl

/-- A node keeps its path when it gets children. -/
theorem pathOf_adopted
    {tree grown : FileTree κ}
    {id : Nat}
    (h : id < tree.size)
    {ids : List Nat}
    {later : List (Entry κ)}
    (hgrown : grown.entries.toList = tree.entries.toList.modify id (adopt ids) ++ later) :
    grown.pathOf id = tree.pathOf id := by
  have hentry : grown.get? id = (tree.get? id).map (adopt ids) := by
    have hinside : id < (tree.entries.toList.modify id (adopt ids)).length := by
      simpa [size] using h
    rw [get?, ← Array.getElem?_toList, hgrown, List.getElem?_append_left hinside,
      List.getElem?_modify_eq, Array.getElem?_toList]
    rfl
  rw [pathOf, pathOf, hentry]
  cases tree.get? id <;> rfl

/-- Grafting a forest gives its node the trees as children and adds the entries of the forest. -/
theorem toList_graft
    (tree : FileTree κ)
    {parent : Nat}
    (h : parent < tree.size)
    (forest : Forest (Node κ)) :
    (tree.graft parent forest).entries.toList =
      tree.entries.toList.modify parent (adopt (siblings tree.size forest)) ++
        entriesFrom parent (tree.pathOf parent) tree.size forest := by
  induction forest generalizing tree parent with
  | nil =>
      simp only [graft, siblings, entriesFrom, adopt_nil, List.modify_id, List.append_nil]
  | cons node below rest ihBelow ihRest =>
      generalize hlinked : tree.entries.toList.modify parent (adopt [tree.size]) = linked
      have hlength : linked.length = tree.size := by
        rw [← hlinked, List.length_modify]
        rfl
      -- The node itself, then the forest below it, then its brothers.
      have hnode := toList_attach tree parent node
      rw [hlinked] at hnode
      have hpath := pathOf_length hnode
      have hnew : tree.size < (tree.attach parent node).size := by
        rw [size_attach]
        omega
      have hbelow := ihBelow (tree.attach parent node) hnew
      rw [hlength] at hpath
      rw [hnode, hpath, size_attach, ← hlength, modify_append_length, hlength,
        List.append_assoc] at hbelow
      have hkept : ((tree.attach parent node).graft tree.size below).pathOf parent =
          tree.pathOf parent := by
        rw [← hlinked] at hbelow
        exact pathOf_adopted h hbelow
      have hold : parent < ((tree.attach parent node).graft tree.size below).size := by
        rw [size_graft, size_attach]
        omega
      have hrest := ihRest ((tree.attach parent node).graft tree.size below) hold
      rw [hbelow, hkept, size_graft, size_attach, modify_append_of_lt (by omega), ← hlinked,
        List.modify_modify_eq, adopt_adopt] at hrest
      simp only [graft, siblings, entriesFrom]
      rw [hrest]
      simp [adopt]

/-- Attaching the labels of a forest one by one numbers them in preorder. -/
theorem ofForest_eq_preorder
    (node : Node κ)
    (below : Forest (Node κ)) :
    ofForest node below = preorder node below := by
  have hentries :
      (ofForest node below).entries.toList = (preorder node below).entries.toList := by
    have hroot : root < (ofRoot node).size := Nat.zero_lt_one
    rw [ofForest, toList_graft (ofRoot node) hroot below]
    rfl
  have harray := Array.toList_inj.mp hentries
  cases hleft : ofForest node below
  rw [hleft] at harray
  exact congrArg FileTree.mk harray

/-- The root and every label of a forest are found in their tree. -/
theorem exists_get?_ofForest
    {node label : Node κ}
    {below : Forest (Node κ)}
    (h : label ∈ node :: below.labels) :
    ∃ id entry, (ofForest node below).get? id = some entry ∧ entry.toNode = label := by
  rw [← preorder_map_toNode, ← ofForest_eq_preorder] at h
  obtain ⟨entry, hentry, rfl⟩ := List.mem_map.mp h
  obtain ⟨id, hid⟩ := List.mem_iff_getElem?.mp hentry
  rw [Array.getElem?_toList] at hid
  exact ⟨id, entry, hid, rfl⟩

/-- What holds of the root and of all labels of a forest holds of all nodes of their tree. -/
theorem forall_of_ofForest
    (P : Node κ → Prop)
    {node : Node κ}
    {below : Forest (Node κ)}
    (hnode : P node)
    (hbelow : ∀ label ∈ below.labels, P label)
    {id : Nat}
    {entry : Entry κ}
    (h : (ofForest node below).get? id = some entry) :
    P entry.toNode := by
  have hentry : (preorder node below).entries.toList[id]? = some entry := by
    rw [← ofForest_eq_preorder, Array.getElem?_toList]
    exact h
  have hlabel : entry.toNode ∈ node :: below.labels := by
    rw [← preorder_map_toNode]
    exact List.mem_map_of_mem (List.mem_of_getElem? hentry)
  rcases List.mem_cons.mp hlabel with hroot | hlater
  · rw [hroot]
    exact hnode
  · exact hbelow _ hlater

/-- The entries below the root of a tree tell of the labels of its forest. -/
theorem map_toNode_tail_ofForest
    (node : Node κ)
    (below : Forest (Node κ)) :
    (ofForest node below).entries.toList.tail.map Entry.toNode = below.labels := by
  rw [ofForest_eq_preorder, List.map_tail, preorder_map_toNode, List.tail_cons]

/--
Trees of one root with forests of the same shape have the same root entry, and below it their
entries tell in order of the nodes of the one forest and of the other.
-/
theorem exists_entries_ofForest_map
    (f : Node κ → Node κ)
    (node : Node κ)
    (below : Forest (Node κ)) :
    ∃ top later others,
      top.toNode = node ∧
      (ofForest node below).entries.toList = top :: later ∧
      (ofForest node (below.map f)).entries.toList = top :: others ∧
      later.map Entry.toNode = below.labels ∧
      List.Forall₂ (Retold f) later others := by
  rw [ofForest_eq_preorder, ofForest_eq_preorder]
  refine ⟨_, _, _, rfl, rfl, ?_, entriesFrom_map_toNode _ _ _ _, entriesFrom_map f root "/" "/" _ _⟩
  simp only [preorder, siblings_map]

end Growth

end FileTree
end Optical
