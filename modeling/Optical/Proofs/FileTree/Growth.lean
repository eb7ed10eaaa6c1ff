import Mathlib.Data.List.Nodup
import Optical.Proofs.FileTree.Walk

/-!
# Trees grown node by node

Nodes may be attached to any node that is there, in any order, so nothing about a tree can be read
from the order of its numbers except that a node comes after its parent. This module finds what a tree
keeps through every attachment, and reads its walk from that.

* attachAll attaches nodes one after another, and Attachable says that each finds its parent there;
* Linked is what is kept: parents, children and paths fit together;
* Linked.count_of_visits counts how often a visit comes to a node by how often it comes to its parent;
* grow_linked_and_walked puts the links and the walk of a grown tree together.
-/

namespace Optical
namespace FileTree

section Attachments

variable {κ : Type}

/-- A node to be attached, with the number of the node that it is attached to. -/
structure Attachment (κ : Type) where
  parent : Nat
  node : Node κ
deriving DecidableEq, Repr

/-- The tree with nodes attached one after another. -/
def attachAll (tree : FileTree κ) (attachments : List (Attachment κ)) : FileTree κ :=
  attachments.foldl (fun tree attachment => tree.attach attachment.parent attachment.node) tree

/-- Each node is attached to one that is there, given how many are there before the first. -/
def Attachable : Nat → List (Attachment κ) → Prop
  | _, [] => True
  | size, attachment :: later => attachment.parent < size ∧ Attachable (size + 1) later

/-- The node that a node hangs from. -/
def parentOf? (tree : FileTree κ) (id : Nat) : Option Nat :=
  (tree.get? id).elim none (·.parent)

/-- The name of a node. -/
def nameOf (tree : FileTree κ) (id : Nat) : String :=
  (tree.get? id).elim "" (·.name)

theorem lt_size_of_parentOf?
    {tree : FileTree κ}
    {id parent : Nat}
    (h : tree.parentOf? id = some parent) :
    id < tree.size := by
  by_contra houtside
  have hnone : tree.get? id = none := Array.getElem?_eq_none (Nat.not_lt.mp houtside)
  rw [parentOf?, hnone] at h
  cases h

end Attachments

section Step

variable {κ : Type}
variable (tree : FileTree κ)
variable (parent : Nat)
variable (node : Node κ)

/-- The new node is found behind the others. -/
theorem get?_attach_size :
    (tree.attach parent node).get? tree.size =
      some { node with
        parent := some parent, children := [], path := joinPath (tree.pathOf parent) node.name } := by
  have hlength : (tree.entries.toList.modify parent (adopt [tree.size])).length = tree.size := by
    rw [List.length_modify]
    rfl
  rw [get?, ← Array.getElem?_toList, toList_attach,
    List.getElem?_append_right (Nat.le_of_eq hlength), hlength, Nat.sub_self]
  rfl

variable {id : Nat}

/-- Another node stays as it was, and the parent of the new node gets one more child. -/
theorem get?_attach_of_ne
    (h : id ≠ tree.size) :
    (tree.attach parent node).get? id =
      (tree.get? id).map fun entry => if parent = id then adopt [tree.size] entry else entry := by
  have hlength : (tree.entries.toList.modify parent (adopt [tree.size])).length = tree.size := by
    rw [List.length_modify]
    rfl
  rw [get?, get?, ← Array.getElem?_toList, ← Array.getElem?_toList, toList_attach]
  by_cases hinside : id < tree.size
  · rw [List.getElem?_append_left (by omega), List.getElem?_modify]
    rfl
  · rw [List.getElem?_eq_none (by rw [List.length_append, hlength, List.length_singleton]; omega),
      List.getElem?_eq_none (Nat.not_lt.mp hinside), Option.map_none]

/-- What is read of another node is as it was, unless it depends on the children. -/
theorem elim_get?_attach_of_ne
    {β : Type}
    (missing : β)
    (f : Entry κ → β)
    (hkept : ∀ ids entry, f (adopt ids entry) = f entry)
    (h : id ≠ tree.size) :
    ((tree.attach parent node).get? id).elim missing f = (tree.get? id).elim missing f := by
  rw [get?_attach_of_ne tree parent node h]
  cases tree.get? id with
  | none => rfl
  | some entry =>
      rw [Option.map_some]
      split
      · exact hkept [tree.size] entry
      · rfl

theorem parentOf?_attach :
    (tree.attach parent node).parentOf? id =
      if id = tree.size then some parent else tree.parentOf? id := by
  split
  · next hnew =>
      rw [hnew, parentOf?, get?_attach_size]
      rfl
  · next hold => exact elim_get?_attach_of_ne tree parent node _ _ (fun _ _ => rfl) hold

theorem nameOf_attach :
    (tree.attach parent node).nameOf id =
      if id = tree.size then node.name else tree.nameOf id := by
  split
  · next hnew =>
      rw [hnew, nameOf, get?_attach_size]
      rfl
  · next hold => exact elim_get?_attach_of_ne tree parent node _ _ (fun _ _ => rfl) hold

theorem pathOf_attach :
    (tree.attach parent node).pathOf id =
      if id = tree.size then joinPath (tree.pathOf parent) node.name else tree.pathOf id := by
  split
  · next hnew =>
      rw [hnew, pathOf, get?_attach_size]
      rfl
  · next hold => exact elim_get?_attach_of_ne tree parent node _ _ (fun _ _ => rfl) hold

/-- The new node is the last child of its parent, and the other children stay. -/
theorem childrenOf_attach
    (h : parent < tree.size) :
    (tree.attach parent node).childrenOf id =
      tree.childrenOf id ++ if parent = id then [tree.size] else [] := by
  by_cases hnew : id = tree.size
  · have hnone : tree.get? tree.size = none := Array.getElem?_eq_none (Nat.le_refl _)
    rw [hnew, childrenOf, childrenOf, get?_attach_size, hnone, if_neg (Nat.ne_of_lt h)]
    rfl
  · rw [childrenOf, childrenOf, get?_attach_of_ne tree parent node hnew]
    cases hentry : tree.get? id with
    | none =>
        have houtside : tree.size ≤ id := Array.getElem?_eq_none_iff.mp hentry
        rw [if_neg (by omega)]
        rfl
    | some entry =>
        rw [Option.map_some]
        split
        · rfl
        · exact (List.append_nil _).symm

end Step

section Links

variable {κ : Type}

/--
The nodes of a tree fit together. A node other than the root hangs from one with a smaller number,
the children of a node are the nodes that hang from it, in the order of their numbers, and the path
of a node goes on from the path of its parent.
-/
structure Linked (tree : FileTree κ) : Prop where
  root_lt : root < tree.size
  parent_root : tree.parentOf? root = none
  parent_lt : ∀ id < tree.size, id ≠ root → ∃ parent < id, tree.parentOf? id = some parent
  children : ∀ id, tree.childrenOf id =
    (List.range tree.size).filter fun child => tree.parentOf? child = some id
  path_root : tree.pathOf root = "/"
  path : ∀ id parent, tree.parentOf? id = some parent →
    tree.pathOf id = joinPath (tree.pathOf parent) (tree.nameOf id)

theorem linked_ofRoot
    (node : Node κ) :
    Linked (ofRoot node) where
  root_lt := Nat.zero_lt_one
  parent_root := rfl
  parent_lt id h hother := absurd (Nat.lt_one_iff.mp h) hother
  children id := by
    cases id with
    | zero => rfl
    | succ id => rfl
  path_root := rfl
  path id parent h := by
    have hroot : id = root := Nat.lt_one_iff.mp (lt_size_of_parentOf? h)
    rw [hroot] at h
    cases h

theorem Linked.parent_lt_of_parentOf?
    {tree : FileTree κ}
    (h : Linked tree)
    {id parent : Nat}
    (hparent : tree.parentOf? id = some parent) :
    parent < id := by
  have hother : id ≠ root := by
    rintro rfl
    rw [h.parent_root] at hparent
    cases hparent
  obtain ⟨found, hlt, hfound⟩ := h.parent_lt id (lt_size_of_parentOf? hparent) hother
  rw [hparent] at hfound
  cases hfound
  exact hlt

/-- The links hold as well when one more node is attached. -/
theorem Linked.attach
    {tree : FileTree κ}
    (h : Linked tree)
    {parent : Nat}
    (hparent : parent < tree.size)
    (node : Node κ) :
    Linked (tree.attach parent node) where
  root_lt := by
    have hroot := h.root_lt
    rw [size_attach]
    omega
  parent_root := by
    rw [parentOf?_attach, if_neg (Nat.ne_of_lt h.root_lt), h.parent_root]
  parent_lt id hid hother := by
    rw [size_attach] at hid
    rw [parentOf?_attach]
    split
    · next hnew => exact ⟨parent, hnew ▸ hparent, rfl⟩
    · next hold => exact h.parent_lt id (by omega) hother
  children id := by
    have hold : ∀ child ∈ List.range tree.size,
        decide ((tree.attach parent node).parentOf? child = some id) =
          decide (tree.parentOf? child = some id) := by
      intro child hchild
      rw [parentOf?_attach, if_neg (Nat.ne_of_lt (List.mem_range.mp hchild))]
    have hnew : (tree.attach parent node).parentOf? tree.size = some parent := by
      rw [parentOf?_attach, if_pos rfl]
    rw [childrenOf_attach tree parent node hparent, h.children, size_attach, List.range_succ,
      List.filter_append, List.filter_congr hold, List.filter_singleton, hnew]
    simp only [Option.some.injEq, Bool.cond_decide]
  path_root := by
    rw [pathOf_attach, if_neg (Nat.ne_of_lt h.root_lt), h.path_root]
  path id above habove := by
    rw [parentOf?_attach] at habove
    rw [pathOf_attach, pathOf_attach, nameOf_attach]
    split at habove
    · next hnew =>
        cases habove
        rw [if_pos hnew, if_pos hnew, if_neg (Nat.ne_of_lt hparent)]
    · next hold =>
        have hid := lt_size_of_parentOf? habove
        have hlt := h.parent_lt_of_parentOf? habove
        rw [if_neg hold, if_neg hold, if_neg (by omega), h.path id above habove]

/-- The links of a tree hold through any attachments. -/
theorem Linked.attachAll
    {tree : FileTree κ}
    (h : Linked tree)
    {attachments : List (Attachment κ)}
    (hattachable : Attachable tree.size attachments) :
    Linked (tree.attachAll attachments) := by
  induction attachments generalizing tree with
  | nil => exact h
  | cons attachment later ih =>
      have hnext : Attachable (tree.attach attachment.parent attachment.node).size later := by
        rw [size_attach]
        exact hattachable.2
      exact ih (h.attach hattachable.1 attachment.node) hnext

theorem size_attachAll
    (tree : FileTree κ)
    (attachments : List (Attachment κ)) :
    (tree.attachAll attachments).size = tree.size + attachments.length := by
  induction attachments generalizing tree with
  | nil => rfl
  | cons attachment later ih =>
      have hlater := ih (tree.attach attachment.parent attachment.node)
      rw [size_attach] at hlater
      rw [List.length_cons, ← Nat.add_assoc, Nat.add_right_comm]
      exact hlater

/-- A node that is there keeps its parent. -/
theorem parentOf?_attachAll_of_lt
    {tree : FileTree κ}
    {id : Nat}
    (h : id < tree.size)
    (attachments : List (Attachment κ)) :
    (tree.attachAll attachments).parentOf? id = tree.parentOf? id := by
  induction attachments generalizing tree with
  | nil => rfl
  | cons attachment later ih =>
      have hgrown : id < (tree.attach attachment.parent attachment.node).size := by
        rw [size_attach]
        omega
      have hlater := ih hgrown
      rw [parentOf?_attach, if_neg (Nat.ne_of_lt h)] at hlater
      exact hlater

/-- Nodes are numbered in the order of their attachment, and each gets the parent it was told. -/
theorem parentOf?_attachAll
    (tree : FileTree κ)
    {attachments : List (Attachment κ)}
    {index : Nat}
    {attachment : Attachment κ}
    (h : attachments[index]? = some attachment) :
    (tree.attachAll attachments).parentOf? (tree.size + index) = some attachment.parent := by
  induction attachments generalizing tree index with
  | nil => cases h
  | cons first later ih =>
      have hnew : tree.size < (tree.attach first.parent first.node).size := by
        rw [size_attach]
        omega
      cases index with
      | zero =>
          cases h
          have hkept := parentOf?_attachAll_of_lt hnew later
          rw [parentOf?_attach, if_pos rfl] at hkept
          exact hkept
      | succ index =>
          have hlater := ih (tree.attach first.parent first.node) h
          rw [size_attach, Nat.add_right_comm] at hlater
          exact hlater

end Links

section Traversal

variable {κ : Type}
variable {tree : FileTree κ}

/-- A node is a child of its parent once, and of no other node. -/
theorem Linked.count_childrenOf
    (h : Linked tree)
    (id child : Nat) :
    (tree.childrenOf id).count child = if tree.parentOf? child = some id then 1 else 0 := by
  have hmem : child ∈ tree.childrenOf id ↔ tree.parentOf? child = some id := by
    rw [h.children, List.mem_filter, List.mem_range, decide_eq_true_eq]
    exact ⟨And.right, fun hparent => ⟨lt_size_of_parentOf? hparent, hparent⟩⟩
  have hnodup : (tree.childrenOf id).Nodup := by
    rw [h.children]
    exact List.nodup_range.filter _
  rw [hnodup.count, if_congr hmem rfl rfl]

/-- A visit comes to a node where it begins with it, and wherever it comes to its parent. -/
theorem Linked.count_of_visits
    (h : Linked tree)
    {ids order : List Nat}
    (hvisits : Visits tree ids order)
    (id : Nat) :
    order.count id = ids.count id + (tree.parentOf? id).elim 0 order.count := by
  induction hvisits with
  | ended =>
      cases tree.parentOf? id with
      | none => rfl
      | some parent => rfl
  | @node first ids below later _ _ ihInside ihOthers =>
      rw [List.count_cons, List.count_append, ihInside, ihOthers, h.count_childrenOf,
        List.count_cons]
      cases tree.parentOf? id with
      | none =>
          simp only [Option.elim_none, reduceCtorEq, if_false]
          omega
      | some parent =>
          simp only [Option.elim_some, Option.some.injEq, List.count_cons, List.count_append,
            beq_iff_eq, eq_comm (a := parent)]
          omega

/-- The nodes below any node can be visited, since numbers grow on every way down. -/
theorem Linked.exists_visits
    (h : Linked tree)
    (id : Nat) :
    ∃ below, Visits tree (tree.childrenOf id) below := by
  induction hleft : tree.size - id using Nat.strongRecOn generalizing id with
  | _ left ih =>
      have hchildren : ∀ child ∈ tree.childrenOf id,
          ∃ below, Visits tree (tree.childrenOf child) below := by
        intro child hchild
        rw [h.children, List.mem_filter, List.mem_range, decide_eq_true_eq] at hchild
        have hlt := h.parent_lt_of_parentOf? hchild.2
        exact ih (tree.size - child) (by omega) child rfl
      generalize tree.childrenOf id = children at hchildren
      induction children with
      | nil => exact ⟨[], .ended⟩
      | cons child later ihLater =>
          rw [List.forall_mem_cons] at hchildren
          obtain ⟨inside, hinside⟩ := hchildren.1
          obtain ⟨others, hothers⟩ := ihLater hchildren.2
          exact ⟨_, .node hinside hothers⟩

/-- A visit of the root comes to every node once. -/
theorem Linked.count_of_visits_root
    (h : Linked tree)
    {order : List Nat}
    (hvisits : Visits tree [root] order)
    (id : Nat) :
    order.count id = if id < tree.size then 1 else 0 := by
  have hcount := h.count_of_visits hvisits
  have hbelow : ∀ other, other ≠ root → [root].count other = 0 := fun other hother =>
    List.count_eq_zero.mpr (by rwa [List.mem_singleton])
  split
  · next hinside =>
      induction id using Nat.strongRecOn with
      | _ id ih =>
          by_cases hroot : id = root
          · rw [hcount, hroot, h.parent_root]
            rfl
          · obtain ⟨parent, hlt, hparent⟩ := h.parent_lt id hinside hroot
            have habove : order.count parent = 1 := ih parent hlt (by omega)
            rw [hcount, hbelow id hroot, hparent, Option.elim_some, habove]
  · next houtside =>
      have hroot : id ≠ root := fun hroot => houtside (hroot ▸ h.root_lt)
      have hnone : tree.parentOf? id = none := by
        rw [parentOf?, get?, Array.getElem?_eq_none (Nat.not_lt.mp houtside), Option.elim_none]
      rw [hcount, hbelow id hroot, hnone, Option.elim_none]

/--
The walk of a tree is a visit of its root. It begins there and comes to every node once, and the files
are the nodes on it that are no directories.
-/
structure Walked (tree : FileTree κ) : Prop where
  visits : Visits tree [root] tree.walk
  starts : tree.walk.head? = some root
  once : tree.walk.Perm (List.range tree.size)
  length : tree.walk.length = tree.size
  files_sublist : tree.files.Sublist tree.walk
  files_once : ∀ id, tree.files.count id = if tree.isFile id then 1 else 0

theorem Linked.walked
    (h : Linked tree) :
    Walked tree := by
  obtain ⟨below, hbelow⟩ := h.exists_visits root
  have hvisits : Visits tree [root] (root :: (below ++ [])) := .node hbelow .ended
  have hcount := h.count_of_visits_root hvisits
  have hperm : (root :: (below ++ [])).Perm (List.range tree.size) := by
    rw [List.perm_iff_count]
    intro id
    rw [hcount, List.count_range]
  have hlength : (root :: (below ++ [])).length = tree.size := by
    rw [hperm.length_eq, List.length_range]
  have hwalk := walk_of_visits hvisits hlength
  refine ⟨hwalk ▸ hvisits, by rw [hwalk]; rfl, hwalk ▸ hperm, hwalk ▸ hlength,
    List.filter_sublist, fun id => ?_⟩
  split
  · next hfile =>
      have hinside : id < tree.size := by
        by_contra houtside
        rw [isFile, get?, Array.getElem?_eq_none (Nat.not_lt.mp houtside)] at hfile
        cases hfile
      rw [files, List.count_filter hfile, hwalk, hcount, if_pos hinside]
  · next hother =>
      rw [files, List.count_eq_zero, List.mem_filter]
      exact fun hmem => hother hmem.2

end Traversal

section Grown

variable {κ : Type}

/-- The tree of a root with nodes attached one after another. -/
def grow (node : Node κ) (attachments : List (Attachment κ)) : FileTree κ :=
  (ofRoot node).attachAll attachments

theorem linked_grow
    (node : Node κ)
    {attachments : List (Attachment κ)}
    (h : Attachable 1 attachments) :
    Linked (grow node attachments) :=
  (linked_ofRoot node).attachAll h

/-- Two directories in the root; the first of them gets its file after the second is there. -/
def smallAttachments : List (Attachment Unit) :=
  [⟨0, ⟨"A", 0, 0, true, ()⟩⟩, ⟨0, ⟨"B", 0, 0, true, ()⟩⟩, ⟨1, ⟨"C", 5, 7, false, ()⟩⟩]

theorem attachable_small : Attachable 1 smallAttachments := by
  refine ⟨?_, ?_, ?_, trivial⟩ <;> decide

end Grown

end FileTree
end Optical
