import Mathlib.Logic.Relation
import Optical.Proofs.FileTree.Growth

/-!
# Two ways to the path of a node

A node keeps the path that was joined together when it was attached. The path can also be spelled at
any time from the names on the way from the root. Both put a slash before each name, but a path that is
joined to that of the root does so without a second slash, and a nameless child of the root has the
path of the root. So the slash of its empty name is lost on all paths below it, and on no others.

* foldl_joinPath_eq_spell_iff compares the two for a list of names;
* Linked.pathOf_eq_foldl and fullPath_eq_spell read both off the names on the way;
* fullPath_eq_pathOf_iff says for which nodes of a grown tree they agree.
-/

namespace Optical
namespace FileTree

section Names

/-- Names with a slash before each. -/
def spell (names : List String) : String :=
  String.join (names.map ("/" ++ ·))

theorem spell_cons
    (name : String)
    (later : List String) :
    spell (name :: later) = "/" ++ name ++ spell later := by
  rw [spell, List.map_cons, String.join_cons, spell]

/-- A path longer than that of the root is continued by all names that follow. -/
theorem foldl_joinPath_of_long
    {path : String}
    (h : 2 ≤ path.length)
    (names : List String) :
    names.foldl joinPath path = path ++ spell names := by
  induction names generalizing path with
  | nil => exact String.append_empty.symm
  | cons name later ih =>
      have hroot : path ≠ "/" := by
        rintro rfl
        exact absurd h (by decide)
      have hlong : 2 ≤ (path ++ "/" ++ name).length := by
        rw [String.length_append, String.length_append]
        omega
      rw [List.foldl_cons, joinPath, if_neg hroot, ih hlong, spell_cons]
      simp only [String.append_assoc]

theorem length_joinPath_le
    (path name : String) :
    (joinPath path name).length ≤ path.length + (1 + name.length) := by
  rw [joinPath]
  split
  · rw [String.length_append]
    exact Nat.le_add_left _ _
  · rw [String.length_append, String.length_append]
    exact Nat.le_of_eq (Nat.add_assoc _ _ _)

/-- Joining names to a path adds no more than the names with their slashes. -/
theorem length_foldl_joinPath_le
    (path : String)
    (names : List String) :
    (names.foldl joinPath path).length ≤ path.length + (spell names).length := by
  induction names generalizing path with
  | nil => exact Nat.le_add_right _ _
  | cons name later ih =>
      have hstep := length_joinPath_le path name
      have hlater := ih (joinPath path name)
      have hslash : "/".length = 1 := rfl
      rw [List.foldl_cons, spell_cons, String.length_append, String.length_append, hslash]
      omega

/-- Joining names to the path of the root spells them, unless the first is empty and not the last. -/
theorem foldl_joinPath_eq_spell_iff
    (name : String)
    (later : List String) :
    (name :: later).foldl joinPath "/" = spell (name :: later) ↔ name ≠ "" ∨ later = [] := by
  rw [List.foldl_cons, joinPath, if_pos rfl, spell_cons]
  by_cases hname : name = ""
  · rw [hname, String.append_empty]
    cases later with
    | nil => exact ⟨fun _ => Or.inr rfl, fun _ => rfl⟩
    | cons second later =>
        constructor
        · intro h
          -- The second name is joined to the path of the root, so a slash is missing.
          have hshort := length_foldl_joinPath_le (joinPath "/" second) later
          have hlength := congrArg String.length h
          have hslash : "/".length = 1 := rfl
          rw [List.foldl_cons, spell_cons, String.length_append, String.length_append,
            String.length_append, hslash] at hlength
          rw [joinPath, if_pos rfl, String.length_append, hslash] at hshort
          rw [joinPath, if_pos rfl] at hlength
          omega
        · rintro (h | h)
          · exact absurd rfl h
          · cases h
  · have hpositive : 0 < name.length :=
      Nat.pos_of_ne_zero fun h => hname (String.length_eq_zero_iff.mp h)
    have hlong : 2 ≤ ("/" ++ name).length := by
      rw [String.length_append]
      have hslash : "/".length = 1 := rfl
      omega
    exact ⟨fun _ => Or.inl hname, fun _ => foldl_joinPath_of_long hlong later⟩

end Names

section Ways

variable {κ : Type}
variable {tree : FileTree κ}

/-- A node lies somewhere above another. -/
def Above (tree : FileTree κ) : Nat → Nat → Prop :=
  Relation.TransGen fun upper lower => tree.parentOf? lower = some upper

/-- The names on the way from the root to a node. -/
def wayTo (tree : FileTree κ) (id : Nat) : List String :=
  tree.namesTo tree.size id

theorem namesTo_succ_of_no_parent
    {id : Nat}
    (h : tree.parentOf? id = none)
    (fuel : Nat) :
    tree.namesTo (fuel + 1) id = [] := by
  rw [namesTo]
  rw [parentOf?] at h
  cases hentry : tree.get? id with
  | none => rfl
  | some entry =>
      rw [hentry, Option.elim_some] at h
      simp only [h]

theorem namesTo_succ_of_parent
    {id parent : Nat}
    (h : tree.parentOf? id = some parent)
    (fuel : Nat) :
    tree.namesTo (fuel + 1) id = tree.namesTo fuel parent ++ [tree.nameOf id] := by
  rw [namesTo, nameOf]
  rw [parentOf?] at h
  cases hentry : tree.get? id with
  | none =>
      rw [hentry] at h
      cases h
  | some entry =>
      rw [hentry, Option.elim_some] at h
      simp only [h, Option.elim_some]

/-- The names on the way do not depend on the number of steps allowed, if they are enough. -/
theorem Linked.namesTo_eq
    (h : Linked tree)
    {id first second : Nat}
    (hfirst : id < first)
    (hsecond : id < second) :
    tree.namesTo first id = tree.namesTo second id := by
  induction id using Nat.strongRecOn generalizing first second with
  | _ id ih =>
      obtain ⟨first, rfl⟩ := Nat.exists_eq_add_one_of_ne_zero (Nat.ne_zero_of_lt hfirst)
      obtain ⟨second, rfl⟩ := Nat.exists_eq_add_one_of_ne_zero (Nat.ne_zero_of_lt hsecond)
      cases hparent : tree.parentOf? id with
      | none =>
          rw [namesTo_succ_of_no_parent hparent, namesTo_succ_of_no_parent hparent]
      | some parent =>
          have hlt := h.parent_lt_of_parentOf? hparent
          have habove := @ih parent hlt first second (by omega) (by omega)
          rw [namesTo_succ_of_parent hparent, namesTo_succ_of_parent hparent, habove]

/-- The names on the way to the root. -/
theorem Linked.wayTo_root
    (h : Linked tree) :
    tree.wayTo root = [] := by
  rw [wayTo, h.namesTo_eq h.root_lt (Nat.lt_succ_self root)]
  exact namesTo_succ_of_no_parent h.parent_root root

/-- The way to a node is the way to its parent and one step more. -/
theorem Linked.wayTo_of_parent
    (h : Linked tree)
    {id parent : Nat}
    (hparent : tree.parentOf? id = some parent) :
    tree.wayTo id = tree.wayTo parent ++ [tree.nameOf id] := by
  have hid := lt_size_of_parentOf? hparent
  have hlt := h.parent_lt_of_parentOf? hparent
  rw [wayTo, wayTo, h.namesTo_eq hid (Nat.lt_succ_self id), namesTo_succ_of_parent hparent,
    h.namesTo_eq hlt (Nat.lt_trans hlt hid)]

/-- What holds of the root and goes from a parent to its children holds of every node. -/
@[elab_as_elim] theorem Linked.induction
    {motive : Nat → Prop}
    (h : Linked tree)
    (hroot : motive root)
    (hstep : ∀ id parent, tree.parentOf? id = some parent → motive parent → motive id)
    {id : Nat}
    (hid : id < tree.size) :
    motive id := by
  induction id using Nat.strongRecOn with
  | _ id ih =>
      by_cases hother : id = root
      · rw [hother]
        exact hroot
      · obtain ⟨parent, hlt, hparent⟩ := h.parent_lt id hid hother
        exact hstep id parent hparent (ih parent hlt (Nat.lt_trans hlt hid))

/-- The path that a node keeps is joined together from the names on the way to it. -/
theorem Linked.pathOf_eq_foldl
    (h : Linked tree)
    {id : Nat}
    (hid : id < tree.size) :
    tree.pathOf id = (tree.wayTo id).foldl joinPath "/" := by
  refine h.induction ?_ (fun id parent hparent habove => ?_) hid
  · rw [h.wayTo_root, h.path_root, List.foldl_nil]
  · rw [h.wayTo_of_parent hparent, List.foldl_append, ← habove, h.path id parent hparent,
      List.foldl_cons, List.foldl_nil]

/-- The path that is spelled anew consists of the names on the way, if there are any. -/
theorem fullPath_eq_spell
    {id : Nat}
    {name : String}
    {later : List String}
    (h : tree.wayTo id = name :: later) :
    tree.fullPath id '/' = spell (name :: later) := by
  rw [wayTo] at h
  rw [fullPath, h]
  rfl

/-- The way to a node below the root begins with the name of a child of the root. -/
theorem Linked.exists_top
    (h : Linked tree)
    {id : Nat}
    (hid : id < tree.size) :
    id = root ∨ ∃ top later,
      tree.parentOf? top = some root ∧
      tree.wayTo id = tree.nameOf top :: later ∧
      (top = id ∧ later = [] ∨ Above tree top id) := by
  refine h.induction (Or.inl rfl) (fun id parent hparent habove => Or.inr ?_) hid
  rcases habove with rfl | ⟨top, later, htop, hway, hlater⟩
  · refine ⟨id, [], hparent, ?_, Or.inl ⟨rfl, rfl⟩⟩
    rw [h.wayTo_of_parent hparent, h.wayTo_root, List.nil_append]
  · refine ⟨top, later ++ [tree.nameOf id], htop, ?_, Or.inr ?_⟩
    · rw [h.wayTo_of_parent hparent, hway, List.cons_append]
    · rcases hlater with ⟨rfl, -⟩ | hlater
      · exact .single hparent
      · exact hlater.tail hparent

/-- The way to a node below a child of the root begins with the name of this child and goes on. -/
theorem Linked.wayTo_of_above
    (h : Linked tree)
    {top id : Nat}
    (htop : tree.parentOf? top = some root)
    (habove : Above tree top id) :
    ∃ later, later ≠ [] ∧ tree.wayTo id = tree.nameOf top :: later := by
  induction habove with
  | @single id hparent =>
      refine ⟨[tree.nameOf id], List.cons_ne_nil _ _, ?_⟩
      rw [h.wayTo_of_parent hparent, h.wayTo_of_parent htop, h.wayTo_root]
      rfl
  | @tail parent id _ hparent ih =>
      obtain ⟨later, -, hway⟩ := ih
      have hmore : later ++ [tree.nameOf id] ≠ [] := by simp
      refine ⟨later ++ [tree.nameOf id], hmore, ?_⟩
      rw [h.wayTo_of_parent hparent, hway, List.cons_append]

end Ways

section Agreement

variable {κ : Type}

/--
**The kept path and the spelled path of a node.** In a tree grown from a root, the two are the same if
and only if the node does not lie below a nameless child of the root.
-/
theorem fullPath_eq_pathOf_iff
    (node : Node κ)
    {attachments : List (Attachment κ)}
    (h : Attachable 1 attachments)
    {id : Nat}
    (hid : id < (grow node attachments).size) :
    (grow node attachments).fullPath id '/' = (grow node attachments).pathOf id
      ↔
    ¬ ∃ top, (grow node attachments).parentOf? top = some root ∧
      (grow node attachments).nameOf top = "" ∧ Above (grow node attachments) top id := by
  have hlinked := linked_grow node h
  have hkept := hlinked.pathOf_eq_foldl hid
  constructor
  · rintro hsame ⟨top, htop, hnameless, habove⟩
    obtain ⟨later, hmore, hway⟩ := hlinked.wayTo_of_above htop habove
    rw [fullPath_eq_spell hway, hkept, hway, eq_comm, foldl_joinPath_eq_spell_iff] at hsame
    exact hsame.elim (fun hnamed => hnamed hnameless) hmore
  · intro hnone
    rcases hlinked.exists_top hid with rfl | ⟨top, later, htop, hway, hlater⟩
    · rw [hlinked.path_root, fullPath, ← wayTo, hlinked.wayTo_root]
      rfl
    · rw [fullPath_eq_spell hway, hkept, hway, eq_comm, foldl_joinPath_eq_spell_iff]
      rcases hlater with ⟨-, hlast⟩ | habove
      · exact Or.inr hlast
      · exact Or.inl fun hnameless => hnone ⟨top, htop, hnameless, habove⟩

theorem fullPath_eq_pathOf_iff_small :
    Attachable 1 smallAttachments ∧
      (grow ⟨"", 0, 0, true, ()⟩ smallAttachments).pathOf 3 = "/A/C" ∧
      ¬ ∃ top, (grow ⟨"", 0, 0, true, ()⟩ smallAttachments).parentOf? top = some root ∧
        (grow ⟨"", 0, 0, true, ()⟩ smallAttachments).nameOf top = "" ∧
        Above (grow ⟨"", 0, 0, true, ()⟩ smallAttachments) top 3 := by
  exact ⟨attachable_small, rfl,
    (fullPath_eq_pathOf_iff ⟨"", 0, 0, true, ()⟩ attachable_small (by decide)).mp (by decide)⟩

/-- A nameless directory in the root, and a file in it. -/
def namelessAttachments : List (Attachment Unit) :=
  [⟨0, ⟨"", 0, 0, true, ()⟩⟩, ⟨1, ⟨"k", 5, 7, false, ()⟩⟩]

/-- The path that is kept for a file in a nameless directory is that of a file in the root. -/
theorem fullPath_ne_pathOf_below_nameless :
    Attachable 1 namelessAttachments ∧
      2 < (grow ⟨"", 0, 0, true, ()⟩ namelessAttachments).size ∧
      (grow ⟨"", 0, 0, true, ()⟩ namelessAttachments).pathOf 2 = "/k" ∧
      (grow ⟨"", 0, 0, true, ()⟩ namelessAttachments).fullPath 2 '/' = "//k" ∧
      (grow ⟨"", 0, 0, true, ()⟩ namelessAttachments).fullPath 2 '/' ≠
        (grow ⟨"", 0, 0, true, ()⟩ namelessAttachments).pathOf 2 := by
  refine ⟨⟨?_, ?_, trivial⟩, ?_, rfl, ?_, ?_⟩ <;> decide

end Agreement

end FileTree
end Optical
