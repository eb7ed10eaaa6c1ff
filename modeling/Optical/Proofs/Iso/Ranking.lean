import Optical.Proofs.Iso.Tables

/-!
# The ranking of tables

The search for the best table makes one round through the descriptors and keeps the best choice so
far. It is described here by the list of all choices that the tables offer: every table with a tree
offers two, that of its alternate names and then that of its identifiers.

* FirstBest says which of the offered choices is best: the first with the greatest score;
* Surveys says that what is known after some tables is the best and the first of their choices, and
  Surveys.consider that one more table keeps this so;
* Elects says what the search makes of this in the end, and exists_elects_bestTable that it does so
  on every image.
-/

namespace Optical
namespace Iso

section Offers

/-- The choices that a table with a tree offers, the alternate names first. -/
def offersOfTree (table : Nat) (tree : FileTree Attributes) : List TableChoice :=
  [⟨table, true, longestAlternateName tree⟩, ⟨table, false, longestIdentifier tree⟩]

/-- The choices that the table of a descriptor offers; a table without a tree offers none. -/
def offersOf (image : Image) (descriptor : VolumeDescriptor) : List TableChoice :=
  match descriptor.root with
  | none => []
  | some root =>
      match image.eval (buildTree root true) with
      | .error _ => []
      | .ok tree => offersOfTree descriptor.index tree

theorem mem_offersOf_iff
    (image : Image)
    (descriptor : VolumeDescriptor)
    (choice : TableChoice) :
    choice ∈ offersOf image descriptor
      ↔
    ∃ root tree, descriptor.root = some root ∧ image.eval (buildTree root true) = .ok tree ∧
      choice ∈ offersOfTree descriptor.index tree := by
  rw [offersOf]
  split
  · next hroot => simp [hroot]
  · next root hroot =>
      split
      · next error htree => simp [hroot, htree]
      · next tree htree => simp [hroot, htree]

theorem table_of_mem_offersOf
    {image : Image}
    {descriptor : VolumeDescriptor}
    {choice : TableChoice}
    (h : choice ∈ offersOf image descriptor) :
    choice.table = descriptor.index := by
  obtain ⟨root, tree, -, -, hchoice⟩ := (mem_offersOf_iff image descriptor choice).mp h
  rw [offersOfTree, List.mem_cons, List.mem_singleton] at hchoice
  rcases hchoice with rfl | rfl <;> rfl

/-- The choices that a volume offers on an image. -/
def Volume.offers (volume : Volume) (image : Image) : List TableChoice :=
  volume.descriptors.flatMap (offersOf image)

/-- The first of some choices with the greatest score, if any of them has a score. -/
inductive FirstBest : List TableChoice → Option TableChoice → Prop
  | unscored {offers : List TableChoice} (hnone : ∀ offer ∈ offers, offer.score = none) :
      FirstBest offers none
  | scored {before after : List TableChoice} {choice : TableChoice} {score : Nat}
      (hscore : choice.score = some score)
      (hbefore : ∀ offer ∈ before, ∀ other, offer.score = some other → other < score)
      (hafter : ∀ offer ∈ after, ∀ other, offer.score = some other → other ≤ score) :
      FirstBest (before ++ choice :: after) (some choice)

theorem Ranking.exceeds_some_iff
    (score : Option Nat)
    (best : Nat) :
    exceeds score (some best) = true ↔ ∃ new, score = some new ∧ best < new := by
  cases score <;> simp [exceeds]

/-- A further choice is the best if its score is above that of the best before it. -/
theorem FirstBest.offer
    {offers : List TableChoice}
    {ranking : Ranking}
    (h : FirstBest offers ranking.best)
    (choice : TableChoice) :
    FirstBest (offers ++ [choice]) (ranking.offer choice).best := by
  obtain ⟨best, firstReadable⟩ := ranking
  cases h with
  | unscored hnone =>
      cases hscore : choice.score with
      | none =>
          rw [Ranking.offer, hscore]
          refine .unscored fun offer hoffer => ?_
          rcases List.mem_append.mp hoffer with hold | hnew
          · exact hnone offer hold
          · rw [List.mem_singleton.mp hnew, hscore]
      | some score =>
          rw [Ranking.offer, hscore]
          refine .scored hscore (fun offer hoffer other hother => ?_) (by simp)
          rw [hnone offer hoffer] at hother
          cases hother
  | @scored before after found score hfound hbefore hafter =>
      -- The new choice beats the best one so far, or it is one more that does not.
      by_cases habove : Ranking.exceeds choice.score (some score) = true
      · obtain ⟨new, hnew, hgreater⟩ := (Ranking.exceeds_some_iff _ _).mp habove
        rw [Ranking.offer, Option.bind_some, hfound, if_pos habove]
        refine .scored hnew (fun offer hoffer other hother => ?_) (by simp)
        simp only [List.mem_append, List.mem_cons] at hoffer
        rcases hoffer with hoffer | rfl | hoffer
        · exact (hbefore offer hoffer other hother).trans hgreater
        · rw [hfound] at hother
          cases hother
          exact hgreater
        · exact (hafter offer hoffer other hother).trans_lt hgreater
      · rw [Ranking.offer, Option.bind_some, hfound, if_neg habove, List.append_assoc,
          List.cons_append]
        refine .scored hfound hbefore fun offer hoffer other hother => ?_
        rcases List.mem_append.mp hoffer with hoffer | hoffer
        · exact hafter offer hoffer other hother
        · rw [List.mem_singleton.mp hoffer] at hother
          exact Nat.le_of_not_lt fun hless =>
            habove ((Ranking.exceeds_some_iff _ _).mpr ⟨other, hother, hless⟩)

end Offers

section Search

/-- What is known after some tables: the best of their choices, and the first of them. -/
structure Ranking.Surveys (ranking : Ranking) (offers : List TableChoice) : Prop where
  best : FirstBest offers ranking.best
  first : ranking.firstReadable = offers.head?.map (·.table)

variable {ranking : Ranking}
variable {offers : List TableChoice}

theorem Ranking.surveys_empty : Ranking.empty.Surveys [] where
  best := .unscored (by simp)
  first := rfl

theorem Ranking.offer_firstReadable
    (ranking : Ranking)
    (choice : TableChoice) :
    (ranking.offer choice).firstReadable = ranking.firstReadable := by
  rw [Ranking.offer]
  split <;> rfl

/-- A table with a tree adds its two choices. -/
theorem Ranking.Surveys.consider
    (h : ranking.Surveys offers)
    (table : Nat)
    (tree : FileTree Attributes) :
    (ranking.consider table tree).Surveys (offers ++ offersOfTree table tree) where
  best := by
    have hseen : FirstBest offers
        ({ ranking with firstReadable := ranking.firstReadable.or (some table) } : Ranking).best :=
      h.best
    have hboth := (hseen.offer ⟨table, true, longestAlternateName tree⟩).offer
      ⟨table, false, longestIdentifier tree⟩
    rw [List.append_assoc] at hboth
    exact hboth
  first := by
    rw [Ranking.consider, Ranking.offer_firstReadable, Ranking.offer_firstReadable, h.first]
    cases offers <;> rfl

/-- A table is taken into account if it has a tree, and passed over if not. -/
theorem exists_eval_rank
    (image : Image)
    (h : ranking.Surveys offers)
    (descriptor : VolumeDescriptor) :
    ∃ later, image.eval (Volume.rank ranking descriptor) = .ok later ∧
      later.Surveys (offers ++ offersOf image descriptor) := by
  rw [Volume.rank, offersOf]
  cases descriptor.root with
  | none => exact ⟨ranking, rfl, by rwa [List.append_nil]⟩
  | some root =>
      simp only [Image.eval_bind, Image.eval_attempt]
      cases htree : image.eval (buildTree root true) with
      | ok tree => exact ⟨_, rfl, h.consider descriptor.index tree⟩
      | error error =>
          have hunreadable := failsOnly_buildTree image true root error htree
          refine ⟨ranking, ?_, by rwa [List.append_nil]⟩
          show image.eval (if isUnreadableTable error = true then _ else _) = _
          rw [if_pos hunreadable]
          rfl

theorem exists_eval_ranks
    (image : Image)
    (h : ranking.Surveys offers)
    (descriptors : List VolumeDescriptor) :
    ∃ later, image.eval (descriptors.foldlM Volume.rank ranking) = .ok later ∧
      later.Surveys (offers ++ descriptors.flatMap (offersOf image)) := by
  induction descriptors generalizing ranking offers with
  | nil => exact ⟨ranking, rfl, by rwa [List.flatMap_nil, List.append_nil]⟩
  | cons descriptor descriptors ih =>
      obtain ⟨next, hnext, hsurveys⟩ := exists_eval_rank image h descriptor
      obtain ⟨later, hlater, hall⟩ := ih hsurveys
      refine ⟨later, ?_, ?_⟩
      · rw [List.foldlM_cons, Image.eval_bind_eq_ok_iff]
        exact ⟨next, hnext, hlater⟩
      · rwa [List.flatMap_cons, ← List.append_assoc]

end Search

section Election

/--
What the search comes to, given all offered choices: the first with the greatest score; without a
score the first table that offers a choice, under its identifiers; without an offer nothing.
-/
inductive Elects : List TableChoice → Option TableChoice → Prop
  | nothing : Elects [] none
  | unscored {first : TableChoice} {later : List TableChoice}
      (hnone : ∀ offer ∈ first :: later, offer.score = none) :
      Elects (first :: later) (some ⟨first.table, false, none⟩)
  | scored {offers : List TableChoice} {choice : TableChoice}
      (hbest : FirstBest offers (some choice)) :
      Elects offers (some choice)

variable {offers : List TableChoice}

theorem FirstBest.mem
    {choice : TableChoice}
    (h : FirstBest offers (some choice)) :
    choice ∈ offers := by
  cases h with
  | scored => simp

theorem Ranking.Surveys.elects
    {ranking : Ranking}
    (h : ranking.Surveys offers) :
    Elects offers ranking.choice? := by
  obtain ⟨best, firstReadable⟩ := ranking
  obtain ⟨hbest, hfirst⟩ := h
  cases best with
  | some choice => exact .scored hbest
  | none =>
      cases hbest with
      | unscored hnone =>
          rw [Ranking.choice?, Option.none_or, hfirst]
          cases offers with
          | nil => exact .nothing
          | cons first later => exact .unscored hnone

variable {choice? : Option TableChoice}

/-- The search comes to nothing if there is no offer, and only then. -/
theorem Elects.eq_none_iff
    (h : Elects offers choice?) :
    choice? = none ↔ offers = [] := by
  cases h with
  | nothing => simp
  | unscored hnone => simp
  | scored hbest => simp [List.ne_nil_of_mem hbest.mem]

/-- What the search comes to is about a table that offers a choice. -/
theorem Elects.exists_mem
    (h : Elects offers choice?)
    {choice : TableChoice}
    (hchoice : choice? = some choice) :
    ∃ offer ∈ offers, offer.table = choice.table := by
  cases h with
  | nothing => cases hchoice
  | unscored hnone =>
      cases hchoice
      exact ⟨_, List.mem_cons_self, rfl⟩
  | scored hbest =>
      cases hchoice
      exact ⟨_, hbest.mem, rfl⟩

/-- The search for the best table succeeds, whatever the image holds. -/
theorem exists_elects_bestTable
    (image : Image)
    (volume : Volume) :
    ∃ choice?, image.eval volume.bestTable = .ok choice? ∧
      Elects (volume.offers image) choice? := by
  obtain ⟨ranking, hranking, hsurveys⟩ :=
    exists_eval_ranks image Ranking.surveys_empty volume.descriptors
  refine ⟨ranking.choice?, ?_, hsurveys.elects⟩
  rw [Volume.bestTable, Image.eval_bind_eq_ok_iff]
  exact ⟨ranking, hranking, rfl⟩

/-- A table of the volume with a tree offers a choice, and only such a table does. -/
theorem exists_mem_offers_iff
    (image : Image)
    (volume : Volume)
    (table : Nat) :
    (∃ offer ∈ volume.offers image, offer.table = table)
      ↔
    ∃ descriptor ∈ volume.descriptors, descriptor.index = table ∧
      HasTree image true descriptor := by
  constructor
  · rintro ⟨offer, hoffer, rfl⟩
    obtain ⟨descriptor, hdescriptor, hmem⟩ := List.mem_flatMap.mp hoffer
    obtain ⟨root, tree, hroot, htree, -⟩ := (mem_offersOf_iff image descriptor offer).mp hmem
    exact ⟨descriptor, hdescriptor, (table_of_mem_offersOf hmem).symm, root, tree, hroot, htree⟩
  · rintro ⟨descriptor, hdescriptor, rfl, root, tree, hroot, htree⟩
    refine ⟨⟨descriptor.index, true, longestAlternateName tree⟩, ?_, rfl⟩
    refine List.mem_flatMap.mpr ⟨descriptor, hdescriptor, ?_⟩
    exact (mem_offersOf_iff image descriptor _).mpr
      ⟨root, tree, hroot, htree, List.mem_cons_self⟩

/-- The search comes to a table with a tree if there is one. -/
theorem exists_eval_bestTable
    (image : Image)
    (volume : Volume) :
    ∃ choice?, image.eval volume.bestTable = .ok choice? ∧
      (choice? = none ↔ ¬ ∃ descriptor ∈ volume.descriptors, HasTree image true descriptor) ∧
      ∀ choice, choice? = some choice →
        ∃ descriptor ∈ volume.descriptors,
          descriptor.index = choice.table ∧ HasTree image true descriptor := by
  obtain ⟨choice?, hchoice, helects⟩ := exists_elects_bestTable image volume
  have htables := exists_mem_offers_iff image volume
  refine ⟨choice?, hchoice, ?_, fun choice h => (htables _).mp (helects.exists_mem h)⟩
  rw [helects.eq_none_iff, List.eq_nil_iff_forall_not_mem]
  constructor
  · rintro hnone ⟨descriptor, hdescriptor, htree⟩
    obtain ⟨offer, hoffer, -⟩ := (htables _).mpr ⟨descriptor, hdescriptor, rfl, htree⟩
    exact hnone offer hoffer
  · rintro hnone offer hoffer
    obtain ⟨descriptor, hdescriptor, -, htree⟩ := (htables _).mp ⟨offer, hoffer, rfl⟩
    exact hnone ⟨descriptor, hdescriptor, htree⟩

end Election

end Iso
end Optical
