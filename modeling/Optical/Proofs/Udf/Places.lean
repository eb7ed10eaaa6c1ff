import Mathlib.Data.List.Lex
import Mathlib.Data.Set.Insert
import Optical.Proofs.Udf.Sequences

/-!
# Places of descriptors

Descriptors are read at places. A place is told by the sectors that lead down to it: one in the
sequence of the anchor, then one in the sequence in which the descriptor there goes on, and so forth;
what stands at the last of them is read. Places are read in the order of their lists, the shorter of
two first where it begins the other.

A walk cannot go on at a place for one of three reasons: the descriptor there is not read, or the
sequence in which it goes on begins where one has begun before, or that sequence is nested too deep.

* Leads and Opens say which places there are, and which sequences are named there;
* Stuck says why a walk cannot go on at a place, and Stuck.unique that there is one reason only;
* Before.stuck_append_iff and stuck_singleton_iff follow the sectors of a walk.
-/

namespace Optical
namespace Udf

section Places

/-- A place in a walk over sectors, with the sector that is read there. -/
inductive Leads (image : Image) : (sectors place : List Nat) → (sector : Nat) → Prop where
  | here {sectors : List Nat} {sector : Nat}
      (among : sector ∈ sectors) :
      Leads image sectors [sector] sector
  | inside {sectors place : List Nat} {sector last : Nat} {descriptor : Descriptor}
      {extent : ExtentPointer}
      (among : sector ∈ sectors)
      (holds : HoldsAt image sector (some descriptor))
      (onward : descriptor.continuation? = some extent)
      (below : Leads image extent.sectors place last) :
      Leads image sectors (sector :: place) last

/-- The descriptor at a place goes on in an extent. -/
def Opens (image : Image) (sectors place : List Nat) (extent : ExtentPointer) : Prop :=
  ∃ sector descriptor, Leads image sectors place sector ∧
    HoldsAt image sector (some descriptor) ∧ descriptor.continuation? = some extent

/-- The sectors at which the sequences begin that are named in a walk over sectors. -/
def starts (image : Image) (sectors : List Nat) : Set Nat :=
  {start | ∃ place extent, Opens image sectors place extent ∧ extent.location.toNat = start}

/-- The sectors at which sequences have begun before a place, those from before the walk with them. -/
def startsBefore (image : Image) (begun : Set Nat) (sectors place : List Nat) : Set Nat :=
  begun ∪ {start | ∃ earlier < place, ∃ extent,
    Opens image sectors earlier extent ∧ extent.location.toNat = start}

/-- A walk cannot go on at a place, given the levels of nesting that are left. -/
inductive Stuck
    (image : Image)
    (levels : Nat)
    (begun : Set Nat)
    (sectors place : List Nat) : Error → Prop where
  | unread {sector : Nat} {error : Error}
      (leads : Leads image sectors place sector)
      (failed : image.eval (readVolumeDescriptor sector) = .error error) :
      Stuck image levels begun sectors place error
  | looped {extent : ExtentPointer}
      (opens : Opens image sectors place extent)
      (refused : levels < place.length ∨
        extent.location.toNat ∈ startsBefore image begun sectors place) :
      Stuck image levels begun sectors place (.format (.descriptorLoop extent.location.toNat))

variable {image : Image}

theorem HoldsAt.unique
    {sector : Nat}
    {first second : Option Descriptor}
    (hfirst : HoldsAt image sector first)
    (hsecond : HoldsAt image sector second) :
    first = second := by
  rw [← eval_readVolumeDescriptor_eq_ok_iff] at hfirst hsecond
  exact Except.ok.inj (hfirst.symm.trans hsecond)

variable {sectors first later place other : List Nat}
variable {sector : Nat}

theorem Leads.exists_cons
    (h : Leads image sectors place sector) :
    ∃ head ∈ sectors, ∃ below, place = head :: below := by
  cases h with
  | here among => exact ⟨_, among, [], rfl⟩
  | inside among => exact ⟨_, among, _, rfl⟩

/-- The last sector of a place is read there. -/
theorem Leads.getLast?_eq
    (h : Leads image sectors place sector) :
    place.getLast? = some sector := by
  induction h with
  | here => rfl
  | inside _ _ _ hbelow ih =>
      obtain ⟨head, _, below, rfl⟩ := hbelow.exists_cons
      rw [List.getLast?_cons_cons, ih]

theorem Leads.unique
    (hfirst : Leads image first place sector)
    {another : Nat}
    (hsecond : Leads image later place another) :
    sector = another :=
  Option.some.inj (hfirst.getLast?_eq.symm.trans hsecond.getLast?_eq)

theorem Opens.unique
    {extent another : ExtentPointer}
    (hfirst : Opens image first place extent)
    (hsecond : Opens image later place another) :
    extent = another := by
  obtain ⟨sector, descriptor, hleads, hholds, honward⟩ := hfirst
  obtain ⟨_, found, hsame, hfound, hanother⟩ := hsecond
  cases hleads.unique hsame
  cases hholds.unique hfound
  exact Option.some.inj (honward.symm.trans hanother)

theorem Opens.place_ne_nil
    {extent : ExtentPointer}
    (h : Opens image sectors place extent) :
    place ≠ [] := by
  obtain ⟨_, _, hleads, -⟩ := h
  obtain ⟨head, _, below, rfl⟩ := hleads.exists_cons
  exact List.cons_ne_nil head below

theorem Stuck.exists_leads
    {levels : Nat}
    {begun : Set Nat}
    {error : Error}
    (h : Stuck image levels begun sectors place error) :
    ∃ sector, Leads image sectors place sector := by
  cases h with
  | unread hleads => exact ⟨_, hleads⟩
  | looped hopens =>
      obtain ⟨sector, _, hleads, -⟩ := hopens
      exact ⟨sector, hleads⟩

/-- A walk is stuck at a place for one reason only. -/
theorem Stuck.unique
    {levels : Nat}
    {begun : Set Nat}
    {error another : Error}
    (hfirst : Stuck image levels begun sectors place error)
    (hsecond : Stuck image levels begun sectors place another) :
    error = another := by
  have hread {sector : Nat} {error : Error} {extent : ExtentPointer}
      (hleads : Leads image sectors place sector)
      (hfailed : image.eval (readVolumeDescriptor sector) = .error error)
      (hopens : Opens image sectors place extent) : False := by
    obtain ⟨_, descriptor, hsame, hholds, -⟩ := hopens
    cases hleads.unique hsame
    rw [(eval_readVolumeDescriptor_eq_ok_iff image _ _).mpr hholds] at hfailed
    cases hfailed
  cases hfirst with
  | unread hleads hfailed =>
      cases hsecond with
      | unread hsame hother =>
          cases hleads.unique hsame
          exact Except.error.inj (hfailed.symm.trans hother)
      | looped hopens => exact (hread hleads hfailed hopens).elim
  | looped hopens =>
      cases hsecond with
      | unread hleads hfailed => exact (hread hleads hfailed hopens).elim
      | looped hother => rw [hopens.unique hother]

end Places

section Order

variable {image : Image}
variable {first later place other : List Nat}
variable {sector : Nat}

theorem leads_append_iff :
    Leads image (first ++ later) place sector
      ↔
    Leads image first place sector ∨ Leads image later place sector := by
  constructor
  · intro h
    cases h with
    | here among =>
        exact (List.mem_append.mp among).imp Leads.here Leads.here
    | inside among holds onward below =>
        exact (List.mem_append.mp among).imp (.inside · holds onward below)
          (.inside · holds onward below)
  · rintro (h | h)
    · cases h with
      | here among => exact .here (List.mem_append_left _ among)
      | inside among holds onward below =>
          exact .inside (List.mem_append_left _ among) holds onward below
    · cases h with
      | here among => exact .here (List.mem_append_right _ among)
      | inside among holds onward below =>
          exact .inside (List.mem_append_right _ among) holds onward below

theorem opens_append_iff
    {extent : ExtentPointer} :
    Opens image (first ++ later) place extent
      ↔
    Opens image first place extent ∨ Opens image later place extent := by
  simp only [Opens, leads_append_iff, or_and_right, exists_or]

theorem starts_append :
    starts image (first ++ later) = starts image first ∪ starts image later := by
  refine Set.ext fun start => ?_
  simp only [starts, opens_append_iff, Set.mem_union, Set.mem_ofPred_eq, or_and_right, exists_or]

/-- Sectors come before others: each of them is below each of the others. -/
def Before (first later : List Nat) : Prop :=
  ∀ sector ∈ first, ∀ other ∈ later, sector < other

/-- Places over the sectors in front are read before places over those behind. -/
theorem Before.place_lt
    {another : Nat}
    (hbefore : Before first later)
    (hfirst : Leads image first place sector)
    (hlater : Leads image later other another) :
    place < other := by
  obtain ⟨head, hhead, below, rfl⟩ := hfirst.exists_cons
  obtain ⟨next, hnext, rest, rfl⟩ := hlater.exists_cons
  exact List.cons_lt_cons_iff.mpr (Or.inl (hbefore head hhead next hnext))

variable {begun : Set Nat}

theorem Before.startsBefore_front
    (hbefore : Before first later)
    (hplace : Leads image first place sector) :
    startsBefore image begun (first ++ later) place = startsBefore image begun first place := by
  refine congrArg (begun ∪ ·) (Set.ext fun start => ?_)
  constructor
  · rintro ⟨earlier, hearlier, extent, hopens, hstart⟩
    rcases opens_append_iff.mp hopens with hfront | ⟨_, _, hleads, -⟩
    · exact ⟨earlier, hearlier, extent, hfront, hstart⟩
    · exact absurd (hbefore.place_lt hplace hleads) (lt_asymm hearlier)
  · rintro ⟨earlier, hearlier, extent, hopens, hstart⟩
    exact ⟨earlier, hearlier, extent, opens_append_iff.mpr (Or.inl hopens), hstart⟩

theorem Before.startsBefore_back
    (hbefore : Before first later)
    (hplace : Leads image later place sector) :
    startsBefore image begun (first ++ later) place =
      startsBefore image (begun ∪ starts image first) later place := by
  rw [startsBefore, startsBefore, Set.union_assoc]
  refine congrArg (begun ∪ ·) (Set.ext fun start => ?_)
  constructor
  · rintro ⟨earlier, hearlier, extent, hopens, hstart⟩
    rcases opens_append_iff.mp hopens with hfront | hback
    · exact Or.inl ⟨earlier, extent, hfront, hstart⟩
    · exact Or.inr ⟨earlier, hearlier, extent, hback, hstart⟩
  · rintro (⟨earlier, extent, hopens, hstart⟩ | ⟨earlier, hearlier, extent, hopens, hstart⟩)
    · obtain ⟨_, _, hleads, -⟩ := id hopens
      exact ⟨earlier, hbefore.place_lt hleads hplace, extent,
        opens_append_iff.mpr (Or.inl hopens), hstart⟩
    · exact ⟨earlier, hearlier, extent, opens_append_iff.mpr (Or.inr hopens), hstart⟩

/-- A walk over more sectors is stuck where the walk over one of both parts is. -/
theorem Before.stuck_append_iff
    (hbefore : Before first later)
    {levels : Nat}
    {error : Error} :
    Stuck image levels begun (first ++ later) place error
      ↔
    Stuck image levels begun first place error ∨
      Stuck image levels (begun ∪ starts image first) later place error := by
  constructor
  · intro h
    cases h with
    | unread hleads hfailed =>
        exact (leads_append_iff.mp hleads).imp (.unread · hfailed) (.unread · hfailed)
    | looped hopens hrefused =>
        rcases opens_append_iff.mp hopens with hfront | hback
        · obtain ⟨_, _, hleads, -⟩ := id hfront
          rw [hbefore.startsBefore_front hleads] at hrefused
          exact Or.inl (.looped hfront hrefused)
        · obtain ⟨_, _, hleads, -⟩ := id hback
          rw [hbefore.startsBefore_back hleads] at hrefused
          exact Or.inr (.looped hback hrefused)
  · rintro (h | h)
    · cases h with
      | unread hleads hfailed => exact .unread (leads_append_iff.mpr (Or.inl hleads)) hfailed
      | looped hopens hrefused =>
          obtain ⟨_, _, hleads, -⟩ := id hopens
          rw [← hbefore.startsBefore_front hleads] at hrefused
          exact .looped (opens_append_iff.mpr (Or.inl hopens)) hrefused
    · cases h with
      | unread hleads hfailed => exact .unread (leads_append_iff.mpr (Or.inr hleads)) hfailed
      | looped hopens hrefused =>
          obtain ⟨_, _, hleads, -⟩ := id hopens
          rw [← hbefore.startsBefore_back hleads] at hrefused
          exact .looped (opens_append_iff.mpr (Or.inr hopens)) hrefused

end Order

section Sectors

variable {image : Image}
variable {sector : Nat}
variable {descriptor : Descriptor}
variable {extent : ExtentPointer}
variable {place : List Nat}

/-- Over a sector that names no sequence there is one place. -/
theorem leads_singleton_of_final
    {found : Option Descriptor}
    (holds : HoldsAt image sector found)
    (final : found.bind Descriptor.continuation? = none)
    {last : Nat}
    (h : Leads image [sector] place last) :
    last = sector := by
  cases h with
  | here among => exact List.mem_singleton.mp among
  | inside among other onward =>
      cases List.mem_singleton.mp among
      cases holds.unique other
      rw [Option.bind_some, onward] at final
      cases final

theorem not_opens_of_final
    {found : Option Descriptor}
    (holds : HoldsAt image sector found)
    (final : found.bind Descriptor.continuation? = none) :
    ¬ Opens image [sector] place extent := by
  rintro ⟨last, descriptor, hleads, hother, honward⟩
  cases leads_singleton_of_final holds final hleads
  cases holds.unique hother
  rw [Option.bind_some, honward] at final
  cases final

/-- The places over a sector are itself and those below it. -/
theorem leads_singleton_iff
    (holds : HoldsAt image sector (some descriptor))
    (onward : descriptor.continuation? = some extent)
    {last : Nat} :
    Leads image [sector] place last
      ↔
    (place = [sector] ∧ last = sector) ∨
      ∃ below, place = sector :: below ∧ Leads image extent.sectors below last := by
  constructor
  · intro h
    cases h with
    | here among =>
        cases List.mem_singleton.mp among
        exact Or.inl ⟨rfl, rfl⟩
    | inside among other hother hbelow =>
        cases List.mem_singleton.mp among
        cases holds.unique other
        cases onward.symm.trans hother
        exact Or.inr ⟨_, rfl, hbelow⟩
  · rintro (⟨rfl, rfl⟩ | ⟨below, rfl, hbelow⟩)
    · exact .here (List.mem_singleton.mpr rfl)
    · exact .inside (List.mem_singleton.mpr rfl) holds onward hbelow

theorem opens_singleton_iff
    (holds : HoldsAt image sector (some descriptor))
    (onward : descriptor.continuation? = some extent)
    {another : ExtentPointer} :
    Opens image [sector] place another
      ↔
    (place = [sector] ∧ another = extent) ∨
      ∃ below, place = sector :: below ∧ Opens image extent.sectors below another := by
  constructor
  · rintro ⟨last, found, hleads, hfound, hanother⟩
    rcases (leads_singleton_iff holds onward).mp hleads with ⟨rfl, rfl⟩ | ⟨below, rfl, hbelow⟩
    · cases holds.unique hfound
      exact Or.inl ⟨rfl, Option.some.inj (hanother.symm.trans onward)⟩
    · exact Or.inr ⟨below, rfl, last, found, hbelow, hfound, hanother⟩
  · rintro (⟨rfl, rfl⟩ | ⟨below, rfl, last, found, hbelow, hfound, hanother⟩)
    · exact ⟨sector, descriptor, (leads_singleton_iff holds onward).mpr (Or.inl ⟨rfl, rfl⟩), holds,
        onward⟩
    · exact ⟨last, found, (leads_singleton_iff holds onward).mpr (Or.inr ⟨below, rfl, hbelow⟩),
        hfound, hanother⟩

/-- The sequences named over a sector are the one it goes on in and those named there. -/
theorem starts_singleton
    (holds : HoldsAt image sector (some descriptor))
    (onward : descriptor.continuation? = some extent) :
    starts image [sector] = insert extent.location.toNat (starts image extent.sectors) := by
  refine Set.ext fun start => ?_
  simp only [starts, Set.mem_ofPred_eq, Set.mem_insert_iff, opens_singleton_iff holds onward]
  constructor
  · rintro ⟨_, another, ⟨rfl, rfl⟩ | ⟨below, rfl, hopens⟩, rfl⟩
    · exact Or.inl rfl
    · exact Or.inr ⟨below, another, hopens, rfl⟩
  · rintro (rfl | ⟨below, another, hopens, rfl⟩)
    · exact ⟨[sector], extent, Or.inl ⟨rfl, rfl⟩, rfl⟩
    · exact ⟨sector :: below, another, Or.inr ⟨below, rfl, hopens⟩, rfl⟩

theorem starts_singleton_of_final
    {found : Option Descriptor}
    (holds : HoldsAt image sector found)
    (final : found.bind Descriptor.continuation? = none) :
    starts image [sector] = ∅ := by
  refine Set.eq_empty_of_forall_notMem fun start => ?_
  rintro ⟨place, extent, hopens, -⟩
  exact not_opens_of_final holds final hopens

variable {begun : Set Nat}
variable {levels : Nat}
variable {error : Error}

/-- A sector is read before all places below it. -/
theorem Leads.not_lt_singleton
    {last : Nat}
    (h : Leads image [sector] place last) :
    ¬ place < [sector] := by
  intro hless
  obtain ⟨head, hhead, below, rfl⟩ := h.exists_cons
  cases List.mem_singleton.mp hhead
  exact List.not_lt_nil below (List.cons_lt_cons_self.mp hless)

theorem startsBefore_here
    (sector : Nat) :
    startsBefore image begun [sector] [sector] = begun := by
  refine Set.union_eq_self_of_subset_right ?_
  rintro start ⟨earlier, hearlier, extent, ⟨last, _, hleads, -⟩, -⟩
  exact absurd hearlier hleads.not_lt_singleton

/-- Before a place below a sector the sequence has begun in which the sector goes on. -/
theorem startsBefore_below
    (holds : HoldsAt image sector (some descriptor))
    (onward : descriptor.continuation? = some extent)
    {below : List Nat}
    (hbelow : below ≠ []) :
    startsBefore image begun [sector] (sector :: below) =
      startsBefore image (insert extent.location.toNat begun) extent.sectors below := by
  refine Set.ext fun start => ?_
  simp only [startsBefore, Set.mem_union, Set.mem_insert_iff, Set.mem_ofPred_eq,
    opens_singleton_iff holds onward]
  rw [or_assoc, or_left_comm]
  refine or_congr_right ?_
  constructor
  · rintro ⟨_, hearlier, another, ⟨rfl, rfl⟩ | ⟨earlier, rfl, hopens⟩, rfl⟩
    · exact Or.inl rfl
    · exact Or.inr ⟨earlier, List.cons_lt_cons_self.mp hearlier, another, hopens, rfl⟩
  · rintro (rfl | ⟨earlier, hearlier, another, hopens, rfl⟩)
    · obtain ⟨head, rest, rfl⟩ := List.exists_cons_of_ne_nil hbelow
      exact ⟨[sector], List.cons_lt_cons_self.mpr (List.nil_lt_cons _ _), extent,
        Or.inl ⟨rfl, rfl⟩, rfl⟩
    · exact ⟨sector :: earlier, List.cons_lt_cons_self.mpr hearlier, another,
        Or.inr ⟨earlier, rfl, hopens⟩, rfl⟩

theorem not_stuck_of_final
    {found : Option Descriptor}
    (holds : HoldsAt image sector found)
    (final : found.bind Descriptor.continuation? = none) :
    ¬ Stuck image levels begun [sector] place error := by
  intro h
  cases h with
  | unread hleads hfailed =>
      cases leads_singleton_of_final holds final hleads
      rw [(eval_readVolumeDescriptor_eq_ok_iff image _ _).mpr holds] at hfailed
      cases hfailed
  | looped hopens => exact not_opens_of_final holds final hopens

/-- A walk over a sector is stuck at its sequence, or inside it with one level less. -/
theorem stuck_singleton_iff
    (holds : HoldsAt image sector (some descriptor))
    (onward : descriptor.continuation? = some extent) :
    Stuck image levels begun [sector] place error
      ↔
    (place = [sector] ∧ (levels = 0 ∨ extent.location.toNat ∈ begun) ∧
      error = .format (.descriptorLoop extent.location.toNat)) ∨
    ∃ below, place = sector :: below ∧
      Stuck image (levels - 1) (insert extent.location.toNat begun) extent.sectors below error := by
  have hread := (eval_readVolumeDescriptor_eq_ok_iff image sector _).mpr holds
  have hdeep {below : List Nat} (hbelow : below ≠ []) :
      levels < (sector :: below).length ↔ levels - 1 < below.length := by
    have hpositive := List.length_pos_iff.mpr hbelow
    rw [List.length_cons]
    omega
  constructor
  · intro h
    cases h with
    | unread hleads hfailed =>
        rcases (leads_singleton_iff holds onward).mp hleads with ⟨rfl, rfl⟩ | ⟨below, rfl, hbelow⟩
        · rw [hread] at hfailed
          cases hfailed
        · exact Or.inr ⟨below, rfl, .unread hbelow hfailed⟩
    | looped hopens hrefused =>
        rcases (opens_singleton_iff holds onward).mp hopens with ⟨rfl, rfl⟩ | ⟨below, rfl, hbelow⟩
        · rw [startsBefore_here, List.length_singleton, Nat.lt_one_iff] at hrefused
          exact Or.inl ⟨rfl, hrefused, rfl⟩
        · have hsome := hbelow.place_ne_nil
          rw [startsBefore_below holds onward hsome, hdeep hsome] at hrefused
          exact Or.inr ⟨below, rfl, .looped hbelow hrefused⟩
  · rintro (⟨rfl, hrefused, rfl⟩ | ⟨below, rfl, hbelow⟩)
    · refine .looped ((opens_singleton_iff holds onward).mpr (Or.inl ⟨rfl, rfl⟩)) ?_
      rwa [startsBefore_here, List.length_singleton, Nat.lt_one_iff]
    · cases hbelow with
      | unread hleads hfailed =>
          exact .unread ((leads_singleton_iff holds onward).mpr (Or.inr ⟨below, rfl, hleads⟩))
            hfailed
      | looped hopens hrefused =>
          have hsome := hopens.place_ne_nil
          refine .looped ((opens_singleton_iff holds onward).mpr (Or.inr ⟨below, rfl, hopens⟩)) ?_
          rwa [startsBefore_below holds onward hsome, hdeep hsome]

end Sectors

end Udf
end Optical
