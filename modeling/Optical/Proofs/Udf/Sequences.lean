import Optical.Proofs.Udf.FileSet
import Optical.Udf.Volume

/-!
# The descriptors of a UDF volume

The first anchor of an image begins a sequence of its own. A sequence is a list of sectors; each
holds a descriptor or is a blank, and some descriptors go on in an extent, which is a sequence
again. So the descriptors of a volume are a forest, and the volume lists them in its order: each
descriptor is followed by those in which it goes on, before the sequence that it stands in resumes.

Sequences may lead back to one another. Two rules keep their forest finite, and nothing else keeps
a volume from being read whose sectors all hold what they should: sequences are nested at most 16
deep, and no two of them begin at the same sector.

* eval_probe gives the anchors of an image;
* Nesting says which forest of descriptors a list of sectors holds;
* readRun_eq_readEach says over which sectors a run goes that stops at a byte, and readRun_extent that
  those of an extent are its sectors;
* walksTo_of_eval_enterExtent and eval_readEach_of_nesting follow the walk of the sequences;
* eval_read_eq_ok_iff_lists says that a volume lists the nesting that begins at its first anchor.
-/

namespace Optical
namespace Udf

section Anchors

variable (image : Image)

/-- A sector holds a sound anchor, and the medium does not cut off its tag. -/
def IsAnchor (sector : Nat) : Prop :=
  sectorStart sector + Tag.size ≤ image.size ∧
    Tag.isValidAt (image.part (sectorStart sector) Tag.size) Tag.anchorPointer sector = true
deriving Decidable

/-- The anchors of an image, in the order of the search. -/
def anchorsOf : List Nat :=
  (anchorCandidates (image.size / sectorSize)).filter (IsAnchor image ·)

theorem eval_soundAnchors
    (sectors : List Nat) :
    image.eval (soundAnchors image.size sectors) = .ok (sectors.filter (IsAnchor image ·)) := by
  induction sectors with
  | nil => rfl
  | cons sector sectors ih =>
      rw [soundAnchors]
      by_cases hcut : image.size < sectorStart sector + Tag.size
      · have hnone : ¬ IsAnchor image sector := fun h => Nat.not_lt.mpr h.1 hcut
        rw [if_pos hcut, ih, List.filter_cons_of_neg (by simpa using hnone)]
      · have hinside := Nat.not_lt.mp hcut
        have hread := (image.eval_readExact_eq_ok_iff (sectorStart sector) Tag.size _).mpr
          ⟨Or.inr hinside, rfl⟩
        simp only [if_neg hcut, Image.eval_bind_eq_ok_iff]
        refine ⟨_, hread, _, ih, ?_⟩
        by_cases hvalid : Tag.isValidAt (image.part (sectorStart sector) Tag.size)
            Tag.anchorPointer sector = true
        · rw [if_pos hvalid, List.filter_cons_of_pos (by simpa using ⟨hinside, hvalid⟩)]
          rfl
        · have hnone : ¬ IsAnchor image sector := fun h => hvalid h.2
          rw [if_neg hvalid, List.filter_cons_of_neg (by simpa using hnone)]
          rfl

/-- The search for anchors succeeds on every image. -/
theorem eval_probe : image.eval probe = .ok (anchorsOf image) := by
  rw [probe, Image.eval_bind_eq_ok_iff]
  exact ⟨image.size, image.eval_size, eval_soundAnchors image _⟩

end Anchors

section Nesting

/--
The sectors of a sequence, in order: as many as its bytes need, the last one perhaps in part, and one
at least.
-/
def ExtentPointer.sectors (extent : ExtentPointer) : List Nat :=
  List.range' extent.location.toNat (max 1 ((extent.length.toNat + 2047) / 2048))

/-- A sector holds a descriptor of a known type, or a blank. -/
def HoldsAt (image : Image) (sector : Nat) (found : Option Descriptor) : Prop :=
  ∃ tag raw, DescriptorAt image sector tag raw ∧ Descriptor.parse? tag raw sector = .ok found

/--
Sectors hold a forest of descriptors: a tree for each sector that is no blank, with those of the
sequence in which its descriptor goes on below it.
-/
inductive Nesting (image : Image) : List Nat → Forest Descriptor → Prop where
  | ended : Nesting image [] .nil
  | blank {sector : Nat} {sectors : List Nat} {rest : Forest Descriptor}
      (holds : HoldsAt image sector none)
      (later : Nesting image sectors rest) :
      Nesting image (sector :: sectors) rest
  | single {sector : Nat} {sectors : List Nat} {descriptor : Descriptor}
      {rest : Forest Descriptor}
      (holds : HoldsAt image sector (some descriptor))
      (final : descriptor.continuation? = none)
      (later : Nesting image sectors rest) :
      Nesting image (sector :: sectors) (.cons descriptor .nil rest)
  | continued {sector : Nat} {sectors : List Nat} {descriptor : Descriptor}
      {extent : ExtentPointer} {below rest : Forest Descriptor}
      (holds : HoldsAt image sector (some descriptor))
      (onward : descriptor.continuation? = some extent)
      (inside : Nesting image extent.sectors below)
      (later : Nesting image sectors rest) :
      Nesting image (sector :: sectors) (.cons descriptor below rest)

/-- The sectors at which the sequences begin in which descriptors go on. -/
def continuationStarts (descriptors : List Descriptor) : List Nat :=
  descriptors.filterMap fun descriptor =>
    descriptor.continuation?.map fun extent => extent.location.toNat

/-- The greatest number of sequences on the way down to a descriptor. -/
def nestingDepth : Forest Descriptor → Nat
  | .nil => 0
  | .cons descriptor below rest =>
      max (if descriptor.continuation?.isSome then nestingDepth below + 1 else 0)
        (nestingDepth rest)

/-- The sectors at which sequences have begun once descriptors are listed, the last one first. -/
def reached (visited : List Nat) (descriptors : List Descriptor) : List Nat :=
  (continuationStarts descriptors).reverse ++ visited

theorem reached_append
    (visited : List Nat)
    (first second : List Descriptor) :
    reached visited (first ++ second) = reached (reached visited first) second := by
  rw [reached, continuationStarts, List.filterMap_append, List.reverse_append, List.append_assoc]
  rfl

theorem nodup_reached_iff
    (start : Nat)
    (descriptors : List Descriptor) :
    (reached [start] descriptors).Nodup ↔ (start :: continuationStarts descriptors).Nodup := by
  rw [reached, ← List.reverse_cons]
  exact (List.reverse_perm _).nodup_iff

section Continuations

variable {descriptor : Descriptor}

theorem reached_cons_of_none
    (final : descriptor.continuation? = none)
    (visited : List Nat)
    (descriptors : List Descriptor) :
    reached visited (descriptor :: descriptors) = reached visited descriptors := by
  have hstarts : continuationStarts (descriptor :: descriptors) = continuationStarts descriptors :=
    List.filterMap_cons_none (by rw [final]; rfl)
  rw [reached, hstarts, reached]

theorem reached_cons_of_some
    {extent : ExtentPointer}
    (onward : descriptor.continuation? = some extent)
    (visited : List Nat)
    (descriptors : List Descriptor) :
    reached visited (descriptor :: descriptors) =
      reached (extent.location.toNat :: visited) descriptors := by
  have hstarts : continuationStarts (descriptor :: descriptors) =
      extent.location.toNat :: continuationStarts descriptors :=
    List.filterMap_cons_some (by rw [onward]; rfl)
  rw [reached, hstarts, List.reverse_cons, List.append_assoc]
  rfl

theorem nestingDepth_of_none
    (final : descriptor.continuation? = none)
    (below rest : Forest Descriptor) :
    nestingDepth (.cons descriptor below rest) = nestingDepth rest := by
  simp only [nestingDepth, final, Option.isSome_none, Bool.false_eq_true, if_false, Nat.zero_max]

theorem nestingDepth_of_some
    {extent : ExtentPointer}
    (onward : descriptor.continuation? = some extent)
    (below rest : Forest Descriptor) :
    nestingDepth (.cons descriptor below rest) =
      max (nestingDepth below + 1) (nestingDepth rest) := by
  simp only [nestingDepth, onward, Option.isSome_some, if_true]

end Continuations

variable {image : Image}

/-- A descriptor that is parsed, if one is, tells the given sector. -/
def Tells (sector : Nat) (outcome : Except FormatFault (Option Descriptor)) : Prop :=
  ∀ descriptor, outcome = .ok (some descriptor) → descriptor.sector = sector

theorem tells_ite
    {sector : Nat}
    {condition : Prop}
    [Decidable condition]
    {first rest : Except FormatFault (Option Descriptor)}
    (hfirst : Tells sector first)
    (hrest : Tells sector rest) :
    Tells sector (if condition then first else rest) := by
  split
  · exact hfirst
  · exact hrest

theorem tells_parse?
    (tag : Tag)
    (raw : Bytes)
    (sector : Nat) :
    Tells sector (Descriptor.parse? tag raw sector) := by
  rw [Descriptor.parse?]
  -- One case for each type of descriptor, one for a blank and one for an unknown type.
  repeat' apply tells_ite
  all_goals
    intro descriptor h
    cases h
  all_goals rfl

theorem HoldsAt.sector_eq
    {sector : Nat}
    {descriptor : Descriptor}
    (h : HoldsAt image sector (some descriptor)) :
    descriptor.sector = sector := by
  obtain ⟨tag, raw, -, hparse⟩ := h
  exact tells_parse? tag raw sector descriptor hparse

/-- The descriptors of a nesting stand at the sectors that they tell. -/
theorem Nesting.holdsAt_sector
    {sectors : List Nat}
    {nesting : Forest Descriptor}
    (h : Nesting image sectors nesting)
    {descriptor : Descriptor}
    (hmem : descriptor ∈ nesting.labels) :
    HoldsAt image descriptor.sector (some descriptor) := by
  induction h with
  | ended => cases hmem
  | blank _ _ ih => exact ih hmem
  | single holds _ _ ih =>
      rcases List.mem_cons.mp hmem with rfl | hlater
      · rwa [holds.sector_eq]
      · exact ih hlater
  | continued holds _ _ _ ihInside ihLater =>
      rcases List.mem_cons.mp hmem with rfl | hmem
      · rwa [holds.sector_eq]
      · rcases List.mem_append.mp hmem with hinside | hlater
        · exact ihInside hinside
        · exact ihLater hlater

end Nesting

section Steps

variable (image : Image)

theorem eval_readVolumeDescriptor_eq_ok_iff
    (sector : Nat)
    (found : Option Descriptor) :
    image.eval (readVolumeDescriptor sector) = .ok found ↔ HoldsAt image sector found := by
  rw [readVolumeDescriptor, Image.eval_bind_eq_ok_iff]
  constructor
  · rintro ⟨⟨tag, raw⟩, hdescriptor, h⟩
    have hat := (eval_readDescriptor_eq_ok_iff image sector tag raw).mp hdescriptor
    simp only at h
    split at h
    · next hparse =>
        cases h
        exact ⟨tag, raw, hat, hparse⟩
    · cases h
  · rintro ⟨tag, raw, hat, hparse⟩
    refine ⟨(tag, raw), (eval_readDescriptor_eq_ok_iff image sector tag raw).mpr hat, ?_⟩
    simp only [hparse]
    rfl

/-- A sector is a blank, or it gives its descriptor and those in which that one goes on. -/
theorem eval_readOnward_eq_ok_iff
    (enter : ExtentPointer → List Nat → ReadM Walked)
    (sector : Nat)
    (visited : List Nat)
    (found : Walked) :
    image.eval (readOnward enter sector visited) = .ok found
      ↔
    (HoldsAt image sector none ∧ found = ([], visited)) ∨
    ∃ descriptor nested, HoldsAt image sector (some descriptor) ∧
      ((descriptor.continuation? = none ∧ nested = ([], visited)) ∨
        ∃ extent, descriptor.continuation? = some extent ∧
          image.eval (enter extent visited) = .ok nested) ∧
      found = (descriptor :: nested.1, nested.2) := by
  rw [readOnward, Image.eval_bind_eq_ok_iff]
  simp only [eval_readVolumeDescriptor_eq_ok_iff]
  constructor
  · rintro ⟨held, hheld, h⟩
    cases held with
    | none =>
        cases h
        exact Or.inl ⟨hheld, rfl⟩
    | some descriptor =>
        simp only at h
        cases hnext : descriptor.continuation? with
        | none =>
            simp only [hnext, pure_bind] at h
            cases h
            exact Or.inr ⟨descriptor, ([], visited), hheld, Or.inl ⟨hnext, rfl⟩, rfl⟩
        | some extent =>
            simp only [hnext, Image.eval_bind_eq_ok_iff] at h
            obtain ⟨nested, hnested, h⟩ := h
            cases h
            exact Or.inr ⟨descriptor, nested, hheld, Or.inr ⟨extent, hnext, hnested⟩, rfl⟩
  · rintro (⟨hblank, rfl⟩ | ⟨descriptor, nested, hheld, hnested, rfl⟩)
    · exact ⟨none, hblank, rfl⟩
    · refine ⟨some descriptor, hheld, ?_⟩
      rcases hnested with ⟨hnext, rfl⟩ | ⟨extent, hnext, hnested⟩
      · simp only [hnext, pure_bind]
        rfl
      · simp only [hnext, Image.eval_bind_eq_ok_iff]
        exact ⟨nested, hnested, rfl⟩

end Steps

section Runs

/-- The descriptors of sectors, each with those in which it goes on. -/
def readEach (enter : ExtentPointer → List Nat → ReadM Walked) :
    (sectors visited : List Nat) → ReadM Walked
  | [], visited => return ([], visited)
  | sector :: sectors, visited => do
      let (found, visited) ← readOnward enter sector visited
      let (later, visited) ← readEach enter sectors visited
      return (found ++ later, visited)

variable (enter : ExtentPointer → List Nat → ReadM Walked)

/--
A run goes over the sectors behind which another one begins before the byte at which it stops, and
over one sector more.
-/
theorem readRun_eq_readEach
    (stop : Option Nat)
    (count : Nat)
    {sector : Nat}
    (hmore : ∀ index < count, stop.any fun stop => sectorStart (sector + index + 1) < stop)
    (hends : ¬ stop.any fun stop => sectorStart (sector + count + 1) < stop)
    (visited : List Nat) :
    readRun enter stop sector visited =
      readEach enter (List.range' sector (count + 1)) visited := by
  induction count generalizing sector visited with
  | zero =>
      rw [Nat.add_zero] at hends
      rw [readRun, List.range'_one, readEach]
      simp only [if_neg hends, readEach, pure_bind, List.append_nil]
  | succ count ih =>
      have hfirst := hmore 0 (Nat.succ_pos count)
      have hnext : readRun enter stop (sector + 1) =
          readEach enter (List.range' (sector + 1) (count + 1)) := by
        funext visited
        apply ih
        · intro index hindex
          rw [Nat.add_right_comm sector 1 index, Nat.add_assoc sector]
          exact hmore (index + 1) (Nat.succ_lt_succ hindex)
        · rwa [Nat.add_right_comm sector 1 count]
      rw [readRun, List.range'_succ, readEach]
      simp only [if_pos hfirst, hnext]

/-- Where a run does not stop at a byte it goes over one sector. -/
theorem readRun_none
    (sector : Nat) :
    readRun enter none sector = readEach enter [sector] := by
  funext visited
  exact readRun_eq_readEach enter none 0 (fun _ h => absurd h (Nat.not_lt_zero _))
    Bool.false_ne_true visited

/-- Up to the last byte of an extent a run goes over the sectors of the extent. -/
theorem readRun_extent
    (extent : ExtentPointer) :
    readRun enter extent.endByte extent.location.toNat = readEach enter extent.sectors := by
  obtain ⟨count, hcount⟩ : ∃ count, max 1 ((extent.length.toNat + 2047) / 2048) = count + 1 :=
    Nat.exists_eq_succ_of_ne_zero (by omega)
  funext visited
  rw [ExtentPointer.sectors, hcount]
  apply readRun_eq_readEach
  all_goals
    simp only [Option.any_some, decide_eq_true_eq]
    simp only [ExtentPointer.endByte, sectorStart, sectorSize]
    omega

/-- The sequence of an extent, given how many levels of nesting are left. -/
def enterExtent (levels : Nat) (extent : ExtentPointer) : List Nat → ReadM Walked :=
  readSequence levels extent.location.toNat extent.endByte

/-- A sequence that begins anew is read sector by sector. -/
theorem enterExtent_succ
    (levels : Nat)
    (extent : ExtentPointer)
    {visited : List Nat}
    (hnew : extent.location.toNat ∉ visited) :
    enterExtent (levels + 1) extent visited =
      readEach (enterExtent levels) extent.sectors (extent.location.toNat :: visited) := by
  rw [enterExtent, readSequence, if_neg hnew]
  exact congrFun (readRun_extent (enterExtent levels) extent) _

theorem enterExtent_of_mem
    (levels : Nat)
    (extent : ExtentPointer)
    {visited : List Nat}
    (hold : extent.location.toNat ∈ visited) :
    enterExtent (levels + 1) extent visited =
      throw (.format (.descriptorLoop extent.location.toNat)) := by
  rw [enterExtent, readSequence, if_pos hold]

/-- The sector of an anchor is a sequence of its own. -/
theorem readSequence_anchor
    (levels anchor : Nat) :
    readSequence (levels + 1) anchor none [] = readEach (enterExtent levels) [anchor] [anchor] := by
  rw [readSequence, if_neg List.not_mem_nil]
  exact congrFun (readRun_none (enterExtent levels) anchor) _

variable (image : Image)

theorem eval_readEach_cons_eq_ok_iff
    (sector : Nat)
    (sectors visited : List Nat)
    (walked : Walked) :
    image.eval (readEach enter (sector :: sectors) visited) = .ok walked
      ↔
    ∃ found later, image.eval (readOnward enter sector visited) = .ok found ∧
      image.eval (readEach enter sectors found.2) = .ok later ∧
      walked = (found.1 ++ later.1, later.2) := by
  rw [readEach, Image.eval_bind_eq_ok_iff]
  simp only [Image.eval_bind_eq_ok_iff]
  constructor
  · rintro ⟨found, hfound, later, hlater, h⟩
    cases h
    exact ⟨found, later, hfound, hlater, rfl⟩
  · rintro ⟨found, later, hfound, hlater, rfl⟩
    exact ⟨found, hfound, later, hlater, rfl⟩

theorem eval_enterExtent_succ_eq_ok_iff
    (levels : Nat)
    (extent : ExtentPointer)
    (visited : List Nat)
    (walked : Walked) :
    image.eval (enterExtent (levels + 1) extent visited) = .ok walked
      ↔
    extent.location.toNat ∉ visited ∧
      image.eval (readEach (enterExtent levels) extent.sectors
        (extent.location.toNat :: visited)) = .ok walked := by
  by_cases hold : extent.location.toNat ∈ visited
  · rw [enterExtent_of_mem levels extent hold]
    constructor
    · intro h
      cases h
    · rintro ⟨hnew, -⟩
      exact absurd hold hnew
  · rw [enterExtent_succ levels extent hold]
    exact ⟨fun h => ⟨hold, h⟩, fun h => h.2⟩

end Runs

section Walks

/--
A walk over sectors comes to the nesting that they hold, given the levels of nesting that are left
and the sectors at which sequences began before it.
-/
def WalksTo
    (image : Image)
    (levels : Nat)
    (visited sectors : List Nat)
    (walked : Walked) : Prop :=
  ∃ nesting,
    Nesting image sectors nesting ∧
    nestingDepth nesting ≤ levels ∧
    walked = (nesting.labels, reached visited nesting.labels) ∧
    walked.2.Nodup

variable {image : Image}
variable {levels : Nat}
variable {visited : List Nat}

theorem WalksTo.nodup
    {sectors : List Nat}
    {walked : Walked}
    (h : WalksTo image levels visited sectors walked) :
    walked.2.Nodup := by
  obtain ⟨_, _, _, _, hdistinct⟩ := h
  exact hdistinct

theorem WalksTo.ended
    (h : visited.Nodup) :
    WalksTo image levels visited [] ([], visited) :=
  ⟨.nil, .ended, Nat.zero_le levels, rfl, h⟩

theorem WalksTo.blank
    {sector : Nat}
    {sectors : List Nat}
    {walked : Walked}
    (holds : HoldsAt image sector none)
    (later : WalksTo image levels visited sectors walked) :
    WalksTo image levels visited (sector :: sectors) walked := by
  obtain ⟨rest, hrest, hlater⟩ := later
  exact ⟨rest, .blank holds hrest, hlater⟩

theorem WalksTo.single
    {sector : Nat}
    {sectors : List Nat}
    {descriptor : Descriptor}
    {walked : Walked}
    (holds : HoldsAt image sector (some descriptor))
    (final : descriptor.continuation? = none)
    (later : WalksTo image levels visited sectors walked) :
    WalksTo image levels visited (sector :: sectors) (descriptor :: walked.1, walked.2) := by
  obtain ⟨rest, hrest, hdepth, rfl, hdistinct⟩ := later
  refine ⟨.cons descriptor .nil rest, .single holds final hrest, ?_, ?_, hdistinct⟩
  · rwa [nestingDepth_of_none final]
  · rw [Forest.labels, reached_cons_of_none final]
    rfl

/-- The walk of the sequence in which a descriptor goes on comes before that of its own one. -/
theorem WalksTo.continued
    {sector : Nat}
    {sectors : List Nat}
    {descriptor : Descriptor}
    {extent : ExtentPointer}
    {nested walked : Walked}
    (holds : HoldsAt image sector (some descriptor))
    (onward : descriptor.continuation? = some extent)
    (inside : WalksTo image levels (extent.location.toNat :: visited) extent.sectors nested)
    (later : WalksTo image (levels + 1) nested.2 sectors walked) :
    WalksTo image (levels + 1) visited (sector :: sectors)
      (descriptor :: nested.1 ++ walked.1, walked.2) := by
  obtain ⟨below, hbelow, hinside, rfl, -⟩ := inside
  obtain ⟨rest, hrest, hlater, rfl, hdistinct⟩ := later
  refine ⟨.cons descriptor below rest, .continued holds onward hbelow hrest, ?_, ?_, hdistinct⟩
  · rw [nestingDepth_of_some onward]
    exact Nat.max_le.mpr ⟨Nat.succ_le_succ hinside, hlater⟩
  · rw [Forest.labels, reached_cons_of_some onward, reached_append]
    rfl

/-- A walk over sectors comes to their nesting, if the sequences that it enters do. -/
theorem walksTo_of_eval_readEach
    {enter : ExtentPointer → List Nat → ReadM Walked}
    (henter : ∀ extent visited nested, visited.Nodup →
      image.eval (enter extent visited) = .ok nested →
      ∃ deeper, levels = deeper + 1 ∧
        WalksTo image deeper (extent.location.toNat :: visited) extent.sectors nested)
    {sectors : List Nat}
    {walked : Walked}
    (hvisited : visited.Nodup)
    (h : image.eval (readEach enter sectors visited) = .ok walked) :
    WalksTo image levels visited sectors walked := by
  induction sectors generalizing visited walked with
  | nil =>
      cases h
      exact .ended hvisited
  | cons sector sectors ih =>
      obtain ⟨found, later, hfound, hlater, rfl⟩ :=
        (eval_readEach_cons_eq_ok_iff enter image sector sectors visited walked).mp h
      rcases (eval_readOnward_eq_ok_iff image enter sector visited found).mp hfound with
        ⟨holds, rfl⟩ | ⟨descriptor, nested, holds, hnested, rfl⟩
      · exact .blank holds (ih hvisited hlater)
      · rcases hnested with ⟨final, rfl⟩ | ⟨extent, onward, hnested⟩
        · exact .single holds final (ih hvisited hlater)
        · obtain ⟨deeper, rfl, hinside⟩ := henter extent visited nested hvisited hnested
          exact .continued holds onward hinside (ih hinside.nodup hlater)

/-- A sequence that is read comes to the nesting of its sectors. -/
theorem walksTo_of_eval_enterExtent
    {extent : ExtentPointer}
    {walked : Walked}
    (hvisited : visited.Nodup)
    (h : image.eval (enterExtent levels extent visited) = .ok walked) :
    ∃ deeper, levels = deeper + 1 ∧
      WalksTo image deeper (extent.location.toNat :: visited) extent.sectors walked := by
  induction levels generalizing extent visited walked with
  | zero => cases h
  | succ levels ih =>
      obtain ⟨hnew, heach⟩ :=
        (eval_enterExtent_succ_eq_ok_iff image levels extent visited walked).mp h
      refine ⟨levels, rfl, walksTo_of_eval_readEach ?_ (List.nodup_cons.mpr ⟨hnew, hvisited⟩) heach⟩
      exact fun extent visited nested hdistinct hnested => ih hdistinct hnested

/-- The sectors of a nesting are read, if it is shallow and its sequences begin apart. -/
theorem eval_readEach_of_nesting
    {sectors : List Nat}
    {nesting : Forest Descriptor}
    (h : Nesting image sectors nesting)
    (hshallow : nestingDepth nesting ≤ levels)
    (hdistinct : (reached visited nesting.labels).Nodup) :
    image.eval (readEach (enterExtent levels) sectors visited) =
      .ok (nesting.labels, reached visited nesting.labels) := by
  induction h generalizing levels visited with
  | ended => rfl
  | blank holds _ ih =>
      have hfound := (eval_readOnward_eq_ok_iff image (enterExtent levels) _ visited _).mpr
        (Or.inl ⟨holds, rfl⟩)
      exact (eval_readEach_cons_eq_ok_iff _ image _ _ _ _).mpr
        ⟨_, _, hfound, ih hshallow hdistinct, rfl⟩
  | @single sector _ descriptor rest holds final _ ih =>
      rw [nestingDepth_of_none final] at hshallow
      rw [Forest.labels, reached_cons_of_none final] at hdistinct ⊢
      have hfound := (eval_readOnward_eq_ok_iff image (enterExtent levels) _ visited _).mpr
        (Or.inr ⟨descriptor, ([], visited), holds, Or.inl ⟨final, rfl⟩, rfl⟩)
      exact (eval_readEach_cons_eq_ok_iff _ image _ _ _ _).mpr
        ⟨_, _, hfound, ih hshallow hdistinct, rfl⟩
  | @continued sector _ descriptor extent below rest holds onward _ _ ihInside ihLater =>
      rw [nestingDepth_of_some onward] at hshallow
      rw [Forest.labels, reached_cons_of_some onward, reached_append] at hdistinct ⊢
      obtain ⟨hinside, hlater⟩ := Nat.max_le.mp hshallow
      cases levels with
      | zero => cases hinside
      | succ levels =>
          -- What has begun by the end of the inner sequence has also begun by the end of all.
          have hbegun : (reached (extent.location.toNat :: visited) below.labels).Nodup :=
            (List.nodup_append.mp hdistinct).2.1
          have hnew := List.nodup_cons.mp (List.nodup_append.mp hbegun).2.1
          have hnested := (eval_enterExtent_succ_eq_ok_iff image levels extent visited _).mpr
            ⟨hnew.1, ihInside (Nat.le_of_succ_le_succ hinside) hbegun⟩
          have hfound := (eval_readOnward_eq_ok_iff image _ _ visited _).mpr
            (Or.inr ⟨descriptor, _, holds, Or.inr ⟨extent, onward, hnested⟩, rfl⟩)
          exact (eval_readEach_cons_eq_ok_iff _ image _ _ _ _).mpr
            ⟨_, _, hfound, ihLater hlater hdistinct, rfl⟩

end Walks

section Volumes

/-- A volume lists the nesting that begins at the first anchor of an image. -/
structure Volume.Lists
    (volume : Volume)
    (image : Image)
    (anchor : Nat)
    (nesting : Forest Descriptor) : Prop where
  anchors : volume.anchors = anchorsOf image
  first : volume.anchors.head? = some anchor
  /-- The sector of the anchor is a sequence of its own. -/
  holds : Nesting image [anchor] nesting
  shallow : nestingDepth nesting ≤ maxNesting
  distinct : (anchor :: continuationStarts nesting.labels).Nodup
  descriptors : volume.descriptors = nesting.labels

variable {image : Image}
variable {volume : Volume}

theorem exists_lists_of_eval_read
    (h : image.eval Volume.read = .ok volume) :
    ∃ anchor nesting, volume.Lists image anchor nesting := by
  rw [Volume.read, Image.eval_bind_eq_ok_iff] at h
  obtain ⟨anchors, hprobe, h⟩ := h
  rw [eval_probe] at hprobe
  cases anchors with
  | nil => cases h
  | cons anchor others =>
      simp only [Image.eval_bind_eq_ok_iff] at h
      obtain ⟨walked, hwalked, h⟩ := h
      cases h
      rw [readSequence_anchor] at hwalked
      obtain ⟨nesting, hnesting, hdepth, rfl, hdistinct⟩ :=
        walksTo_of_eval_readEach (fun _ _ _ => walksTo_of_eval_enterExtent)
          (List.nodup_cons.mpr ⟨List.not_mem_nil, .nil⟩) hwalked
      refine ⟨anchor, nesting, (Except.ok.inj hprobe).symm, rfl, hnesting, hdepth, ?_, rfl⟩
      exact (nodup_reached_iff anchor nesting.labels).mp hdistinct

theorem Volume.Lists.eval_read
    {anchor : Nat}
    {nesting : Forest Descriptor}
    (h : volume.Lists image anchor nesting) :
    image.eval Volume.read = .ok volume := by
  have hwalked : image.eval (readSequence (maxNesting + 1) anchor none []) =
      .ok (nesting.labels, reached [anchor] nesting.labels) := by
    rw [readSequence_anchor]
    exact eval_readEach_of_nesting h.holds h.shallow
      ((nodup_reached_iff anchor nesting.labels).mpr h.distinct)
  rw [Volume.read, Image.eval_bind_eq_ok_iff]
  refine ⟨volume.anchors, h.anchors ▸ eval_probe image, ?_⟩
  obtain ⟨others, hothers⟩ := List.head?_eq_some_iff.mp h.first
  simp only [hothers, Image.eval_bind_eq_ok_iff]
  refine ⟨_, hwalked, ?_⟩
  rw [← h.descriptors, ← hothers]
  rfl

end Volumes

end Udf
end Optical
