import Mathlib.Algebra.BigOperators.Group.List.Basic
import Mathlib.Algebra.GroupWithZero.Nat
import Mathlib.Data.List.InsertIdx
import Mathlib.Data.List.Nodup
import Optical.Proofs.Udf.Sequences

/-!
# Anchors

Four sectors may hold an anchor: two that are counted from the start of the medium and two that are
counted from its end. On a small medium some of them are the same or do not exist. The search looks
at each of them once and gives those that hold an anchor, whatever the medium holds elsewhere.

The tag of an anchor has a checksum, the sum of its other bytes modulo 256. The sum is different
once one of the bytes is different, so an anchor with a single damaged byte is never taken for an
anchor.

* isAnchor_iff says byte by byte what the search takes for an anchor;
* not_holdsAnchor_setIfInBounds is about damaged anchors;
* anchorCandidates_eq and pairwise_firstOccurrences are about the order of the search;
* eval_probe_exact is about the search as a whole.
-/

namespace Optical
namespace Udf

section Tags

/-- A byte of the tag at a sector, as a number. -/
def tagByte (image : Image) (sector index : Nat) : Nat :=
  (image[sectorStart sector + index]?.getD 0).toNat

/--
A sector begins with the tag of an anchor: the medium has all sixteen bytes, the identifier is 2,
the sum of the bytes but the fifth is the fifth modulo 256, and the location is the sector itself.
-/
def HoldsAnchor (image : Image) (sector : Nat) : Prop :=
  sectorStart sector + 16 ≤ image.size ∧
  tagByte image sector 0 + 256 * tagByte image sector 1 = 2 ∧
  (((List.range 16).erase 4).map (tagByte image sector)).sum % 256 = tagByte image sector 4 ∧
  tagByte image sector 12 + 256 * tagByte image sector 13 + 65536 * tagByte image sector 14 +
    16777216 * tagByte image sector 15 = sector

theorem toNat_foldl_add
    (bytes : Bytes)
    (start : UInt8) :
    (bytes.foldl (· + ·) start).toNat = (start.toNat + (bytes.map UInt8.toNat).sum) % 256 := by
  induction bytes generalizing start with
  | nil =>
      have hsmall := start.toNat_lt
      simp only [List.foldl_nil, List.map_nil, List.sum_nil]
      omega
  | cons b bytes ih =>
      rw [List.foldl_cons, ih, List.map_cons, List.sum_cons, UInt8.toNat_add]
      omega

theorem map_range_byteAt
    {raw : Bytes}
    {count : Nat}
    (h : raw.length = count) :
    (List.range count).map raw.byteAt = raw := by
  subst h
  refine List.ext_getElem (by rw [List.length_map, List.length_range]) ?_
  intro index _ hindex
  rw [List.getElem_map, List.getElem_range, Bytes.byteAt_eq, List.getElem?_eq_getElem hindex,
    Option.getD_some]

theorem toNat_checksumOf
    {raw : Bytes}
    (h : raw.length = 16) :
    (Tag.checksumOf raw).toNat =
      (((List.range 16).erase 4).map fun index => (raw.byteAt index).toNat).sum % 256 := by
  have hplaces : (List.range 16).eraseIdx 4 = (List.range 16).erase 4 := by decide
  have hothers : raw.eraseIdx 4 = ((List.range 16).erase 4).map raw.byteAt := by
    rw [← hplaces, ← List.eraseIdx_map, map_range_byteAt h]
  rw [Tag.checksumOf, Tag.size, List.take_of_length_le (Nat.le_of_eq h), hothers]
  rw [toNat_foldl_add, List.map_map]
  exact congrArg (· % 256) (Nat.zero_add _)

variable {image : Image}
variable {sector : Nat}

theorem toNat_byteAt_part
    {index : Nat}
    (h : index < 16) :
    ((image.part (sectorStart sector) 16).byteAt index).toNat = tagByte image sector index := by
  rw [Bytes.byteAt_eq, Image.part_getElem?, if_pos h, tagByte]

theorem littleEndian_part_two :
    (image.part (sectorStart sector) 16).littleEndian 0 2 =
      tagByte image sector 0 + 256 * tagByte image sector 1 := by
  simp only [Bytes.littleEndian, Nat.reduceAdd]
  rw [toNat_byteAt_part (by decide), toNat_byteAt_part (by decide)]
  omega

theorem littleEndian_part_four :
    (image.part (sectorStart sector) 16).littleEndian 12 4 =
      tagByte image sector 12 + 256 * tagByte image sector 13 + 65536 * tagByte image sector 14 +
        16777216 * tagByte image sector 15 := by
  simp only [Bytes.littleEndian, Nat.reduceAdd]
  rw [toNat_byteAt_part (by decide), toNat_byteAt_part (by decide),
    toNat_byteAt_part (by decide), toNat_byteAt_part (by decide)]
  omega

theorem isAnchor_iff :
    IsAnchor image sector ↔ HoldsAnchor image sector := by
  rw [IsAnchor, HoldsAnchor]
  refine and_congr_right fun hinside => ?_
  have hlength : (image.part (sectorStart sector) 16).length = 16 := by
    rw [Image.part_length]
    exact Nat.min_eq_left (Nat.le_sub_of_add_le' hinside)
  have hothers :
      (((List.range 16).erase 4).map fun index =>
          ((image.part (sectorStart sector) 16).byteAt index).toNat) =
        ((List.range 16).erase 4).map (tagByte image sector) :=
    List.map_congr_left fun index hindex =>
      toNat_byteAt_part (List.mem_range.mp (List.mem_of_mem_erase hindex))
  simp only [Tag.isValidAt, Tag.parse, Tag.checksumHolds, Tag.size, Tag.anchorPointer,
    Bool.and_eq_true, beq_iff_eq, decide_eq_true_eq, ← UInt8.toNat_inj, ← UInt16.toNat_inj,
    Bytes.toNat_u16, Bytes.toNat_u32, toNat_checksumOf hlength, hothers, hlength]
  rw [littleEndian_part_two, littleEndian_part_four, toNat_byteAt_part (by decide)]
  constructor
  · rintro ⟨⟨hfirst, -, hsum⟩, hlast⟩
    exact ⟨hfirst, hsum, hlast⟩
  · rintro ⟨hfirst, hsum, hlast⟩
    exact ⟨⟨hfirst, Nat.le_refl 16, hsum⟩, hlast⟩

end Tags

section Damage

variable {image : Image}
variable {sector : Nat}

/-- One changed term below 256 changes a sum modulo 256. -/
theorem sum_mod_ne
    {places : List Nat}
    {changed : Nat}
    (hchanged : changed ∈ places)
    (hnodup : places.Nodup)
    {f g : Nat → Nat}
    (hothers : ∀ index ≠ changed, f index = g index)
    (hf : f changed < 256)
    (hg : g changed < 256)
    (hne : f changed ≠ g changed) :
    (places.map f).sum % 256 ≠ (places.map g).sum % 256 := by
  have hrest : (places.erase changed).map f = (places.erase changed).map g :=
    List.map_congr_left fun index hindex => hothers index ((hnodup.mem_erase_iff.mp hindex).1)
  rw [← List.sum_map_erase f hchanged, ← List.sum_map_erase g hchanged, hrest]
  omega

theorem tagByte_lt (index : Nat) :
    tagByte image sector index < 256 :=
  UInt8.toNat_lt _

variable {changed : Nat}
variable (b : UInt8)

theorem tagByte_setIfInBounds_of_ne
    {other index : Nat}
    (h : sectorStart other + index ≠ sectorStart sector + changed) :
    tagByte (image.setIfInBounds (sectorStart sector + changed) b) other index =
      tagByte image other index := by
  rw [tagByte, tagByte, Array.getElem?_setIfInBounds_ne h.symm]

theorem tagByte_setIfInBounds_self
    (h : sectorStart sector + changed < image.size) :
    tagByte (image.setIfInBounds (sectorStart sector + changed) b) sector changed = b.toNat := by
  rw [tagByte, Array.getElem?_setIfInBounds_self_of_lt h, Option.getD_some]

theorem holdsAnchor_setIfInBounds_of_ne
    (hchanged : changed < 16)
    {other : Nat}
    (hother : other ≠ sector) :
    HoldsAnchor (image.setIfInBounds (sectorStart sector + changed) b) other
      ↔
    HoldsAnchor image other := by
  have hbyte : ∀ index < 16,
      tagByte (image.setIfInBounds (sectorStart sector + changed) b) other index =
        tagByte image other index := by
    intro index hindex
    apply tagByte_setIfInBounds_of_ne
    -- A tag is shorter than a sector, so two tags have no byte in common.
    rw [sectorStart, sectorStart, sectorSize]
    omega
  have hsum := List.map_congr_left (l := (List.range 16).erase 4) fun index hindex =>
    hbyte index (List.mem_range.mp (List.mem_of_mem_erase hindex))
  rw [HoldsAnchor, HoldsAnchor, Array.size_setIfInBounds, hsum]
  rw [hbyte 0 (by decide), hbyte 1 (by decide), hbyte 4 (by decide), hbyte 12 (by decide),
    hbyte 13 (by decide), hbyte 14 (by decide), hbyte 15 (by decide)]

/-- An anchor in which one byte is changed is no anchor. -/
theorem not_holdsAnchor_setIfInBounds
    (h : HoldsAnchor image sector)
    (hchanged : changed < 16)
    (hb : image[sectorStart sector + changed]? ≠ some b) :
    ¬ HoldsAnchor (image.setIfInBounds (sectorStart sector + changed) b) sector := by
  obtain ⟨hinside, -, hsum, -⟩ := h
  rintro ⟨-, -, hsumAfter, -⟩
  have hplace : sectorStart sector + changed < image.size := by omega
  have hself := tagByte_setIfInBounds_self b hplace
  have hothers : ∀ index ≠ changed,
      tagByte image sector index =
        tagByte (image.setIfInBounds (sectorStart sector + changed) b) sector index :=
    fun index hindex => (tagByte_setIfInBounds_of_ne b (by omega)).symm
  have hne : tagByte image sector changed ≠ b.toNat := by
    intro heq
    rw [tagByte, Array.getElem?_eq_getElem hplace, Option.getD_some, UInt8.toNat_inj] at heq
    exact hb (by rw [Array.getElem?_eq_getElem hplace, heq])
  by_cases hfifth : changed = 4
  · -- The checksum is changed, and the sum is not.
    subst hfifth
    have hrest := List.map_congr_left (l := (List.range 16).erase 4) fun index hindex =>
      hothers index ((List.nodup_range.mem_erase_iff.mp hindex).1)
    rw [hself, ← hrest, hsum] at hsumAfter
    exact hne hsumAfter
  · -- The sum is changed, and the checksum is not.
    have hmem : changed ∈ (List.range 16).erase 4 :=
      List.nodup_range.mem_erase_iff.mpr ⟨hfifth, List.mem_range.mpr hchanged⟩
    refine sum_mod_ne hmem (List.nodup_range.erase 4) hothers (tagByte_lt changed)
      (tagByte_lt changed) (by rwa [hself]) ?_
    rw [hsum, hsumAfter]
    exact hothers 4 (Ne.symm hfifth)

end Damage

section Order

theorem mem_firstOccurrences
    (place : Nat)
    (places : List Nat) :
    place ∈ firstOccurrences places ↔ place ∈ places := by
  induction places with
  | nil => exact Iff.rfl
  | cons first places ih =>
      rw [firstOccurrences, List.mem_cons, List.mem_cons, List.mem_filter, ih, bne_iff_ne]
      constructor
      · rintro (hfirst | ⟨hlater, -⟩)
        · exact Or.inl hfirst
        · exact Or.inr hlater
      · rintro (hfirst | hlater)
        · exact Or.inl hfirst
        · exact (eq_or_ne place first).imp_right fun hne => ⟨hlater, hne⟩

theorem pairwise_firstOccurrences (places : List Nat) :
    (firstOccurrences places).Pairwise fun first second =>
      places.idxOf first < places.idxOf second := by
  induction places with
  | nil => exact .nil
  | cons place places ih =>
      have hlater : ∀ {other}, other ∈ (firstOccurrences places).filter (· != place) →
          (place :: places).idxOf other = places.idxOf other + 1 := by
        intro other hother
        have hne : other ≠ place := bne_iff_ne.mp (List.mem_filter.mp hother).2
        exact List.idxOf_cons_ne places hne.symm
      rw [firstOccurrences, List.pairwise_cons]
      constructor
      · intro other hother
        rw [List.idxOf_cons_self, hlater hother]
        exact Nat.succ_pos _
      · refine (ih.filter (· != place)).imp_of_mem ?_
        intro first second hfirst hsecond hbefore
        rw [hlater hfirst, hlater hsecond]
        exact Nat.succ_lt_succ hbefore

/--
The sectors that may hold an anchor: 32, 256, and on a medium that is large enough the 257th sector
from the end and the last one. A part of a sector at the end is no sector.
-/
def anchorPlaces (size : Nat) : List Nat :=
  let last := size / 2048 - 1
  [32, 256] ++ (if 257 * 2048 ≤ size then [last - 256] else []) ++
    (if 2048 ≤ size then [last] else [])

theorem anchorCandidates_eq (size : Nat) :
    anchorCandidates (size / sectorSize) = firstOccurrences (anchorPlaces size) := by
  rw [anchorCandidates, anchorPlaces, earlyAnchorSector, anchorSector, sectorSize]
  by_cases hnone : size < 2048
  · rw [if_pos (by omega), if_neg (by omega), if_neg (by omega)]
    rfl
  · simp only [if_neg (show ¬ size / 2048 = 0 by omega), if_pos (show 2048 ≤ size by omega)]
    by_cases hfew : size < 257 * 2048
    · rw [if_pos (by omega), if_neg (by omega)]
      rfl
    · rw [if_neg (by omega), if_pos (by omega)]
      rfl

end Order

section Search

variable (image : Image)

theorem mem_anchorsOf_iff (sector : Nat) :
    sector ∈ anchorsOf image ↔ sector ∈ anchorPlaces image.size ∧ HoldsAnchor image sector := by
  rw [anchorsOf, List.mem_filter, anchorCandidates_eq, mem_firstOccurrences, decide_eq_true_iff,
    isAnchor_iff]

theorem pairwise_anchorsOf :
    (anchorsOf image).Pairwise fun first second =>
      (anchorPlaces image.size).idxOf first < (anchorPlaces image.size).idxOf second := by
  rw [anchorsOf, anchorCandidates_eq]
  exact (pairwise_firstOccurrences _).filter _

theorem anchorsOf_setIfInBounds
    {sector changed : Nat}
    (h : HoldsAnchor image sector)
    (hchanged : changed < 16)
    {b : UInt8}
    (hb : image[sectorStart sector + changed]? ≠ some b) :
    anchorsOf (image.setIfInBounds (sectorStart sector + changed) b) =
      (anchorsOf image).filter (· ≠ sector) := by
  rw [anchorsOf, anchorsOf, Array.size_setIfInBounds, List.filter_filter]
  refine List.filter_congr fun other _ => ?_
  rw [← Bool.decide_and, decide_eq_decide, isAnchor_iff, isAnchor_iff]
  by_cases hother : other = sector
  · subst hother
    constructor
    · exact fun hafter => absurd hafter (not_holdsAnchor_setIfInBounds b h hchanged hb)
    · exact fun hafter => absurd rfl hafter.1
  · rw [holdsAnchor_setIfInBounds_of_ne b hchanged hother]
    exact (and_iff_right hother).symm

/--
The search for anchors succeeds on every medium. It gives each place of an anchor that holds one,
once and in the order of the places. One changed byte in the tag of an anchor takes that anchor out
of the result, and no other.
-/
theorem eval_probe_exact :
    ∃ anchors : List Nat,
      image.eval probe = .ok anchors ∧
      (∀ sector, sector ∈ anchors ↔
        sector ∈ anchorPlaces image.size ∧ HoldsAnchor image sector) ∧
      anchors.Nodup ∧
      (anchors.Pairwise fun first second =>
        (anchorPlaces image.size).idxOf first < (anchorPlaces image.size).idxOf second) ∧
      ∀ sector ∈ anchors, ∀ changed < 16, ∀ b : UInt8,
        image[sectorStart sector + changed]? ≠ some b →
        Image.eval (image.setIfInBounds (sectorStart sector + changed) b) probe =
          .ok (anchors.filter (· ≠ sector)) := by
  refine ⟨anchorsOf image, eval_probe image, mem_anchorsOf_iff image, ?_, pairwise_anchorsOf image,
    ?_⟩
  · exact (pairwise_anchorsOf image).imp fun hbefore heq => absurd (heq ▸ hbefore) (Nat.lt_irrefl _)
  · intro sector hsector changed hchanged b hb
    have hanchor := ((mem_anchorsOf_iff image sector).mp hsector).2
    rw [eval_probe, anchorsOf_setIfInBounds image hanchor hchanged hb]

/-- A medium of a single sector that holds an anchor. -/
def singleAnchor : Image :=
  ([2, 0, 0, 0, 2] ++ List.replicate 2043 0 : Bytes).toArray

/-- A medium of a single sector has its only anchor there, until the eighth byte becomes nine. -/
theorem eval_probe_exact_single :
    singleAnchor.eval probe = .ok [0] ∧
      Image.eval (singleAnchor.setIfInBounds 7 9) probe = .ok [] := by
  have hsize : singleAnchor.size = 2048 := by
    rw [singleAnchor, List.size_toArray, List.length_append, List.length_replicate]
    rfl
  have hholds : HoldsAnchor singleAnchor 0 :=
    ⟨by rw [hsize]; decide, by decide +kernel, by decide +kernel, by decide +kernel⟩
  obtain ⟨anchors, hprobe, hmem, hnodup, -, hdamaged⟩ := eval_probe_exact singleAnchor
  have honly : ∀ sector, sector ∈ anchors ↔ sector ∈ [0] := by
    intro sector
    rw [hmem, hsize, List.mem_singleton]
    constructor
    · rintro ⟨hplace, hinside, -⟩
      rw [hsize, sectorStart, sectorSize] at hinside
      omega
    · rintro rfl
      exact ⟨by decide, hholds⟩
  have hanchors : anchors = [0] :=
    List.perm_singleton.mp ((List.perm_ext_iff_of_nodup hnodup (List.nodup_singleton 0)).mpr honly)
  subst hanchors
  exact ⟨hprobe, hdamaged 0 (List.mem_singleton_self 0) 7 (by decide) 9 (by decide +kernel)⟩

end Search

end Udf
end Optical
