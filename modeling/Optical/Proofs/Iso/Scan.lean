import Optical.Iso.Volume
import Optical.Proofs.Image.Sectors

/-!
# The scan of the volume descriptors

A scan goes on from one sector to the next as long as it can, and what stops it is partly told by the
sectors that it has passed: a primary descriptor announces the path tables, and the scan does not
reach them. So the limit of a scan shrinks while it runs. Here the limit is left out. Whether a scan
goes on with a sector is told by the image alone, and the descriptors are those of the longest run of
such sectors.

* GoesOn says what is asked of a sector, IsRun what the run of an image is;
* AtLimit ties the limit of a running scan to what was announced before, and AtLimit.next keeps it;
* eval_scanFrom is the scan from any of its sectors on, by induction on the sectors inside the image;
* volumeRead_longest_run is the scan of an image, and of another that agrees with it on the run.
-/

namespace Optical
namespace Iso

section Runs

/-- The kind of descriptor that the first byte of a sector stands for. -/
def kindOf? (raw : Bytes) : Option VolumeKind :=
  match raw.byteAt 0 with
  | 0 => some .bootRecord
  | 1 => some .primary
  | 2 => some .enhanced
  | 3 => some .partition
  | 255 => some .terminator
  | _ => none

/-- A primary descriptor announces a path table at a sector behind the first descriptor. -/
def Announces (raw : Bytes) (table : Nat) : Prop :=
  kindOf? raw = some .primary ∧ firstDescriptorSector < table ∧
    (table = (raw.u32 140).toNat ∨ table = (raw.u32be 148).toNat)

/-- The sector lies before all path tables that are announced in the sectors before it. -/
def BeforeTables (image : Image) (sector : Nat) : Prop :=
  ∀ earlier table, firstDescriptorSector ≤ earlier → earlier < sector →
    Announces (image.sectorAt earlier) table → sector < table

/-- The scan of an image goes on with a sector. -/
structure GoesOn (image : Image) (sector : Nat) : Prop where
  inside : image.HasSector sector
  beforeTables : BeforeTables image sector
  valid : (VolumeHeader.parse (image.sectorAt sector)).isValid = true
  onward : kindOf? (image.sectorAt sector) ≠ some .terminator

/-- The longest run of sectors from the first one on with which the scan of an image goes on. -/
structure IsRun (image : Image) (count : Nat) : Prop where
  goesOn : ∀ sector, firstDescriptorSector ≤ sector → sector < firstDescriptorSector + count →
    GoesOn image sector
  stops : ¬ GoesOn image (firstDescriptorSector + count)

/-- The kinds of descriptors that are listed: tables of contents and partitions. -/
def isListed : VolumeKind → Bool
  | .primary | .enhanced | .partition => true
  | .bootRecord | .terminator => false

/-- A sector with its kind, if it holds a descriptor that is listed. -/
def listed? (image : Image) (sector : Nat) : Option (Nat × VolumeKind) :=
  ((kindOf? (image.sectorAt sector)).filter isListed).map (sector, ·)

/-- The sectors of a run that hold descriptors that are listed, with their kinds. -/
def listedIn (image : Image) (sector count : Nat) : List (Nat × VolumeKind) :=
  (List.range' sector count).filterMap (listed? image)

/-- The descriptors in some sectors, given the index of the first. -/
def describe (image : Image) (index : Nat) (found : List (Nat × VolumeKind)) :
    List VolumeDescriptor :=
  (found.zipIdx index).map fun place =>
    .parse (image.sectorAt place.1.1) place.1.2 place.2 place.1.1

end Runs

section Steps

/-- The kind of a sector is the one that its header tells. -/
theorem kindOf?_eq
    (raw : Bytes) :
    kindOf? raw = VolumeKind.ofByte? (VolumeHeader.parse raw).typeCode := by
  rw [VolumeHeader.parse, kindOf?, VolumeKind.ofByte?]
  split
  all_goals simp_all

theorem scanStep_eq_stop_iff
    (raw : Bytes) :
    scanStep raw = .stop
      ↔
    ¬ ((VolumeHeader.parse raw).isValid = true ∧ kindOf? raw ≠ some .terminator) := by
  rw [scanStep, kindOf?_eq]
  cases (VolumeHeader.parse raw).isValid with
  | false => simp
  | true =>
      cases VolumeKind.ofByte? (VolumeHeader.parse raw).typeCode with
      | none => simp
      | some kind => cases kind <;> simp

/-- A sector that does not stop the scan is kept if its descriptor is listed. -/
theorem scanStep_of_goesOn
    {raw : Bytes}
    (hvalid : (VolumeHeader.parse raw).isValid = true)
    (honward : kindOf? raw ≠ some .terminator) :
    scanStep raw = ((kindOf? raw).filter isListed).elim .skip .keep := by
  rw [scanStep, hvalid]
  rw [kindOf?_eq] at honward ⊢
  cases hkind : VolumeKind.ofByte? (VolumeHeader.parse raw).typeCode with
  | none => rfl
  | some kind =>
      cases kind with
      | terminator => exact absurd hkind honward
      | bootRecord | primary | enhanced | partition => rfl

/-- A number is below a bound and the least of some numbers if it is below all of them. -/
theorem lt_elim_min?_iff
    (numbers : List Nat)
    (bound number : Nat) :
    number < numbers.min?.elim bound (min bound)
      ↔
    number < bound ∧ ∀ other ∈ numbers, number < other := by
  cases hmin : numbers.min? with
  | none =>
      rw [List.min?_eq_none_iff.mp hmin]
      simp
  | some least =>
      obtain ⟨hmem, hleast⟩ := List.min?_eq_some_iff.mp hmin
      rw [Option.elim_some, Nat.lt_min]
      refine and_congr_right fun _ => ⟨fun h other hother => ?_, fun h => h least hmem⟩
      exact Nat.lt_of_lt_of_le h (hleast other hother)

theorem sectorStart_lt_iff
    (first second : Nat) :
    sectorStart first < sectorStart second ↔ first < second :=
  Nat.mul_lt_mul_right (by decide)

/-- After a descriptor the scan stays before the path tables that the descriptor announces. -/
theorem sectorStart_lt_limitAfter_iff
    {raw : Bytes}
    {kind : VolumeKind}
    (hkind : kindOf? raw = some kind)
    (limit index sector later : Nat) :
    sectorStart later < limitAfter limit (.parse raw kind index sector)
      ↔
    sectorStart later < limit ∧ ∀ table, Announces raw table → later < table := by
  rw [limitAfter]
  split
  · next hprimary =>
      have hraw : kindOf? raw = some .primary := hprimary ▸ hkind
      rw [VolumeDescriptor.pathTableLimit?, lt_elim_min?_iff]
      refine and_congr_right fun _ => ?_
      simp only [List.forall_mem_map, sectorStart_lt_iff, List.mem_filter, List.mem_cons,
        List.not_mem_nil, or_false, decide_eq_true_eq]
      refine forall_congr' fun table => ?_
      rw [Announces, and_iff_right hraw, and_comm]
      rfl
  · next hother =>
      refine (and_iff_left ?_).symm
      rintro table ⟨hprimary, -⟩
      rw [hkind] at hprimary
      exact absurd (Option.some.inj hprimary) hother

end Steps

section Scans

variable {image : Image}

/--
The limit of a scan that has come to a sector: of the sectors from there on that lie inside the
image, those before the limit are the ones before all path tables announced so far.
-/
def AtLimit (image : Image) (limit sector : Nat) : Prop :=
  ∀ later, sector ≤ later → image.HasSector later →
    (sectorStart later < limit ↔
      ∀ earlier table, firstDescriptorSector ≤ earlier → earlier < sector →
        Announces (image.sectorAt earlier) table → later < table)

/-- A scan begins with the end of the image as its limit. -/
theorem atLimit_first :
    AtLimit image image.size firstDescriptorSector := by
  intro later _ hinside
  rw [Image.HasSector, Image.sectorStart_succ] at hinside
  have hstart : sectorStart later < image.size :=
    Nat.lt_of_lt_of_le (Nat.lt_add_of_pos_right (by decide)) hinside
  refine iff_of_true hstart fun earlier table hfirst hearlier _ => ?_
  exact absurd hearlier (Nat.not_lt.mpr hfirst)

/-- The limit stays right if it is lowered by what the sector announces. -/
theorem AtLimit.next
    {limit lower sector : Nat}
    (h : AtLimit image limit sector)
    (hfirst : firstDescriptorSector ≤ sector)
    (hlower : ∀ later, sectorStart later < lower ↔
      sectorStart later < limit ∧ ∀ table, Announces (image.sectorAt sector) table → later < table) :
    AtLimit image lower (sector + 1) := by
  intro later hlater hinside
  rw [hlower, h later (Nat.le_of_succ_le hlater) hinside]
  constructor
  · rintro ⟨hbefore, hhere⟩ earlier table hearlier hlt hannounced
    rcases Nat.lt_succ_iff_lt_or_eq.mp hlt with hpassed | rfl
    · exact hbefore earlier table hearlier hpassed hannounced
    · exact hhere table hannounced
  · intro hall
    refine ⟨fun earlier table hearlier hlt => ?_, fun table => ?_⟩
    · exact hall earlier table hearlier (Nat.lt_succ_of_lt hlt)
    · exact hall sector table hfirst (Nat.lt_succ_self sector)

/-- What a sector adds to the descriptors, if its scan goes on. -/
theorem listedIn_succ
    (sector count : Nat) :
    listedIn image sector (count + 1) =
      (listed? image sector).toList ++ listedIn image (sector + 1) count := by
  rw [listedIn, List.range'_succ, List.filterMap_cons]
  cases listed? image sector <;> rfl

theorem describe_cons
    (index sector : Nat)
    (kind : VolumeKind)
    (later : List (Nat × VolumeKind)) :
    describe image index ((sector, kind) :: later) =
      .parse (image.sectorAt sector) kind index sector :: describe image (index + 1) later := by
  rw [describe, List.zipIdx_cons, List.map_cons, describe]

/-- A scan ends at a sector with which it does not go on. -/
theorem eval_scanFrom_of_not_goesOn
    {limit sector : Nat}
    (hinside : image.HasSector sector)
    (hlimit : AtLimit image limit sector)
    (hstops : ¬ GoesOn image sector)
    (index count : Nat) :
    image.eval (scanFrom limit index count sector) = .ok [] := by
  cases count with
  | zero => rfl
  | succ count =>
      rw [scanFrom]
      split
      · rfl
      · next hopen =>
          have htables : BeforeTables image sector :=
            (hlimit sector (Nat.le_refl _) hinside).mp (Nat.not_le.mp hopen)
          have hstop : scanStep (image.sectorAt sector) = .stop :=
            (scanStep_eq_stop_iff _).mpr fun ⟨hvalid, honward⟩ =>
              hstops ⟨hinside, htables, hvalid, honward⟩
          rw [Image.eval_bind_of_eq_ok image (Image.eval_readSector hinside), hstop]
          rfl

/--
A scan that goes on with a sector lists the descriptor there, if it is of a kind that is listed, and
then what it lists from the next sector on, at a limit that is right there.
-/
theorem exists_eval_scanFrom_succ
    {limit sector : Nat}
    (hgoes : GoesOn image sector)
    (hfirst : firstDescriptorSector ≤ sector)
    (hlimit : AtLimit image limit sector)
    (index count : Nat) :
    ∃ lower next, AtLimit image lower (sector + 1) ∧
      ∀ found,
        image.eval (scanFrom lower next count (sector + 1)) = .ok (describe image next found) →
        image.eval (scanFrom limit index (count + 1) sector) =
          .ok (describe image index ((listed? image sector).toList ++ found)) := by
  have hread := Image.eval_readSector hgoes.inside
  have hopen : ¬ limit ≤ sectorStart sector :=
    Nat.not_le.mpr ((hlimit sector (Nat.le_refl _) hgoes.inside).mpr
      fun earlier table => hgoes.beforeTables earlier table)
  have hstep := scanStep_of_goesOn hgoes.valid hgoes.onward
  rw [scanFrom, if_neg hopen, Image.eval_bind_of_eq_ok image hread, hstep, listed?]
  cases hkind : (kindOf? (image.sectorAt sector)).filter isListed with
  | none =>
      have hquiet : ∀ table, ¬ Announces (image.sectorAt sector) table := by
        rintro table ⟨hprimary, -⟩
        rw [hprimary] at hkind
        cases hkind
      refine ⟨limit, index, hlimit.next hfirst fun later => ?_, fun found hscan => hscan⟩
      exact (and_iff_left fun table hannounced => absurd hannounced (hquiet table)).symm
  | some kind =>
      obtain ⟨hfound, -⟩ := Option.filter_eq_some_iff.mp hkind
      refine ⟨_, index + 1,
        hlimit.next hfirst (sectorStart_lt_limitAfter_iff hfound limit index sector),
        fun found hscan => ?_⟩
      show image.eval (_ >>= _) = _
      rw [Image.eval_bind_of_eq_ok image hscan, Option.map_some, Option.toList_some,
        List.singleton_append, describe_cons]
      rfl

/--
A scan from a sector on, when the sectors inside the image from there on are counted: it lists the
descriptors of the longest run of sectors with which it goes on.
-/
theorem eval_scanFrom
    {limit count sector : Nat}
    (hend : ∀ later, sector ≤ later → (image.HasSector later ↔ later < sector + count))
    (hfirst : firstDescriptorSector ≤ sector)
    (hlimit : AtLimit image limit sector)
    (index : Nat) :
    ∃ run,
      (∀ later, sector ≤ later → later < sector + run → GoesOn image later) ∧
      ¬ GoesOn image (sector + run) ∧
      image.eval (scanFrom limit index count sector) =
        .ok (describe image index (listedIn image sector run)) := by
  induction count generalizing limit sector index with
  | zero =>
      have houtside : ¬ GoesOn image sector := fun hgoes =>
        Nat.lt_irrefl sector ((hend sector (Nat.le_refl _)).mp hgoes.inside)
      exact ⟨0, fun later hstart hstop => absurd hstop (Nat.not_lt.mpr hstart), houtside, rfl⟩
  | succ count ih =>
      by_cases hgoes : GoesOn image sector
      · have hnext : ∀ later, sector + 1 ≤ later →
            (image.HasSector later ↔ later < sector + 1 + count) := by
          intro later hlater
          rw [hend later (Nat.le_of_succ_le hlater), Nat.add_assoc, Nat.add_comm 1 count]
        obtain ⟨lower, next, hlower, hlists⟩ :=
          exists_eval_scanFrom_succ hgoes hfirst hlimit index count
        obtain ⟨run, hgoing, hstops, hscan⟩ := ih hnext (Nat.le_succ_of_le hfirst) hlower next
        refine ⟨run + 1, fun later hstart hstop => ?_, ?_, ?_⟩
        · rcases Nat.eq_or_lt_of_le hstart with rfl | hbehind
          · exact hgoes
          · exact hgoing later hbehind (by omega)
        · rwa [Nat.add_assoc, Nat.add_comm 1 run] at hstops
        · rw [listedIn_succ]
          exact hlists _ hscan
      · have hinside : image.HasSector sector :=
          (hend sector (Nat.le_refl _)).mpr (Nat.lt_add_of_pos_right (Nat.succ_pos count))
        exact ⟨0, fun later hstart hstop => absurd hstop (Nat.not_lt.mpr hstart), hgoes,
          eval_scanFrom_of_not_goesOn hinside hlimit hgoes index _⟩

/-- Every image has a run, and the descriptors that are read are those in it. -/
theorem exists_isRun
    (image : Image) :
    ∃ count, IsRun image count ∧
      image.eval Volume.read =
        .ok ⟨describe image 0 (listedIn image firstDescriptorSector count)⟩ := by
  have hend : ∀ later, firstDescriptorSector ≤ later →
      (image.HasSector later ↔
        later < firstDescriptorSector + (image.size / sectorSize - firstDescriptorSector)) := by
    intro later hlater
    rw [Image.HasSector, sectorStart, ← Nat.le_div_iff_mul_le (by decide)]
    omega
  obtain ⟨count, hgoing, hstops, hscan⟩ := eval_scanFrom hend (Nat.le_refl _) atLimit_first 0
  refine ⟨count, ⟨hgoing, hstops⟩, ?_⟩
  rw [Volume.read, Image.eval_bind_of_eq_ok image image.eval_size,
    Image.eval_bind_of_eq_ok image hscan]
  rfl

/-- An image has one longest run. -/
theorem IsRun.unique
    {first second : Nat}
    (hfirst : IsRun image first)
    (hsecond : IsRun image second) :
    first = second := by
  rcases Nat.lt_trichotomy first second with hlt | rfl | hlt
  · exact absurd (hsecond.goesOn _ (Nat.le_add_right _ _) (Nat.add_lt_add_left hlt _)) hfirst.stops
  · rfl
  · exact absurd (hfirst.goesOn _ (Nat.le_add_right _ _) (Nat.add_lt_add_left hlt _)) hsecond.stops

end Scans

section Agreement

variable {image other : Image}
variable {last : Nat}

/-- A scan goes on with the same sectors of two images that agree on the sectors up to them. -/
theorem goesOn_congr
    (hsize : other.size = image.size)
    (hagree : image.AgreeOn other (sectorStart firstDescriptorSector) (sectorStart (last + 1)))
    {sector : Nat}
    (hfirst : firstDescriptorSector ≤ sector)
    (hlast : sector ≤ last) :
    GoesOn other sector ↔ GoesOn image sector := by
  have hsector : ∀ earlier, firstDescriptorSector ≤ earlier → earlier ≤ sector →
      image.sectorAt earlier = other.sectorAt earlier := fun earlier hstart hstop =>
    hagree.sectorAt_eq hstart (Nat.lt_succ_of_le (Nat.le_trans hstop hlast))
  have hhere := hsector sector hfirst (Nat.le_refl _)
  have htables : BeforeTables other sector ↔ BeforeTables image sector := by
    refine forall_congr' fun earlier => forall_congr' fun table => ?_
    refine forall_congr' fun hstart => forall_congr' fun hstop => ?_
    rw [hsector earlier hstart (Nat.le_of_lt hstop)]
  have hinside : other.HasSector sector ↔ image.HasSector sector := by
    rw [Image.HasSector, Image.HasSector, hsize]
  constructor
  · rintro ⟨hin, hbefore, hvalid, honward⟩
    exact ⟨hinside.mp hin, htables.mp hbefore, hhere ▸ hvalid, hhere ▸ honward⟩
  · rintro ⟨hin, hbefore, hvalid, honward⟩
    exact ⟨hinside.mpr hin, htables.mpr hbefore, hhere ▸ hvalid, hhere ▸ honward⟩

/-- So the run of the one is the run of the other, if they agree on the sector that ends it too. -/
theorem IsRun.congr
    {count : Nat}
    (h : IsRun image count)
    (hsize : other.size = image.size)
    (hagree : image.AgreeOn other (sectorStart firstDescriptorSector)
      (sectorStart (firstDescriptorSector + count + 1))) :
    IsRun other count where
  goesOn sector hstart hstop :=
    (goesOn_congr hsize hagree hstart (Nat.le_of_lt hstop)).mpr (h.goesOn sector hstart hstop)
  stops hgoes :=
    h.stops ((goesOn_congr hsize hagree (Nat.le_add_right _ _) (Nat.le_refl _)).mp hgoes)

/-- The descriptors in sectors that two images share are the same. -/
theorem describe_listedIn_congr
    {start count : Nat}
    (hagree : image.AgreeOn other (sectorStart start) (sectorStart (start + count)))
    (index : Nat) :
    describe other index (listedIn other start count) =
      describe image index (listedIn image start count) := by
  induction count generalizing start index with
  | zero => rfl
  | succ count ih =>
      have hhere : image.sectorAt start = other.sectorAt start :=
        hagree.sectorAt_eq (Nat.le_refl _) (Nat.lt_add_of_pos_right (Nat.succ_pos count))
      have hlater : image.AgreeOn other (sectorStart (start + 1))
          (sectorStart (start + 1 + count)) :=
        hagree.mono (Image.sectorStart_le (Nat.le_succ start)) (Image.sectorStart_le (by omega))
      rw [listedIn_succ, listedIn_succ, listed?, listed?, ← hhere]
      cases (kindOf? (image.sectorAt start)).filter isListed with
      | none => exact ih hlater index
      | some kind =>
          rw [Option.map_some, Option.toList_some, List.singleton_append, List.singleton_append,
            describe_cons, describe_cons, ih hlater (index + 1), hhere]

end Agreement

section Descriptors

variable {image : Image}

/-- A descriptor has the index of its place and is read from the sector that it names. -/
theorem describe_getElem?
    {found : List (Nat × VolumeKind)}
    {index place : Nat}
    {descriptor : VolumeDescriptor}
    (h : (describe image index found)[place]? = some descriptor) :
    descriptor =
      .parse (image.sectorAt descriptor.sector) descriptor.kind (index + place)
        descriptor.sector := by
  rw [describe, List.getElem?_map, List.getElem?_zipIdx] at h
  cases hplace : found[place]? with
  | none =>
      rw [hplace] at h
      cases h
  | some entry =>
      rw [hplace] at h
      cases h
      rfl

theorem map_describe
    (image : Image)
    (index : Nat)
    (found : List (Nat × VolumeKind)) :
    (describe image index found).map (fun descriptor => (descriptor.sector, descriptor.kind)) =
      found := by
  rw [describe, List.map_map]
  exact List.zipIdx_map_fst index found

/-- The sectors of a run are listed in their order. -/
theorem pairwise_listedIn
    (image : Image)
    (sector count : Nat) :
    (listedIn image sector count).Pairwise fun earlier later => earlier.1 < later.1 := by
  refine List.Pairwise.filterMap _ (fun first second hlt found hfound next hnext => ?_)
    (List.pairwise_lt_range' 1)
  obtain ⟨kind, -, rfl⟩ := Option.map_eq_some_iff.mp hfound
  obtain ⟨other, -, rfl⟩ := Option.map_eq_some_iff.mp hnext
  exact hlt

end Descriptors

/--
**The scan of the volume descriptors.** The descriptors of an image can always be read. They are those
of the primary, enhanced and partition sectors in the longest run of sectors from the first one on
that lie inside the image, before every path table that a primary sector before them announces, are
marked CD001 and are no terminators. Each has the index of its place in the list and is read from its
own sector, and the sectors grow. An image of the same length that agrees on the run and on the sector
that ends it has the same descriptors.
-/
theorem volumeRead_longest_run
    (image : Image) :
    ∃ (count : Nat) (volume : Volume),
      IsRun image count ∧
      image.eval Volume.read = .ok volume ∧
      volume.descriptors.map (fun descriptor => (descriptor.sector, descriptor.kind)) =
        listedIn image firstDescriptorSector count ∧
      (∀ (place : Nat) (descriptor : VolumeDescriptor),
        volume.descriptors[place]? = some descriptor →
          descriptor.index = place ∧
          descriptor =
            .parse (image.sectorAt descriptor.sector) descriptor.kind place descriptor.sector) ∧
      (volume.descriptors.Pairwise fun earlier later => earlier.sector < later.sector) ∧
      ∀ other : Image, other.size = image.size →
        image.AgreeOn other (sectorStart firstDescriptorSector)
          (sectorStart (firstDescriptorSector + count + 1)) →
        other.eval Volume.read = .ok volume := by
  obtain ⟨count, hrun, hread⟩ := exists_isRun image
  have hlist := map_describe image 0 (listedIn image firstDescriptorSector count)
  refine ⟨count, _, hrun, hread, hlist, ?_, ?_, ?_⟩
  · intro place descriptor hplace
    have hparsed := describe_getElem? hplace
    rw [Nat.zero_add] at hparsed
    exact ⟨congrArg VolumeDescriptor.index hparsed, hparsed⟩
  · have hsorted := pairwise_listedIn image firstDescriptorSector count
    rw [← hlist, List.pairwise_map] at hsorted
    exact hsorted
  · intro other hsize hagree
    obtain ⟨found, hfound, hother⟩ := exists_isRun other
    have hsame := hfound.unique (hrun.congr hsize hagree)
    have hinRun := hagree.mono (Nat.le_refl _) (Image.sectorStart_le (Nat.le_succ _))
    rw [hother, hsame, describe_listedIn_congr hinRun]

end Iso
end Optical
