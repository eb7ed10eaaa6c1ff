import Optical.Udf.Descriptor

/-!
# UDF volumes

A UDF volume is found by its anchors, which stand at a few fixed sectors. An anchor leads to a
sequence of descriptors, and some descriptors lead to further sequences; each is read in full where
it is named. No sequence is read twice, and sequences are nested at most 16 deep.

A sequence is read sector by sector up to the byte at which it ends. Its first sector is read even
if it ends there; that of an anchor is a sequence of its own.
-/

namespace Optical
namespace Udf

/-- The sector of an anchor on a volume written for an early reader. -/
def earlyAnchorSector : Nat := 32

/-- The sector of an anchor, counted from the start, and from the end of a medium. -/
def anchorSector : Nat := 256

/-- The elements of a list, each only where it comes first. -/
def firstOccurrences : List Nat → List Nat
  | [] => []
  | x :: xs => x :: (firstOccurrences xs).filter (· != x)

/-- The sectors where an anchor may be, in the order of the search. -/
def anchorCandidates (total : Nat) : List Nat :=
  let fromEnd :=
    if total = 0 then []
    else
      let last := total - 1
      if last < anchorSector then [last] else [last - anchorSector, last]
  firstOccurrences ([earlyAnchorSector, anchorSector] ++ fromEnd)

/-- The sectors of a list that hold a sound anchor; one that the medium cuts off is no anchor. -/
def soundAnchors (length : Nat) : List Nat → ReadM (List Nat)
  | [] => return []
  | sector :: sectors =>
      let offset := sectorStart sector
      if length < offset + Tag.size then soundAnchors length sectors
      else do
        let raw ← ReadM.readExact offset Tag.size
        let later ← soundAnchors length sectors
        return if Tag.isValidAt raw Tag.anchorPointer sector then sector :: later else later

/-- The sectors of all sound anchors. -/
def probe : ReadM (List Nat) := do
  let length ← ReadM.size
  soundAnchors length (anchorCandidates (length / sectorSize))

/-- The greatest number of sequences between the anchor and a descriptor. -/
def maxNesting : Nat := 16

/-- The descriptors found, and the first sectors of the sequences read so far. -/
abbrev Walked := List Descriptor × List Nat

/-- The descriptor at a sector, if it is no blank. -/
def readVolumeDescriptor (sector : Nat) : ReadM (Option Descriptor) := do
  let (tag, raw) ← readDescriptor sector
  match Descriptor.parse? tag raw sector with
  | .ok descriptor => return descriptor
  | .error fault => throw (.format fault)

/--
The descriptor at a sector, if it is no blank, and behind it those of the sequence that it leads to,
given how to read such a sequence.
-/
def readOnward (enter : ExtentPointer → List Nat → ReadM Walked) (sector : Nat)
    (visited : List Nat) : ReadM Walked := do
  match ← readVolumeDescriptor sector with
  | none => return ([], visited)
  | some descriptor =>
      let (nested, visited) ←
        match descriptor.continuation? with
        | none => pure ([], visited)
        | some extent => enter extent visited
      return (descriptor :: nested, visited)

/--
The descriptors from a sector on, as long as another sector begins before the byte at which they
stop; without such a byte there is one sector only.
-/
def readRun (enter : ExtentPointer → List Nat → ReadM Walked) (stop : Option Nat) (sector : Nat)
    (visited : List Nat) : ReadM Walked := do
  let (found, visited) ← readOnward enter sector visited
  if stop.any fun stop => sectorStart (sector + 1) < stop then
    let (later, visited) ← readRun enter stop (sector + 1) visited
    return (found ++ later, visited)
  else return (found, visited)
termination_by stop.getD 0 - sectorStart sector
decreasing_by
  next hmore =>
    obtain ⟨stop, rfl, hbefore⟩ := (Option.any_eq_true _ _).mp hmore
    have hbefore : sectorStart (sector + 1) < stop := of_decide_eq_true hbefore
    simp only [Option.getD_some, sectorStart, sectorSize] at hbefore ⊢
    omega

/-- The descriptors of a sequence, given how many levels of nesting are left. -/
def readSequence : (levels start : Nat) → (stop : Option Nat) → (visited : List Nat) → ReadM Walked
  | 0, start, _, _ => throw (.format (.descriptorLoop start))
  | levels + 1, start, stop, visited =>
      if start ∈ visited then throw (.format (.descriptorLoop start))
      else
        let enter := fun (extent : ExtentPointer) =>
          readSequence levels extent.location.toNat extent.endByte
        readRun enter stop start (start :: visited)

/-- The anchors of a UDF volume and all descriptors that the first of them leads to. -/
structure Volume where
  anchors : List Nat
  descriptors : List Descriptor
deriving DecidableEq, Repr

namespace Volume

/-- Reads the descriptors of a volume. -/
def read : ReadM Volume := do
  let anchors ← probe
  match anchors with
  | [] => throw (.format .noAnchor)
  | anchor :: _ =>
      let (descriptors, _) ← readSequence (maxNesting + 1) anchor none []
      return ⟨anchors, descriptors⟩

/-- The partitions in the order of their descriptors. -/
def partitions (volume : Volume) : List Partition :=
  volume.descriptors.filterMap Descriptor.partition?

/-- The first logical volume. -/
def logicalVolume? (volume : Volume) : Option LogicalVolume :=
  volume.descriptors.findSome? Descriptor.logicalVolume?

/-- The first primary volume. -/
def primaryVolume? (volume : Volume) : Option PrimaryVolume :=
  volume.descriptors.findSome? Descriptor.primaryVolume?

end Volume
end Udf
end Optical
