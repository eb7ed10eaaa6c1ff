import Optical.Detection
import Optical.Proofs.Iso.Walk
import Optical.Proofs.Udf.Unfolding

/-!
# Addresses on a volume

Sectors and sizes are stored in 32 bits, and the sectors of a UDF volume are sums of at most four of
them. So the extents that a volume names, and the contents of every node of a tree that is built, end
at an offset far below the greatest 64-bit number, whether the image holds them or not. Only a caller
can ask for an extent whose offsets are no numbers of 64 bits.

* Addressable says that the sectors of an extent are told by offsets of 64 bits, and
  DirectoryRecord.extent_addressable and ExtentPointer.addressable that those of a volume are;
* endOffset_lt_of_eval_buildTree says where the contents of the nodes of a tree end.
-/

namespace Optical

/-- The offset behind the last byte of the contents. -/
def Node.endOffset {κ : Type} (node : Node κ) : Nat :=
  node.extent.byteOffset + node.size

section Bounds

/-- The sectors of an extent begin and end at offsets of 64 bits. -/
def Extent.Addressable (extent : Extent) : Prop :=
  sectorStart extent.endSector < offsetBound

/-- The bytes of an extent lie in its sectors. -/
theorem Extent.end_le
    (extent : Extent) :
    extent.byteOffset + extent.length ≤ sectorStart extent.endSector := by
  simp only [byteOffset, endSector, sectorCount, sectorsFor, sectorStart, sectorSize]
  omega

/-- Small sectors and lengths have small offsets. -/
theorem Extent.addressable_of_lt
    {extent : Extent}
    (hsector : extent.sector < 0x800000000)
    (hlength : extent.length < 0x100000000) :
    extent.Addressable := by
  simp only [Addressable, endSector, sectorCount, sectorsFor, sectorStart, sectorSize, offsetBound]
  omega

theorem Node.endOffset_lt
    {κ : Type}
    {node : Node κ}
    (hsector : node.sector < 0x800000000)
    (hsize : node.size < 0x100000000) :
    node.endOffset < offsetBound :=
  Nat.lt_of_le_of_lt node.extent.end_le (Extent.addressable_of_lt hsector hsize)

/-- The directories of an ISO9660 volume are read at offsets of 64 bits. -/
theorem Iso.DirectoryRecord.extent_addressable
    (record : DirectoryRecord) :
    record.extent.Addressable :=
  Extent.addressable_of_lt (Nat.lt_trans record.sector.toNat_lt (by decide))
    record.dataLength.toNat_lt

/-- So are the sequences of descriptors of a UDF volume. -/
theorem Udf.ExtentPointer.addressable
    (pointer : ExtentPointer) :
    Extent.Addressable ⟨pointer.location.toNat, pointer.length.toNat⟩ :=
  Extent.addressable_of_lt (Nat.lt_trans pointer.location.toNat_lt (by decide))
    pointer.length.toNat_lt

theorem Udf.ExtentPointer.endByte_lt
    (pointer : ExtentPointer) :
    pointer.endByte < offsetBound :=
  Nat.lt_of_le_of_lt (Extent.end_le ⟨pointer.location.toNat, pointer.length.toNat⟩)
    pointer.addressable

end Bounds

section Iso

/-- The contents of an ISO9660 record end at a 64-bit offset. -/
theorem Iso.nodeOf_endOffset_lt
    (rockRidge : Bool)
    (record : DirectoryRecord)
    (clean : Bool) :
    (nodeOf rockRidge record clean).endOffset < offsetBound := by
  have hsector := record.sector.toNat_lt
  have hsize := record.dataLength.toNat_lt
  exact Node.endOffset_lt (Nat.lt_trans hsector (by decide)) hsize

end Iso

section Udf

open Udf

variable {image : Image}
variable {base : Nat}
variable {starts : UInt16 → Nat → Prop}

/-- The contents of a UDF entry end at a 64-bit offset if those before it begin at small sectors. -/
theorem Udf.Denotes.endOffset_lt
    (hbase : base < 0x200000000)
    (hstarts : ∀ number start, starts number start → start < 0x200000000)
    {name : String}
    {entry : FileEntry}
    {partition : UInt16}
    {node : Node Attributes}
    (h : Denotes base starts name entry partition node) :
    node.endOffset < offsetBound := by
  have hlocation := entry.allocation.location.toNat_lt
  have hsize := entry.allocation.length.toNat_lt
  cases h with
  | directory =>
      apply Node.endOffset_lt _ hsize
      simp only [directoryStart]
      omega
  | @file start _ starting =>
      have hstart := hstarts partition start starting
      apply Node.endOffset_lt _ hsize
      simp only
      omega

/-- So do those of all entries of an unfolding. -/
theorem Udf.Unfolding.endOffset_lt
    (hbase : base < 0x200000000)
    (hstarts : ∀ number start, starts number start → start < 0x200000000)
    {above : List Nat}
    {identifiers : List FileIdentifier}
    {forest : Forest (Node Attributes)}
    (h : Unfolding image base starts above identifiers forest) :
    ∀ node ∈ forest.labels, node.endOffset < offsetBound := by
  induction h with
  | ended => simp [Forest.labels]
  | omitted _ _ ih => exact ih
  | file _ _ denotes _ _ ih =>
      rw [Forest.labels, List.forall_mem_cons]
      exact ⟨denotes.endOffset_lt hbase hstarts, by simpa [Forest.labels] using ih⟩
  | directory _ _ denotes _ _ _ _ ihInside ihOthers =>
      rw [Forest.labels, List.forall_mem_cons, List.forall_mem_append]
      exact ⟨denotes.endOffset_lt hbase hstarts, ihInside, ihOthers⟩

/-- The file set of a volume stands at a sector that is the sum of two of 32 bits at most. -/
theorem Udf.Located.sector_lt
    {partitions : List Partition}
    {home : Partition}
    {fileSet : FileSet}
    (h : Located image partitions home fileSet) :
    fileSet.sector < 0x200000000 := by
  obtain ⟨before, after, -, -, hfound⟩ := h
  have hinside := hfound.sector_lt
  have hstart := home.start.toNat_lt
  have hlength := home.length.toNat_lt
  omega

theorem Udf.Starts.lt
    {partitions : List Partition}
    {home : Partition}
    {root : BlockPointer}
    {number : UInt16}
    {start : Nat}
    (h : Starts partitions home root number start) :
    start < 0x200000000 := by
  rcases h with ⟨-, rfl⟩ | ⟨-, before, partition, after, -, -, -, rfl⟩
  · exact Nat.lt_trans home.start.toNat_lt (by decide)
  · exact Nat.lt_trans partition.start.toNat_lt (by decide)

/-- The contents of all nodes of a UDF tree end at 64-bit offsets. -/
theorem Udf.endOffset_lt_of_eval_buildTree
    {partitions : List Partition}
    {tree : FileTree Attributes}
    (h : image.eval (Udf.buildTree partitions) = .ok tree)
    {id : Nat}
    {entry : Entry Attributes}
    (hentry : tree.get? id = some entry) :
    entry.endOffset < offsetBound := by
  obtain ⟨home, fileSet, hlocated, hunfolds⟩ := exists_unfolds_of_eval_buildTree h
  have hbase := hlocated.sector_lt
  have hstarts : ∀ number start,
      Starts partitions home fileSet.root number start → start < 0x200000000 :=
    fun _ _ hstart => hstart.lt
  cases hunfolds with
  | file _ hdenotes =>
      rw [← FileTree.ofForest_eq_preorder] at hentry
      exact FileTree.forall_of_ofForest (·.endOffset < offsetBound) (hdenotes.endOffset_lt hbase hstarts)
        (by simp [Forest.labels]) hentry
  | directory _ hdenotes _ _ hinside =>
      rw [← FileTree.ofForest_eq_preorder] at hentry
      exact FileTree.forall_of_ofForest (·.endOffset < offsetBound) (hdenotes.endOffset_lt hbase hstarts)
        (hinside.endOffset_lt hbase hstarts) hentry

end Udf

section Trees

variable {image : Image}

/-- The contents of all nodes of an ISO9660 tree end at 64-bit offsets. -/
theorem Iso.endOffset_lt_of_eval_buildTree
    {record : Iso.DirectoryRecord}
    {rockRidge : Bool}
    {tree : FileTree Attributes}
    (h : image.eval (Iso.buildTree record rockRidge) = .ok tree)
    {id : Nat}
    {entry : Entry Attributes}
    (hentry : tree.get? id = some entry) :
    entry.endOffset < offsetBound := by
  obtain ⟨clean, below, hcontents, rfl⟩ := (Iso.eval_buildTree_eq_ok_iff image record tree).mp h
  -- The root has the place and the size of its record, as every other node has.
  have hroot : (Iso.rootNode record clean).endOffset < offsetBound :=
    Iso.nodeOf_endOffset_lt rockRidge record clean
  have hbelow := Iso.forall_labels_of_eval_readContents (·.endOffset < offsetBound)
    (Iso.nodeOf_endOffset_lt rockRidge) hcontents
  exact FileTree.forall_of_ofForest (·.endOffset < offsetBound) hroot hbelow hentry

/-- The contents of every node of a tree that is built end at a 64-bit offset. -/
theorem endOffset_lt_of_eval_buildTree
    {settings : Settings}
    {tree : FileTree Attributes}
    (h : image.eval (buildTree settings) = .ok tree)
    {id : Nat}
    {entry : Entry Attributes}
    (hentry : tree.get? id = some entry) :
    entry.endOffset < offsetBound := by
  cases settings with
  | udf =>
      obtain ⟨volume, -, htree⟩ := (Image.eval_bind_eq_ok_iff image _ _ _).mp h
      exact Udf.endOffset_lt_of_eval_buildTree htree hentry
  | iso rockRidge table =>
      obtain ⟨volume, -, htree⟩ := (Image.eval_bind_eq_ok_iff image _ _ _).mp h
      obtain ⟨root, -, htree⟩ := (Image.eval_bind_eq_ok_iff image _ _ _).mp htree
      exact Iso.endOffset_lt_of_eval_buildTree htree hentry

end Trees

end Optical
