import Optical.Bytes
import Optical.Extent

/-!
# Pointers to extents

A UDF structure names an extent by its first sector, or by a block and the partition that the block
is counted in.
-/

namespace Optical
namespace Udf

/-- A pointer to an extent by its sector. -/
structure ExtentPointer where
  /-- The number of bytes. -/
  length : UInt32
  /-- The first sector. -/
  location : UInt32
deriving DecidableEq, Repr

namespace ExtentPointer

/-- The pointer at an offset. -/
def parse (raw : Bytes) (offset : Nat) : ExtentPointer :=
  ⟨raw.u32 offset, raw.u32 (offset + 4)⟩

/-- The offset behind the last byte. -/
def endByte (pointer : ExtentPointer) : Nat :=
  sectorStart pointer.location.toNat + pointer.length.toNat

end ExtentPointer

/-- The bits of a length field that hold the length; the other two say how the extent is used. -/
def lengthMask : UInt32 := 0x3FFFFFFF

theorem and_lengthMask (field : UInt32) :
    field &&& lengthMask = UInt32.ofNat (field.toNat % 0x40000000) := by
  have hmask : lengthMask.toNat = 2 ^ 30 - 1 := rfl
  rw [← UInt32.toNat_inj, UInt32.toNat_and, hmask, Nat.and_two_pow_sub_one_eq_mod,
    UInt32.toNat_ofNat']
  omega

/-- A pointer to an extent by its block in a partition. -/
structure BlockPointer where
  /-- The number of bytes. -/
  length : UInt32
  /-- The first block. -/
  block : UInt32
  /-- The number of the partition. -/
  partition : UInt16
deriving DecidableEq, Repr

namespace BlockPointer

/-- The pointer at an offset. -/
def parse (raw : Bytes) (offset : Nat) : BlockPointer :=
  ⟨raw.u32 offset &&& lengthMask, raw.u32 (offset + 4), raw.u16 (offset + 8)⟩

end BlockPointer

end Udf
end Optical
