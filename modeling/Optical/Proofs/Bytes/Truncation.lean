import Mathlib.Data.Nat.Digits.Defs
import Optical.Extent
import Optical.Proofs.Bytes.Fields

/-!
# Byte strings that are cut short

The end of a medium may cut a structure short at any byte, also in the middle of a number. What is
read of it is what would be read if zeros stood behind the cut.

All that a decoder of fixed places sees of a byte string is the byte at each offset. Two byte strings
with the same bytes in this sense are Alike, and so are their parts at a range of offsets, the numbers
in them and whatever is made up of such numbers.

* numbersAt gives the numbers at an offset in positional notation;
* between?_clamped says that a part is cut out inside the bytes, however far its range reaches;
* alike_append_zeros says that zeros at the end make no difference.
-/

namespace Optical
namespace Bytes

section Numbers

/-- A run of bytes from an offset as digits of a number, with a zero for each that is missing. -/
def digits (raw : Bytes) (offset width : Nat) : List Nat :=
  (List.range width).map fun index => (raw[offset + index]?.getD 0).toNat

/-- The numbers at an offset have the values of the bytes there, in either order. -/
structure NumbersAt (raw : Bytes) (offset : Nat) : Prop where
  byte : (raw.byteAt offset).toNat = Nat.ofDigits 256 (raw.digits offset 1)
  u16 : (raw.u16 offset).toNat = Nat.ofDigits 256 (raw.digits offset 2)
  u32 : (raw.u32 offset).toNat = Nat.ofDigits 256 (raw.digits offset 4)
  u64 : (raw.u64 offset).toNat = Nat.ofDigits 256 (raw.digits offset 8)
  u32be : (raw.u32be offset).toNat = Nat.ofDigits 256 (raw.digits offset 4).reverse
  u16both : (raw.u16both offset).toNat = Nat.ofDigits 256 (raw.digits offset 2)
  u32both : (raw.u32both offset).toNat = Nat.ofDigits 256 (raw.digits offset 4)

variable (raw : Bytes)
variable (offset : Nat)

theorem littleEndian_eq_ofDigits (width : Nat) :
    raw.littleEndian offset width = Nat.ofDigits 256 (raw.digits offset width) := by
  induction width generalizing offset with
  | zero => rfl
  | succ width ih =>
      have hdigits : raw.digits offset (width + 1) =
          (raw.byteAt offset).toNat :: raw.digits (offset + 1) width := by
        rw [digits, List.range_succ_eq_map, List.map_cons, List.map_map, byteAt_eq, digits]
        simp [Function.comp_def, Nat.add_assoc, Nat.add_comm 1]
      rw [littleEndian, ih, hdigits, Nat.ofDigits_cons]

theorem bigEndian_eq_ofDigits (width : Nat) :
    raw.bigEndian offset width = Nat.ofDigits 256 (raw.digits offset width).reverse := by
  induction width with
  | zero => rfl
  | succ width ih =>
      have hdigits : (raw.digits offset (width + 1)).reverse =
          (raw.byteAt (offset + width)).toNat :: (raw.digits offset width).reverse := by
        rw [digits, List.range_succ, List.map_append, List.reverse_append, byteAt_eq, digits]
        rfl
      rw [bigEndian, ih, hdigits, Nat.ofDigits_cons, Nat.add_comm, Nat.mul_comm]

theorem numbersAt :
    raw.NumbersAt offset := by
  have hu16 : (raw.u16 offset).toNat = Nat.ofDigits 256 (raw.digits offset 2) := by
    rw [toNat_u16, littleEndian_eq_ofDigits]
  have hu32 : (raw.u32 offset).toNat = Nat.ofDigits 256 (raw.digits offset 4) := by
    rw [toNat_u32, littleEndian_eq_ofDigits]
  refine ⟨?_, hu16, hu32, ?_, ?_, hu16, hu32⟩
  · rw [← littleEndian_eq_ofDigits, littleEndian, littleEndian]
    rfl
  · rw [toNat_u64, littleEndian_eq_ofDigits]
  · rw [toNat_u32be, bigEndian_eq_ofDigits]

end Numbers

section Ranges

/-- The bytes between two bounds; there are none unless the bounds are in order and inside. -/
def between? (raw : Bytes) (start stop : Nat) : Option Bytes :=
  if start ≤ stop ∧ stop ≤ raw.length then some ((raw.take stop).drop start) else none

/--
A part is what stands between the ends of its range, each brought back to the end of the bytes. The
sum that gives the far end stops at the greatest offset, which the bytes do not reach.
-/
theorem between?_clamped
    {raw : Bytes}
    (h : raw.length < offsetBound)
    (offset length : Nat) :
    raw.between? (min offset raw.length)
        (min (min (offset + length) (offsetBound - 1)) raw.length) =
      some (raw.slice offset length) := by
  have hstop : min (min (offset + length) (offsetBound - 1)) raw.length =
      min (offset + length) raw.length := by
    omega
  rw [hstop, between?, if_pos (by omega), slice, List.drop_take]
  refine congrArg some ?_
  by_cases hinside : offset ≤ raw.length
  · rw [Nat.min_eq_left hinside, List.take_eq_take_iff, List.length_drop]
    omega
  · have hnone : min (offset + length) raw.length - min offset raw.length = 0 := by
      omega
    rw [hnone, List.take_zero, List.drop_eq_nil_of_le (Nat.le_of_not_le hinside), List.take_nil]

theorem byteAt_slice
    (raw : Bytes)
    (offset length index : Nat) :
    (raw.slice offset length).byteAt index =
      if index < length then raw.byteAt (offset + index) else 0 := by
  simp only [byteAt_eq, getElem?_slice]
  split <;> rfl

end Ranges

/-- The byte at each offset is the same in both. -/
def Alike (raw other : Bytes) : Prop :=
  ∀ offset, raw.byteAt offset = other.byteAt offset

/-- A byte string cannot be told from the one that goes on with zeros. -/
theorem alike_append_zeros
    (raw : Bytes)
    (zeros : Nat) :
    raw.Alike (raw ++ List.replicate zeros 0) := by
  intro offset
  by_cases hinside : offset < raw.length
  · rw [byteAt_append_of_lt hinside]
  · have hblank : isBlank (List.replicate zeros 0) = true := by
      simp [isBlank]
    have hend : raw.length ≤ offset := Nat.le_of_not_lt hinside
    rw [byteAt_append_of_le hend, byteAt_of_isBlank hblank, byteAt_eq, List.getElem?_eq_none hend]
    rfl

namespace Alike

variable {raw other : Bytes}
variable (h : raw.Alike other)
variable (offset : Nat)

include h

theorem slice (length : Nat) :
    (raw.slice offset length).Alike (other.slice offset length) := by
  intro index
  rw [byteAt_slice, byteAt_slice, h]

theorem littleEndian (width : Nat) :
    raw.littleEndian offset width = other.littleEndian offset width :=
  littleEndian_congr fun index _ => h (offset + index)

theorem bigEndian (width : Nat) :
    raw.bigEndian offset width = other.bigEndian offset width :=
  bigEndian_congr fun index _ => h (offset + index)

theorem u16 : raw.u16 offset = other.u16 offset := by
  rw [Bytes.u16, Bytes.u16, h.littleEndian]

theorem u32 : raw.u32 offset = other.u32 offset := by
  rw [Bytes.u32, Bytes.u32, h.littleEndian]

theorem u64 : raw.u64 offset = other.u64 offset := by
  rw [Bytes.u64, Bytes.u64, h.littleEndian]

theorem u32be : raw.u32be offset = other.u32be offset := by
  rw [Bytes.u32be, Bytes.u32be, h.bigEndian]

end Alike

end Bytes
end Optical
