/-!
# Byte strings and fixed-position fields

Every structure on a disc is a run of bytes with numbers at fixed offsets. This module gives the
views that the decoders share.

A structure may be cut short by the end of its medium. The rule for that is the same everywhere:
a byte past the end reads as zero, and a part past the end is empty.

* byteAt, littleEndian and bigEndian read a number at an offset;
* ofNatLE and ofNatBE spell a number, and what they spell reads back;
* u16, u32, u64 and u32be are the widths that discs use;
* slice takes the part of a byte string inside a range of offsets.
-/

namespace Optical

/-- A run of bytes in the order in which they are stored. -/
abbrev Bytes := List UInt8

namespace Bytes

/-- The byte at an offset; a byte past the end reads as zero. -/
def byteAt (raw : Bytes) (offset : Nat) : UInt8 :=
  raw.getD offset 0

theorem byteAt_eq (raw : Bytes) (offset : Nat) : raw.byteAt offset = raw[offset]?.getD 0 :=
  List.getD_eq_getElem?_getD

/-- The number spelled by a count of bytes from an offset, least significant byte first. -/
def littleEndian (raw : Bytes) : (offset width : Nat) → Nat
  | _, 0 => 0
  | offset, width + 1 =>
      (raw.byteAt offset).toNat + 256 * littleEndian raw (offset + 1) width

/-- The number spelled by a count of bytes from an offset, most significant byte first. -/
def bigEndian (raw : Bytes) : (offset width : Nat) → Nat
  | _, 0 => 0
  | offset, width + 1 =>
      bigEndian raw offset width * 256 + (raw.byteAt (offset + width)).toNat

/-- The bytes of a number in a given width, least significant first. -/
def ofNatLE : (width n : Nat) → Bytes
  | 0, _ => []
  | width + 1, n => UInt8.ofNat n :: ofNatLE width (n / 256)

/-- The bytes of a number in a given width, most significant first. -/
def ofNatBE (width n : Nat) : Bytes :=
  (ofNatLE width n).reverse

@[simp] theorem ofNatLE_length (width n : Nat) : (ofNatLE width n).length = width := by
  induction width generalizing n with
  | zero => rfl
  | succ width ih => simp [ofNatLE, ih]

@[simp] theorem ofNatBE_length (width n : Nat) : (ofNatBE width n).length = width := by
  simp [ofNatBE]

@[simp] theorem byteAt_cons_succ (b : UInt8) (raw : Bytes) (offset : Nat) :
    byteAt (b :: raw) (offset + 1) = raw.byteAt offset := by
  simp [byteAt]

theorem littleEndian_cons_succ (b : UInt8) (raw : Bytes) (offset width : Nat) :
    littleEndian (b :: raw) (offset + 1) width = raw.littleEndian offset width := by
  induction width generalizing offset with
  | zero => rfl
  | succ width ih => simp only [littleEndian, byteAt_cons_succ, ih]

/-- One more than the greatest number of a width in bytes. -/
def bound : (width : Nat) → Nat
  | 0 => 1
  | width + 1 => 256 * bound width

theorem littleEndian_lt (raw : Bytes) (offset width : Nat) :
    raw.littleEndian offset width < bound width := by
  induction width generalizing offset with
  | zero => simp [littleEndian, bound]
  | succ width ih =>
      have byte := (raw.byteAt offset).toNat_lt
      have later := ih (offset + 1)
      simp only [littleEndian, bound]
      omega

theorem bigEndian_lt (raw : Bytes) (offset width : Nat) :
    raw.bigEndian offset width < bound width := by
  induction width with
  | zero => simp [bigEndian, bound]
  | succ width ih =>
      have byte := (raw.byteAt (offset + width)).toNat_lt
      simp only [bigEndian, bound]
      omega

/-- A number that fits its width reads back, whatever bytes follow. -/
theorem littleEndian_ofNatLE {width n : Nat} (h : n < bound width) (rest : Bytes) :
    littleEndian (ofNatLE width n ++ rest) 0 width = n := by
  induction width generalizing n with
  | zero =>
      have empty : n = 0 := Nat.lt_one_iff.mp h
      simp [littleEndian, empty]
  | succ width ih =>
      have small : n / 256 < bound width := Nat.div_lt_of_lt_mul h
      simp only [ofNatLE, List.cons_append, littleEndian, littleEndian_cons_succ, ih small]
      simp only [byteAt, List.getD_cons_zero, UInt8.toNat_ofNat']
      omega

/-- The 16-bit little-endian field at an offset. -/
def u16 (raw : Bytes) (offset : Nat) : UInt16 :=
  UInt16.ofNat (raw.littleEndian offset 2)

/-- The 32-bit little-endian field at an offset. -/
def u32 (raw : Bytes) (offset : Nat) : UInt32 :=
  UInt32.ofNat (raw.littleEndian offset 4)

/-- The 64-bit little-endian field at an offset. -/
def u64 (raw : Bytes) (offset : Nat) : UInt64 :=
  UInt64.ofNat (raw.littleEndian offset 8)

/-- The 32-bit big-endian field at an offset. -/
def u32be (raw : Bytes) (offset : Nat) : UInt32 :=
  UInt32.ofNat (raw.bigEndian offset 4)

theorem toNat_u16 (raw : Bytes) (offset : Nat) :
    (raw.u16 offset).toNat = raw.littleEndian offset 2 :=
  UInt16.toNat_ofNat_of_lt' (littleEndian_lt raw offset 2)

theorem toNat_u32 (raw : Bytes) (offset : Nat) :
    (raw.u32 offset).toNat = raw.littleEndian offset 4 :=
  UInt32.toNat_ofNat_of_lt' (littleEndian_lt raw offset 4)

theorem toNat_u64 (raw : Bytes) (offset : Nat) :
    (raw.u64 offset).toNat = raw.littleEndian offset 8 :=
  UInt64.toNat_ofNat_of_lt' (littleEndian_lt raw offset 8)

theorem toNat_u32be (raw : Bytes) (offset : Nat) :
    (raw.u32be offset).toNat = raw.bigEndian offset 4 :=
  UInt32.toNat_ofNat_of_lt' (bigEndian_lt raw offset 4)

/--
A 16-bit field that is stored in both byte orders, little-endian first.
Only the little-endian half is read.
-/
def u16both (raw : Bytes) (offset : Nat) : UInt16 :=
  raw.u16 offset

/--
A 32-bit field that is stored in both byte orders, little-endian first.
Only the little-endian half is read.
-/
def u32both (raw : Bytes) (offset : Nat) : UInt32 :=
  raw.u32 offset

/-- The part of a byte string that lies inside a range of offsets. -/
def slice (raw : Bytes) (offset length : Nat) : Bytes :=
  (raw.drop offset).take length

@[simp] theorem slice_length (raw : Bytes) (offset length : Nat) :
    (raw.slice offset length).length = min length (raw.length - offset) := by
  simp [slice]

theorem getElem?_slice (raw : Bytes) (offset length index : Nat) :
    (raw.slice offset length)[index]? = if index < length then raw[offset + index]? else none := by
  rw [slice, List.getElem?_take, List.getElem?_drop]

/-- A byte string without the zero bytes at its end. -/
def trimZeros (raw : Bytes) : Bytes :=
  (raw.reverse.dropWhile (· == 0)).reverse

/-- Every byte is zero; the empty string counts. -/
def isBlank (raw : Bytes) : Bool :=
  raw.all (· == 0)

end Bytes
end Optical
