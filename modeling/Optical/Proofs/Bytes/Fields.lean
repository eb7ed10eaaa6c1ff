import Optical.Bytes

/-!
# Fields behind other bytes

A field is read at an offset, and a writer puts it behind the bytes of the fields before it. A number
depends on the bytes at its place alone, and what is read behind a front on the bytes after the front;
so a number that was spelled there reads back, and so does a run of bytes, whatever follows them.
Conversely, whatever bytes stand where a number is read, they are the ones that spell it.

The simp lemmas pass over the fields in front of an offset, one by one, as far as their lengths are
numbers. A decoder of fields at fixed places is then simplified to the fields that were written.
-/

namespace Optical
namespace Bytes

section Places

variable {raw other : Bytes}
variable {offset place width : Nat}
variable (h : ∀ index < width, raw.byteAt (offset + index) = other.byteAt (place + index))

include h

/-- A number depends on the bytes at its place alone. -/
theorem littleEndian_congr :
    raw.littleEndian offset width = other.littleEndian place width := by
  induction width generalizing offset place with
  | zero => rfl
  | succ width ih =>
      have hfirst : raw.byteAt offset = other.byteAt place := h 0 (Nat.succ_pos width)
      have hlater : ∀ index < width,
          raw.byteAt (offset + 1 + index) = other.byteAt (place + 1 + index) := by
        intro index hindex
        rw [Nat.add_assoc, Nat.add_assoc, Nat.add_comm 1]
        exact h (index + 1) (Nat.succ_lt_succ hindex)
      rw [littleEndian, littleEndian, hfirst, ih hlater]

theorem bigEndian_congr :
    raw.bigEndian offset width = other.bigEndian place width := by
  induction width with
  | zero => rfl
  | succ width ih =>
      have hlast := h width (Nat.lt_succ_self width)
      have hfirst := ih fun index hindex => h index (Nat.lt_succ_of_lt hindex)
      rw [bigEndian, bigEndian, hfirst, hlast]

end Places

section Fields

theorem byteAt_append_right
    (front raw : Bytes)
    (offset : Nat) :
    byteAt (front ++ raw) (front.length + offset) = raw.byteAt offset := by
  rw [byteAt_eq, byteAt_eq, List.getElem?_append_right (Nat.le_add_right _ _),
    Nat.add_sub_cancel_left]

theorem littleEndian_append_right
    (front raw : Bytes)
    (offset width : Nat) :
    littleEndian (front ++ raw) (front.length + offset) width = raw.littleEndian offset width :=
  littleEndian_congr fun index _ => by rw [Nat.add_assoc, byteAt_append_right]

/-- A number that was spelled behind a front is read there. -/
theorem littleEndian_field
    (front after : Bytes)
    {width n : Nat}
    (h : n < bound width) :
    littleEndian (front ++ (ofNatLE width n ++ after)) front.length width = n := by
  have hread := littleEndian_append_right front (ofNatLE width n ++ after) 0 width
  rw [Nat.add_zero] at hread
  rw [hread, littleEndian_ofNatLE h]

theorem u16_field
    (front after : Bytes)
    (value : UInt16) :
    u16 (front ++ (ofNatLE 2 value.toNat ++ after)) front.length = value := by
  have hvalue : value.toNat < bound 2 := value.toNat_lt
  rw [u16, littleEndian_field front after hvalue, UInt16.ofNat_toNat]

theorem u32_field
    (front after : Bytes)
    (value : UInt32) :
    u32 (front ++ (ofNatLE 4 value.toNat ++ after)) front.length = value := by
  have hvalue : value.toNat < bound 4 := value.toNat_lt
  rw [u32, littleEndian_field front after hvalue, UInt32.ofNat_toNat]

theorem u64_field
    (front after : Bytes)
    (value : UInt64) :
    u64 (front ++ (ofNatLE 8 value.toNat ++ after)) front.length = value := by
  have hvalue : value.toNat < bound 8 := value.toNat_lt
  rw [u64, littleEndian_field front after hvalue, UInt64.ofNat_toNat]

/-- So is a number that is not kept as a word. -/
theorem toNat_u16_field
    (front after : Bytes)
    {n : Nat}
    (h : n < bound 2) :
    (u16 (front ++ (ofNatLE 2 n ++ after)) front.length).toNat = n := by
  rw [toNat_u16, littleEndian_field front after h]

theorem toNat_u32_field
    (front after : Bytes)
    {n : Nat}
    (h : n < bound 4) :
    (u32 (front ++ (ofNatLE 4 n ++ after)) front.length).toNat = n := by
  rw [toNat_u32, littleEndian_field front after h]

/-- A run of bytes behind a front is read there. -/
theorem slice_field
    (front field after : Bytes) :
    slice (front ++ (field ++ after)) front.length field.length = field := by
  rw [slice, List.drop_left, List.take_left]

@[simp] theorem u16_ofNatLE_append (value : UInt16) (after : Bytes) :
    u16 (ofNatLE 2 value.toNat ++ after) 0 = value :=
  u16_field [] after value

@[simp] theorem u32_ofNatLE_append (value : UInt32) (after : Bytes) :
    u32 (ofNatLE 4 value.toNat ++ after) 0 = value :=
  u32_field [] after value

@[simp] theorem u64_ofNatLE_append (value : UInt64) (after : Bytes) :
    u64 (ofNatLE 8 value.toNat ++ after) 0 = value :=
  u64_field [] after value

theorem toNat_u16_ofNatLE_append {n : Nat} (h : n < bound 2) (after : Bytes) :
    (u16 (ofNatLE 2 n ++ after) 0).toNat = n :=
  toNat_u16_field [] after h

end Fields

section BehindByte

variable (b : UInt8)
variable (raw : Bytes)

@[simp] theorem byteAt_cons_zero :
    byteAt (b :: raw) 0 = b := rfl

@[simp] theorem u16_cons_succ (offset : Nat) :
    u16 (b :: raw) (offset + 1) = raw.u16 offset := by
  rw [u16, u16, littleEndian_cons_succ]

@[simp] theorem u32_cons_succ (offset : Nat) :
    u32 (b :: raw) (offset + 1) = raw.u32 offset := by
  rw [u32, u32, littleEndian_cons_succ]

@[simp] theorem u64_cons_succ (offset : Nat) :
    u64 (b :: raw) (offset + 1) = raw.u64 offset := by
  rw [u64, u64, littleEndian_cons_succ]

end BehindByte

section Behind

variable {front : Bytes}
variable {offset : Nat}
variable (h : front.length ≤ offset)
variable (raw : Bytes)

include h

@[simp] theorem byteAt_append_of_le :
    byteAt (front ++ raw) offset = raw.byteAt (offset - front.length) := by
  rw [← byteAt_append_right front raw, Nat.add_sub_cancel' h]

theorem littleEndian_append_of_le (width : Nat) :
    littleEndian (front ++ raw) offset width =
      raw.littleEndian (offset - front.length) width := by
  rw [← littleEndian_append_right front raw, Nat.add_sub_cancel' h]

@[simp] theorem u16_append_of_le :
    u16 (front ++ raw) offset = raw.u16 (offset - front.length) := by
  rw [u16, u16, littleEndian_append_of_le h]

@[simp] theorem u32_append_of_le :
    u32 (front ++ raw) offset = raw.u32 (offset - front.length) := by
  rw [u32, u32, littleEndian_append_of_le h]

@[simp] theorem u64_append_of_le :
    u64 (front ++ raw) offset = raw.u64 (offset - front.length) := by
  rw [u64, u64, littleEndian_append_of_le h]

end Behind

section Inside

/-- What is read inside a front does not depend on the bytes behind it. -/
theorem byteAt_append_of_lt
    {front : Bytes}
    {offset : Nat}
    (h : offset < front.length)
    (raw : Bytes) :
    byteAt (front ++ raw) offset = front.byteAt offset := by
  rw [byteAt_eq, byteAt_eq, List.getElem?_append_left h]

theorem littleEndian_append_left
    {front : Bytes}
    {offset width : Nat}
    (h : offset + width ≤ front.length)
    (raw : Bytes) :
    littleEndian (front ++ raw) offset width = front.littleEndian offset width :=
  littleEndian_congr fun _ _ => byteAt_append_of_lt (by omega) raw

end Inside

section Blank

variable {raw : Bytes}
variable (h : raw.isBlank = true)

include h

theorem byteAt_of_isBlank (offset : Nat) :
    raw.byteAt offset = 0 := by
  rw [isBlank, List.all_eq_true] at h
  rw [byteAt_eq]
  cases hbyte : raw[offset]? with
  | none => rfl
  | some b => exact beq_iff_eq.mp (h b (List.mem_of_getElem? hbyte))

/-- Zeros spell the number zero. -/
theorem littleEndian_of_isBlank (offset width : Nat) :
    raw.littleEndian offset width = 0 := by
  induction width generalizing offset with
  | zero => rfl
  | succ width ih => simp [littleEndian, byteAt_of_isBlank h, ih]

end Blank

section Spelled

variable {raw : Bytes}
variable {offset width : Nat}

/-- A number is spelled by the bytes from which it was read. -/
theorem ofNatLE_littleEndian
    (h : offset + width ≤ raw.length) :
    ofNatLE width (raw.littleEndian offset width) = raw.slice offset width := by
  induction width generalizing offset with
  | zero => simp [ofNatLE, slice]
  | succ width ih =>
      have hbyte : offset < raw.length := by omega
      have hsmall := raw[offset].toNat_lt
      have hfirst : raw.byteAt offset = raw[offset] := by
        simp [byteAt, hbyte]
      generalize hlater : raw.littleEndian (offset + 1) width = later
      have hlow : UInt8.ofNat (raw[offset].toNat + 256 * later) = raw[offset] := by
        rw [← UInt8.toNat_inj, UInt8.toNat_ofNat']
        omega
      have hhigh : (raw[offset].toNat + 256 * later) / 256 = later := by omega
      rw [littleEndian, ofNatLE, hfirst, hlater, hlow, hhigh, ← hlater, ih (by omega)]
      rw [slice, slice, List.drop_eq_getElem_cons hbyte, List.take_succ_cons]

/-- A byte is the run of length one at its place. -/
theorem singleton_byteAt
    (h : offset < raw.length) :
    [raw.byteAt offset] = raw.slice offset 1 := by
  rw [slice, List.drop_eq_getElem_cons h, List.take_succ_cons, List.take_zero]
  simp [byteAt, h]

theorem ofNatLE_u16
    (h : offset + 2 ≤ raw.length) :
    ofNatLE 2 (raw.u16 offset).toNat = raw.slice offset 2 := by
  rw [toNat_u16, ofNatLE_littleEndian h]

theorem ofNatLE_u32
    (h : offset + 4 ≤ raw.length) :
    ofNatLE 4 (raw.u32 offset).toNat = raw.slice offset 4 := by
  rw [toNat_u32, ofNatLE_littleEndian h]

/-- A run of bytes is followed by the rest. -/
theorem slice_append_drop
    (raw : Bytes)
    (offset length : Nat) :
    raw.slice offset length ++ raw.drop (offset + length) = raw.drop offset := by
  rw [slice, ← List.drop_drop, List.take_append_drop]

end Spelled

end Bytes
end Optical
