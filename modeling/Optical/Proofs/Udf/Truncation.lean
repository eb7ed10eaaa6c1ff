import Optical.Proofs.Bytes.Truncation
import Optical.Udf.FileEntry

/-!
# Structures that are cut short

The decoders of tags, pointers, times and file entries take numbers at fixed places, parts of the
bytes, and in a file entry an extent at an offset that is itself a number in the bytes. Byte strings
that are alike give the same numbers, so they also agree on that offset, and on the extent.

* DecodedAlike lists what is read;
* decodedAlike_of_alike says that the bytes determine all of it;
* truncated_reads_zero_extended is about a structure that is cut short.
-/

namespace Optical

section Decoders

variable {raw other : Bytes}
variable (h : raw.Alike other)

include h

theorem StampTime.ofBytes_of_alike :
    ofBytes raw = ofBytes other := by
  simp only [ofBytes, h.u16, h _]

namespace Udf

theorem Tag.parse_of_alike :
    parse raw = parse other := by
  simp only [parse, h.u16, h.u32, h _]

theorem ExtentPointer.parse_of_alike (offset : Nat) :
    parse raw offset = parse other offset := by
  rw [parse, parse, h.u32, h.u32]

theorem BlockPointer.parse_of_alike (offset : Nat) :
    parse raw offset = parse other offset := by
  rw [parse, parse, h.u32, h.u32, h.u16]

theorem Allocation.parse_of_alike (offset : Nat) :
    parse raw offset = parse other offset := by
  rw [parse, parse, h.u32, h.u32]

namespace FileEntry

/-- The lengths that tell where the extent is are the same, and so is the extent. -/
theorem allocationOf_of_alike (form : EntryForm) :
    allocationOf raw form = allocationOf other form := by
  rw [allocationOf, allocationOf, h.u32, h.u32, Allocation.parse_of_alike h]

theorem parse_of_alike (extended : Bool) :
    parse raw extended = parse other extended := by
  have hmodified := StampTime.ofBytes_of_alike (h.slice (EntryForm.of extended).modifiedAt 12)
  simp only [parse, h.u16, h.u32, h.u64, h _, hmodified, allocationOf_of_alike h]

end FileEntry

end Udf

end Decoders

namespace Udf

/-- The decoders cannot tell two byte strings apart, at any offset and in any part. -/
structure DecodedAlike (raw other : Bytes) : Prop where
  byte : ∀ offset, raw.byteAt offset = other.byteAt offset
  u16 : ∀ offset, raw.u16 offset = other.u16 offset
  u32 : ∀ offset, raw.u32 offset = other.u32 offset
  u64 : ∀ offset, raw.u64 offset = other.u64 offset
  u32be : ∀ offset, raw.u32be offset = other.u32be offset
  u16both : ∀ offset, raw.u16both offset = other.u16both offset
  u32both : ∀ offset, raw.u32both offset = other.u32both offset
  slice : ∀ offset length, (raw.slice offset length).Alike (other.slice offset length)
  tag : Tag.parse raw = Tag.parse other
  extent : ∀ offset, ExtentPointer.parse raw offset = ExtentPointer.parse other offset
  block : ∀ offset, BlockPointer.parse raw offset = BlockPointer.parse other offset
  time : StampTime.ofBytes raw = StampTime.ofBytes other
  entry : ∀ extended, FileEntry.parse raw extended = FileEntry.parse other extended

theorem decodedAlike_of_alike
    {raw other : Bytes}
    (h : raw.Alike other) :
    DecodedAlike raw other where
  byte := h
  u16 := h.u16
  u32 := h.u32
  u64 := h.u64
  u32be := h.u32be
  u16both := h.u16
  u32both := h.u32
  slice := h.slice
  tag := Tag.parse_of_alike h
  extent := ExtentPointer.parse_of_alike h
  block := BlockPointer.parse_of_alike h
  time := StampTime.ofBytes_of_alike h
  entry := FileEntry.parse_of_alike h

/--
**What is cut short reads as if zeros stood behind the cut.** The numbers at an offset have the
values of the bytes there, the missing ones being zero. A part is what lies inside its range; it is
cut out inside the bytes even if the end of the range is beyond the greatest offset. And no decoder
can tell the bytes from those that go on with any number of zeros.
-/
theorem truncated_reads_zero_extended
    {raw : Bytes}
    (h : raw.length < offsetBound) :
    (∀ offset, raw.NumbersAt offset) ∧
      (∀ offset length,
        (∀ index, (raw.slice offset length)[index]? =
          if index < length then raw[offset + index]? else none) ∧
        raw.between? (min offset raw.length)
            (min (min (offset + length) (offsetBound - 1)) raw.length) =
          some (raw.slice offset length)) ∧
      ∀ zeros, DecodedAlike raw (raw ++ List.replicate zeros 0) :=
  ⟨raw.numbersAt,
    fun offset length => ⟨raw.getElem?_slice offset length, Bytes.between?_clamped h offset length⟩,
    fun zeros => decodedAlike_of_alike (raw.alike_append_zeros zeros)⟩

section Small

/-- An extended file entry with five bytes of attributes that ends inside the length of its extent. -/
def cutEntry : Bytes :=
  List.replicate 208 0 ++ Bytes.ofNatLE 4 5 ++ Bytes.ofNatLE 4 8 ++ [8, 0, 0, 0, 8] ++ [5, 1]

/--
What is left of the length is read. The part that begins before it and has the greatest length ends
with it.
-/
theorem truncated_reads_zero_extended_cut :
    cutEntry.length < offsetBound ∧
      (cutEntry.u32 221).toNat = Nat.ofDigits 256 [5, 1, 0, 0] ∧
      cutEntry.between? (min 220 223)
          (min (min (220 + (offsetBound - 1)) (offsetBound - 1)) 223) = some [8, 5, 1] ∧
      (FileEntry.parse (cutEntry ++ List.replicate 100 0) true).allocation = ⟨0x105, 0⟩ := by
  have hlength : cutEntry.length = 223 := by
    simp only [cutEntry, List.length_append, List.length_replicate, Bytes.ofNatLE_length,
      List.length_cons, List.length_nil]
  have hshort : cutEntry.length < offsetBound := by
    rw [hlength]
    decide
  obtain ⟨hnumbers, hparts, halike⟩ := truncated_reads_zero_extended hshort
  have hpart := (hparts 220 (offsetBound - 1)).2
  rw [hlength] at hpart
  refine ⟨hshort, (hnumbers 221).u32, hpart, ?_⟩
  rw [← (halike 100).entry]
  decide

end Small

end Udf
end Optical
