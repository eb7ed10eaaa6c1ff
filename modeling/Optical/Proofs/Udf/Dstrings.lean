import Mathlib.Data.List.DropRight
import Mathlib.Data.List.Induction
import Optical.Proofs.Text.Utf16
import Optical.Udf.Dstring

/-!
# Character strings read back

A text is stored in narrow or in wide characters, and zeros may fill up the place behind it. The
filling is taken away before the text is decoded, byte by byte from a narrow string and unit by unit
from a wide one, where an odd zero at the end belongs to no unit.

No character but U+0000 is spelled with a zero byte in UTF-8 or with a zero unit in UTF-16. A zero
byte inside a unit is left alone, so nothing of a text is taken away except U+0000 at its end, which
no reader could tell from filling.

* Stored says how a text may be stored;
* decodeDstring_eq_of_stored says what is read, whatever the text ends in;
* dstring_read_back says which texts are read back, by themselves and from a field of fixed length.
-/

namespace Optical
namespace Udf

open Text

section Filling

variable {α : Type}
variable [BEq α] [LawfulBEq α]
variable {zero : α}

theorem rdropWhile_beq_eq_self_iff {front : List α} :
    front.rdropWhile (· == zero) = front ↔ front.getLast? ≠ some zero := by
  rw [List.rdropWhile_eq_self_iff]
  induction front using List.reverseRecOn with
  | nil => simp
  | append_singleton front last _ => simp

/-- Filling is taken away as far as the last element that is none. -/
theorem rdropWhile_append_replicate
    {front : List α}
    (h : front.getLast? ≠ some zero)
    (count : Nat) :
    (front ++ List.replicate count zero).rdropWhile (· == zero) = front := by
  induction count with
  | zero =>
      rw [List.replicate_zero, List.append_nil]
      exact rdropWhile_beq_eq_self_iff.mpr h
  | succ count ih =>
      rw [List.replicate_succ', ← List.append_assoc, List.rdropWhile_concat,
        if_pos (beq_self_eq_true zero), ih]

omit [BEq α] [LawfulBEq α] in
/-- If only U+0000 is spelled with zeros, a text that does not end in it does not end in a zero. -/
theorem getLast?_flatMap_ne
    {spell : Char → List α}
    (hsome : ∀ c, spell c ≠ [])
    (hzero : ∀ c, c ≠ '\x00' → zero ∉ spell c)
    {text : List Char}
    (h : text.getLast? ≠ some '\x00') :
    (text.flatMap spell).getLast? ≠ some zero := by
  induction text using List.reverseRecOn with
  | nil => simp
  | append_singleton front c _ =>
      rw [List.getLast?_concat] at h
      rw [List.flatMap_append, List.flatMap_singleton,
        List.getLast?_append_of_ne_nil _ (hsome c)]
      exact fun hlast => hzero c (fun hc => h (congrArg some hc)) (List.mem_of_getLast? hlast)

end Filling

section Decoding

variable {text : List Char}
variable (h : text.getLast? ≠ some '\x00')
variable (zeros : Nat)

include h

/-- A text is read back from its narrow characters. -/
theorem decodeNarrow_encode_append :
    decodeNarrow (Utf8.encode text ++ List.replicate zeros 0) = text := by
  have hlast : (Utf8.encode text).getLast? ≠ some 0 :=
    getLast?_flatMap_ne (fun _ => String.utf8EncodeChar_ne_nil)
      (fun _ => Utf8.zero_not_mem_encodeChar) h
  have htrim : Bytes.trimZeros (Utf8.encode text ++ List.replicate zeros 0) = Utf8.encode text :=
    rdropWhile_append_replicate hlast zeros
  rw [decodeNarrow, htrim, Utf8.decode?_encode]
  rfl

/-- A text is read back from its wide characters. -/
theorem decodeWide_encodeBE_append :
    decodeWide (Utf16.encodeBE text ++ List.replicate zeros 0) = text := by
  have hlast : (text.flatMap Utf16.unitsOf).getLast? ≠ some 0 :=
    getLast?_flatMap_ne Utf16.unitsOf_ne_nil (fun _ => Utf16.zero_not_mem_unitsOf) h
  have htrim : trimUnits (text.flatMap Utf16.unitsOf ++ List.replicate (zeros / 2) 0) =
      text.flatMap Utf16.unitsOf :=
    rdropWhile_append_replicate hlast (zeros / 2)
  rw [decodeWide, Utf16.encodeBE, Utf16.unitsBE_flatMap_bytesOf_append,
    Utf16.unitsBE_replicate_zero, htrim, Utf16.decode_flatMap_unitsOf]

end Decoding

/-- The ways to store a text: the width of the characters, the text, and any number of zeros. -/
inductive Stored (text : List Char) : Bytes → Prop where
  | narrow (zeros : Nat) : Stored text (8 :: (Utf8.encode text ++ List.replicate zeros 0))
  | wide (zeros : Nat) : Stored text (16 :: (Utf16.encodeBE text ++ List.replicate zeros 0))

section Reading

variable {text : List Char}
variable {raw : Bytes}

theorem decodeDstring_of_stored
    (h : Stored text raw)
    (hlast : text.getLast? ≠ some '\x00') :
    decodeDstring raw = text := by
  cases h with
  | narrow zeros =>
      rw [decodeDstring, if_pos (by decide)]
      exact decodeNarrow_encode_append hlast zeros
  | wide zeros =>
      rw [decodeDstring, if_neg (by decide), if_pos (by decide)]
      exact decodeWide_encodeBE_append hlast zeros

/-- U+0000 at the end of a text is stored as filling is. -/
theorem Stored.of_concat_nul
    (h : Stored (text ++ ['\x00']) raw) :
    Stored text raw := by
  cases h with
  | narrow zeros =>
      have hnul : Utf8.encode ['\x00'] = List.replicate 1 0 := rfl
      rw [Utf8.encode_append, hnul, List.append_assoc, List.replicate_append_replicate]
      exact .narrow (1 + zeros)
  | wide zeros =>
      have hnul : Utf16.encodeBE ['\x00'] = List.replicate 2 0 := rfl
      rw [Utf16.encodeBE_append, hnul, List.append_assoc, List.replicate_append_replicate]
      exact .wide (2 + zeros)

/-- What is read is the text as far as the last character that is not U+0000. -/
theorem decodeDstring_eq_of_stored
    (h : Stored text raw) :
    decodeDstring raw = text.rdropWhile (· == '\x00') := by
  induction text using List.reverseRecOn with
  | nil => exact decodeDstring_of_stored h (by simp)
  | append_singleton front c ih =>
      by_cases hc : c = '\x00'
      · subst hc
        rw [List.rdropWhile_concat, if_pos (beq_self_eq_true '\x00')]
        exact ih h.of_concat_nul
      · rw [List.rdropWhile_concat, if_neg (by simpa using hc)]
        exact decodeDstring_of_stored h (by simpa using hc)

/-- The last byte of a field tells how many of the others are read. -/
theorem decodeField_eq
    {field : Bytes}
    {used : UInt8}
    (hlast : field.getLast? = some used)
    (hsome : 1 ≤ used.toNat)
    (hfits : used.toNat ≤ field.length - 1) :
    decodeField field = decodeDstring (field.take used.toNat) := by
  have hused : used ≠ 0 := by
    rintro rfl
    exact absurd hsome (by decide)
  rw [decodeField, hlast]
  show (if used = 0 then [] else decodeDstring (field.dropLast.take used.toNat)) = _
  rw [if_neg hused, List.dropLast_eq_take, List.take_take, Nat.min_eq_left hfits]

end Reading

/--
**Character strings are read back.** A text that is stored in narrow or in wide characters, with any
number of zeros behind it, is read back if and only if it does not end in U+0000. The same holds in
a field of fixed length whose last byte tells how many bytes are used, whatever stands between
these and the last byte.
-/
theorem dstring_read_back (text : List Char) :
    (∀ raw, Stored text raw →
      (decodeDstring raw = text ↔ text.getLast? ≠ some '\x00')) ∧
    ∀ (field : Bytes) (used : UInt8),
      field.getLast? = some used → 1 ≤ used.toNat → used.toNat ≤ field.length - 1 →
      Stored text (field.take used.toNat) →
      (decodeField field = text ↔ text.getLast? ≠ some '\x00') := by
  have hread : ∀ raw, Stored text raw →
      (decodeDstring raw = text ↔ text.getLast? ≠ some '\x00') := by
    intro raw hraw
    rw [decodeDstring_eq_of_stored hraw, rdropWhile_beq_eq_self_iff]
  refine ⟨hread, fun field used hlast hsome hfits hstored => ?_⟩
  rw [decodeField_eq hlast hsome hfits]
  exact hread _ hstored

section Small

/-- A field of thirteen bytes: ten are used, the last three of them for filling, and two are not. -/
def filledField : Bytes :=
  [16, 0xD8, 0x34, 0xDD, 0x1E, 0x01, 0x00, 0, 0, 0, 0xEE, 0xFF, 10]

/-- A pair of surrogates is read back from it, and a character whose unit ends in a zero byte. -/
theorem dstring_read_back_filled :
    filledField.getLast? = some 10 ∧
      Stored ['𝄞', 'Ā'] (filledField.take 10) ∧
      decodeField filledField = ['𝄞', 'Ā'] := by
  have hstored : Stored ['𝄞', 'Ā'] (filledField.take 10) := .wide 3
  obtain ⟨-, hfield⟩ := dstring_read_back ['𝄞', 'Ā']
  have hread := hfield filledField 10 rfl (by decide) (by decide) hstored
  exact ⟨rfl, hstored, hread.mpr (by decide)⟩

end Small

end Udf
end Optical
