import Optical.Digest.Hex
import Optical.Text.Fields
import Optical.Text.Numeral

/-!
# Reading back the fields of a line

A line is read by cutting it at its separators, and a cut finds the field that was written as long as
the separator does not stand in it. Numerals and digests consist of digits only, so no separator of
this library stands in them; the one field that may hold separators stands between a first and a
last cut.

* readDigest?_hex reads back a digest that was written;
* splitOn_joinFields, cutFirst?_append and cutLast?_append take a line apart again.
-/

namespace Optical
namespace Text

section Numerals

/-- A numeral holds digits only. -/
theorem isDigit_of_mem_writeNumeral
    {n : Nat}
    {c : Char}
    (h : c ∈ writeNumeral n) :
    c.isDigit = true :=
  Nat.isDigit_of_mem_toDigits (by decide) (by decide) h

theorem numeralDigits_of_not_mem
    {text : List Char}
    (h : '+' ∉ text) :
    numeralDigits text = text := by
  cases text with
  | nil => rfl
  | cons c rest =>
      rw [numeralDigits]
      intro digits hcons
      exact h (hcons ▸ List.mem_cons_self)

theorem writeNumeral_ne_nil (n : Nat) : writeNumeral n ≠ [] := by
  rw [writeNumeral, Nat.toDigits_eq_if (by decide)]
  split
  · exact List.cons_ne_nil _ _
  · exact List.append_ne_nil_of_right_ne_nil _ (List.cons_ne_nil _ _)

end Numerals

section Fields

variable {separator : Char}

theorem joinFields_eq_intercalate
    (fields : List (List Char)) :
    joinFields separator fields = [separator].intercalate fields := by
  induction fields with
  | nil => rfl
  | cons field rest ih =>
      cases rest with
      | nil => simp [joinFields]
      | cons next rest =>
          rw [joinFields, ih, List.intercalate_cons_cons, List.append_assoc]
          · rfl
          · exact List.cons_ne_nil _ _

/-- A line splits into its fields if the separator stands in none of them. -/
theorem splitOn_joinFields
    {fields : List (List Char)}
    (h : ∀ field ∈ fields, separator ∉ field)
    (hfields : fields ≠ []) :
    (joinFields separator fields).splitOn separator = fields := by
  rw [joinFields_eq_intercalate]
  exact List.splitOn_intercalate separator h hfields

/-- The first cut gives the first field. -/
theorem cutFirst?_append
    {field : List Char}
    (h : separator ∉ field)
    (rest : List Char) :
    cutFirst? separator (field ++ separator :: rest) = some (field, rest) := by
  induction field with
  | nil => simp [cutFirst?]
  | cons c field ih =>
      have hne : c ≠ separator := fun hc => h (hc ▸ List.mem_cons_self)
      have hrest : separator ∉ field := fun hmem => h (List.mem_cons_of_mem c hmem)
      rw [List.cons_append, cutFirst?, if_neg hne, ih hrest]
      rfl

theorem cutLast?_eq_none
    {text : List Char}
    (h : separator ∉ text) :
    cutLast? separator text = none := by
  induction text with
  | nil => rfl
  | cons c rest ih =>
      have hne : c ≠ separator := fun hc => h (hc ▸ List.mem_cons_self)
      rw [cutLast?, ih fun hmem => h (List.mem_cons_of_mem c hmem)]
      exact if_neg hne

/-- The last cut gives the last field, whatever stands before it. -/
theorem cutLast?_append
    (before : List Char)
    {field : List Char}
    (h : separator ∉ field) :
    cutLast? separator (before ++ separator :: field) = some (before, field) := by
  induction before with
  | nil =>
      rw [List.nil_append, cutLast?, cutLast?_eq_none h]
      exact if_pos rfl
  | cons c before ih =>
      rw [List.cons_append, cutLast?, ih]

end Fields

end Text

namespace Digest

section Digits

/-- A written digit is read as a digit and is in lower case. -/
theorem hexDigit_spec (n : Nat) :
    isHexDigit (hexDigit n) = true ∧ (hexDigit n).toLower = hexDigit n := by
  have hall : ∀ d < 16,
      isHexDigit (Nat.digitChar d) = true ∧ (Nat.digitChar d).toLower = Nat.digitChar d := by
    decide
  exact hall (n % 16) (Nat.mod_lt n (by decide))

/-- Every character of a written byte string is a digit. -/
theorem exists_of_mem_hex
    {raw : Bytes}
    {c : Char}
    (h : c ∈ hex raw) :
    ∃ n, c = hexDigit n := by
  obtain ⟨b, -, hc⟩ := List.mem_flatMap.mp h
  rcases List.mem_cons.mp hc with rfl | hc
  · exact ⟨b.toNat / 16, rfl⟩
  · exact ⟨b.toNat, List.mem_singleton.mp hc⟩

/-- A digest of sixteen bytes reads back. -/
theorem readDigest?_hex
    {raw : Bytes}
    (h : raw.length = 16) :
    readDigest? (hex raw) = some (hex raw) := by
  have hlength : (hex raw).length = digestDigits := by
    rw [hex_length, h]
    rfl
  have hdigits : (hex raw).all isHexDigit = true := by
    rw [List.all_eq_true]
    intro c hc
    obtain ⟨n, rfl⟩ := exists_of_mem_hex hc
    exact (hexDigit_spec n).1
  have hlower : (hex raw).map Char.toLower = hex raw := by
    have hsame : ∀ c ∈ hex raw, Char.toLower c = id c := by
      intro c hc
      obtain ⟨n, rfl⟩ := exists_of_mem_hex hc
      exact (hexDigit_spec n).2
    rw [List.map_congr_left hsame, List.map_id]
  rw [readDigest?, if_pos ⟨hlength, hdigits⟩, hlower]

theorem hexDigit_inj
    {m n : Nat}
    (h : hexDigit m = hexDigit n) :
    m % 16 = n % 16 := by
  have hall : ∀ d < 16, ∀ e < 16, Nat.digitChar d = Nat.digitChar e → d = e := by
    decide
  exact hall (m % 16) (Nat.mod_lt m (by decide)) (n % 16) (Nat.mod_lt n (by decide)) h

/-- Byte strings with the same digits are the same. -/
theorem hex_injective
    {first second : Bytes}
    (h : hex first = hex second) :
    first = second := by
  induction first generalizing second with
  | nil =>
      cases second with
      | nil => rfl
      | cons b second => simp [hex] at h
  | cons a first ih =>
      cases second with
      | nil => simp [hex] at h
      | cons b second =>
          simp only [hex, List.flatMap_cons, List.cons_append, List.nil_append,
            List.cons.injEq] at h
          obtain ⟨hhigh, hlow, hrest⟩ := h
          have hhigh := hexDigit_inj hhigh
          have hlow := hexDigit_inj hlow
          have hbyte : a.toNat = b.toNat := by
            have ha := a.toNat_lt
            have hb := b.toNat_lt
            omega
          rw [UInt8.toNat_inj.mp hbyte, ih hrest]

/-- A character that is no digit does not stand in a digest. -/
theorem not_mem_of_readDigest?
    {text digest : List Char}
    (h : readDigest? text = some digest)
    {c : Char}
    (hc : isHexDigit c = false) :
    c ∉ text := by
  intro hmem
  rw [readDigest?] at h
  split at h
  · next hdigits =>
      rw [List.all_eq_true.mp hdigits.2 c hmem] at hc
      cases hc
  · cases h

end Digits

end Digest
end Optical
