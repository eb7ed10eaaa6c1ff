import Mathlib.Data.List.Basic
import Optical.Proofs.Text.Utf8
import Optical.Text.Utf16

/-!
# Wide text

A text is written in 16-bit units, most significant byte first, and read back from them. A reader who
takes the same bytes for UTF-8 never comes to the same text, if none of the bytes is zero:

* a character that UTF-8 spells with one, two or four bytes begins with another byte there than in
  its first unit;
* one that it spells with three bytes takes up more bytes than the unit does, so the next
  characters have to be of this kind too, and the reader is at the end of the bytes before the text is
  at its end;
* a replacement character stands for two bytes of its unit that are ill-formed, so it reads as two,
  and the text would have to begin with one more and one more.

The main statements are decodeBE_encodeBE and decodeLossy_encodeBE_ne.
-/

namespace Optical
namespace Text
namespace Utf16

section Writing

/-- The units of a character. -/
def unitsOf (c : Char) : List UInt16 :=
  if c.toNat < 0x10000 then [UInt16.ofNat c.toNat]
  else [UInt16.ofNat (0xD800 + (c.toNat - 0x10000) / 0x400),
    UInt16.ofNat (0xDC00 + (c.toNat - 0x10000) % 0x400)]

/-- The bytes of a unit, most significant first. -/
def bytesOf (unit : UInt16) : Bytes :=
  [UInt8.ofNat (unit.toNat / 256), UInt8.ofNat (unit.toNat % 256)]

/-- The bytes of a text in big-endian units. -/
def encodeBE (text : List Char) : Bytes :=
  (text.flatMap unitsOf).flatMap bytesOf

theorem encodeBE_cons
    (c : Char)
    (text : List Char) :
    encodeBE (c :: text) = (unitsOf c).flatMap bytesOf ++ encodeBE text := by
  rw [encodeBE, List.flatMap_cons, List.flatMap_append, encodeBE]

theorem encodeBE_append
    (front back : List Char) :
    encodeBE (front ++ back) = encodeBE front ++ encodeBE back := by
  rw [encodeBE, List.flatMap_append, List.flatMap_append, encodeBE, encodeBE]

theorem unitsOf_ne_nil (c : Char) :
    unitsOf c ≠ [] := by
  rw [unitsOf]
  split <;> exact List.cons_ne_nil _ _

/-- How the bytes of a character begin: with the upper half of its unit, or of a surrogate. -/
inductive Wide (c : Char) : Bytes → Prop
  | one {high low : UInt8} :
      c.toNat < 0x10000 → high.toNat = c.toNat / 256 → Wide c [high, low]
  | two {first : UInt8} {later : Bytes} :
      0x10000 ≤ c.toNat → 0xD8 ≤ first.toNat → first.toNat < 0xDC → Wide c (first :: later)

theorem toNat_char_cases (c : Char) :
    c.toNat < 0xD800 ∨ 0xDFFF < c.toNat ∧ c.toNat < 0x110000 := c.valid

theorem wide_encodeBE (c : Char) :
    Wide c ((unitsOf c).flatMap bytesOf) := by
  have hvalid := toNat_char_cases c
  rw [unitsOf]
  split
  · next hshort =>
      simp only [List.flatMap_cons, List.flatMap_nil, List.append_nil, bytesOf,
        UInt16.toNat_ofNat_of_lt' hshort]
      exact .one hshort (UInt8.toNat_ofNat_of_lt' (show _ < 0x100 by omega))
  · next hlong =>
      have hunit := UInt16.toNat_ofNat_of_lt'
        (n := 0xD800 + (c.toNat - 0x10000) / 0x400) (show _ < 0x10000 by omega)
      have hbyte := UInt8.toNat_ofNat_of_lt'
        (n := (0xD800 + (c.toNat - 0x10000) / 0x400) / 256) (show _ < 0x100 by omega)
      simp only [List.flatMap_cons, bytesOf, hunit, List.cons_append]
      exact .two (by omega) (by omega) (by omega)

end Writing

section Reading

/-- The units in front are read whatever bytes follow them. -/
theorem unitsBE_flatMap_bytesOf_append
    (units : List UInt16)
    (raw : Bytes) :
    unitsBE (units.flatMap bytesOf ++ raw) = units ++ unitsBE raw := by
  induction units with
  | nil => rfl
  | cons unit units ih =>
      have hbound := unit.toNat_lt
      have hhigh := UInt8.toNat_ofNat_of_lt' (n := unit.toNat / 256) (show _ < 0x100 by omega)
      have hlow := UInt8.toNat_ofNat_of_lt' (n := unit.toNat % 256) (show _ < 0x100 by omega)
      simp only [List.flatMap_cons, bytesOf, List.cons_append, List.nil_append, unitsBE, ih, hhigh,
        hlow]
      rw [Nat.div_add_mod', UInt16.ofNat_toNat]

@[simp] theorem unitsBE_flatMap_bytesOf (units : List UInt16) :
    unitsBE (units.flatMap bytesOf) = units := by
  simpa [unitsBE] using unitsBE_flatMap_bytesOf_append units []

/-- Zeros are units of zero, and an odd one at the end is left out. -/
theorem unitsBE_replicate_zero :
    (count : Nat) → unitsBE (List.replicate count 0) = List.replicate (count / 2) 0
  | 0 => rfl
  | 1 => rfl
  | count + 2 => by
      rw [List.replicate_succ, List.replicate_succ, unitsBE, unitsBE_replicate_zero count,
        Nat.add_div_right count Nat.two_pos, List.replicate_succ]
      rfl

theorem isHigh_iff (unit : UInt16) :
    isHigh unit = true ↔ 0xD800 ≤ unit.toNat ∧ unit.toNat < 0xDC00 := by
  simp [isHigh, UInt16.le_iff_toNat_le, UInt16.lt_iff_toNat_lt]

theorem isLow_iff (unit : UInt16) :
    isLow unit = true ↔ 0xDC00 ≤ unit.toNat ∧ unit.toNat < 0xE000 := by
  simp [isLow, UInt16.le_iff_toNat_le, UInt16.lt_iff_toNat_lt]

/-- A unit that is no surrogate is a character. -/
theorem decode_cons
    {unit : UInt16}
    (hhigh : ¬ isHigh unit = true)
    (hlow : ¬ isLow unit = true)
    (rest : List UInt16) :
    decode (unit :: rest) = Char.ofNat unit.toNat :: decode rest := by
  cases rest with
  | nil => simp [decode, hhigh, hlow]
  | cons next rest => simp [decode, hhigh, hlow]

/-- Two surrogates in order are a character. -/
theorem decode_pair
    {high low : UInt16}
    (hhigh : isHigh high = true)
    (hlow : isLow low = true)
    (rest : List UInt16) :
    decode (high :: low :: rest) = pair high low :: decode rest := by
  simp [decode, hhigh, hlow]

theorem decode_unitsOf_append
    (c : Char)
    (rest : List UInt16) :
    decode (unitsOf c ++ rest) = c :: decode rest := by
  have hvalid := toNat_char_cases c
  rw [unitsOf]
  split
  · next hshort =>
      have hunit := UInt16.toNat_ofNat_of_lt' hshort
      rw [List.singleton_append, decode_cons, hunit, Char.ofNat_toNat]
      · rw [isHigh_iff, hunit]
        omega
      · rw [isLow_iff, hunit]
        omega
  · next hlong =>
      have hfirst := UInt16.toNat_ofNat_of_lt'
        (n := 0xD800 + (c.toNat - 0x10000) / 0x400) (show _ < 0x10000 by omega)
      have hsecond := UInt16.toNat_ofNat_of_lt'
        (n := 0xDC00 + (c.toNat - 0x10000) % 0x400) (show _ < 0x10000 by omega)
      rw [List.cons_append, List.cons_append, List.nil_append, decode_pair]
      · have hnumber : 0x10000 + (0xD800 + (c.toNat - 0x10000) / 0x400 - 0xD800) * 0x400 +
            (0xDC00 + (c.toNat - 0x10000) % 0x400 - 0xDC00) = c.toNat := by
          omega
        rw [pair, hfirst, hsecond, hnumber, Char.ofNat_toNat]
      · rw [isHigh_iff, hfirst]
        omega
      · rw [isLow_iff, hsecond]
        omega

/-- A text is read back from its units. -/
theorem decode_flatMap_unitsOf (text : List Char) :
    decode (text.flatMap unitsOf) = text := by
  induction text with
  | nil => rfl
  | cons c text ih => rw [List.flatMap_cons, decode_unitsOf_append, ih]

@[simp] theorem decodeBE_encodeBE (text : List Char) :
    decodeBE (encodeBE text) = text := by
  rw [decodeBE, encodeBE, unitsBE_flatMap_bytesOf, decode_flatMap_unitsOf]

/-- Only U+0000 has a unit of zero. -/
theorem zero_not_mem_unitsOf
    {c : Char}
    (h : c ≠ '\x00') :
    0 ∉ unitsOf c := by
  have hvalid := toNat_char_cases c
  have hnumber : c.toNat ≠ 0 := fun hzero => h (Char.toNat_inj.mp hzero)
  have hne : ∀ n : Nat, n < 0x10000 → n ≠ 0 → (0 : UInt16) ≠ UInt16.ofNat n := by
    intro n hn hpos hzero
    rw [← UInt16.toNat_inj, UInt16.toNat_ofNat_of_lt' hn] at hzero
    exact hpos hzero.symm
  rw [unitsOf]
  split
  · next hshort =>
      rw [List.mem_singleton]
      exact hne _ hshort hnumber
  · next hlong =>
      rw [List.mem_pair, not_or]
      exact ⟨hne _ (by omega) (by omega), hne _ (by omega) (by omega)⟩

end Reading

section Mistaken

/-- A character of the text that is not the replacement character was spelled in UTF-8. -/
theorem exists_of_decodeLossy_eq_cons
    {raw : Bytes}
    {c : Char}
    {text : List Char}
    (h : Utf8.decodeLossy raw = c :: text)
    (hc : c ≠ '\uFFFD') :
    ∃ rest, raw = String.utf8EncodeChar c ++ rest ∧ Utf8.decodeLossy rest = text := by
  rw [Utf8.decodeLossy, List.map_eq_cons_iff] at h
  obtain ⟨mark, later, hmarks, hmark, hlater⟩ := h
  cases mark with
  | none => exact absurd hmark.symm hc
  | some found =>
      cases hmark
      obtain ⟨rest, hraw, hrest⟩ := Utf8.exists_of_marks_eq_some hmarks
      exact ⟨rest, hraw, by rw [Utf8.decodeLossy, ← hrest, hlater]⟩

/-- The byte can stand in the UTF-8 spelling of a character of three bytes. -/
def InThree (b : UInt8) : Prop :=
  0x80 ≤ b.toNat ∧ b.toNat < 0xC0 ∨ 0xE0 ≤ b.toNat ∧ b.toNat < 0xF0

/-- How a character is spelled in UTF-8, told by its first byte. -/
theorem exists_encodeChar_eq_cons (c : Char) :
    ∃ b later, String.utf8EncodeChar c = b :: later ∧
      (c.toNat < 0x80 ∨
        (c.toNat < 0x800 ∧ 0xC2 ≤ b.toNat) ∨
        (0x800 ≤ c.toNat ∧ c.toNat < 0x10000 ∧
          ∃ x y, later = [x, y] ∧ InThree b ∧ InThree x ∧ InThree y) ∨
        (0x10000 ≤ c.toNat ∧ 0xF0 ≤ b.toNat)) := by
  have hspelled : Utf8.Spelled (String.utf8EncodeChar c) c.toNat := Utf8.spelled_encodeChar c
  generalize String.utf8EncodeChar c = spelling at hspelled
  generalize c.toNat = n at hspelled
  cases hspelled with
  | one hb => exact ⟨_, _, rfl, Or.inl hb⟩
  | two hlow hhigh hx =>
      rw [Utf8.isContinuation_iff] at hx
      exact ⟨_, _, rfl, Or.inr (Or.inl ⟨by omega, hlow⟩)⟩
  | @three b x y bits hlow hhigh hx hy =>
      rw [Utf8.isContinuation_iff] at hx hy
      refine ⟨_, _, rfl, Or.inr (Or.inr (Or.inl ⟨by omega, by omega, x, y, rfl, ?_⟩))⟩
      exact ⟨Or.inr ⟨hlow, hhigh⟩, Or.inl hx, Or.inl hy⟩
  | four hlow =>
      exact ⟨_, _, rfl, Or.inr (Or.inr (Or.inr ⟨by omega, hlow⟩))⟩

/-- A first byte of this kind is the upper half of the only unit of a character of three bytes. -/
theorem Wide.of_inThree
    {c : Char}
    {first : UInt8}
    {later : Bytes}
    (h : Wide c (first :: later))
    (hfirst : InThree first) :
    (∃ low, later = [low]) ∧ 0x800 ≤ c.toNat ∧ c.toNat < 0x10000 ∧ c ≠ '\uFFFD' := by
  rw [InThree] at hfirst
  cases h with
  | @one _ low hunit hhigh =>
      refine ⟨⟨low, rfl⟩, by omega, hunit, ?_⟩
      rintro rfl
      have hreplacement : '\uFFFD'.toNat / 256 = 0xFF := rfl
      omega
  | two => omega

/--
A reader of UTF-8 who is ahead of the text, past bytes of characters of three bytes, stays ahead: the
text goes on with a character of this kind, which takes one byte more than its unit.
-/
theorem decodeLossy_ne_of_ahead
    {text : List Char}
    {ahead raw : Bytes}
    (hbytes : encodeBE text = ahead ++ raw)
    (hahead : ahead ≠ [])
    (hthree : ∀ b ∈ ahead, InThree b) :
    Utf8.decodeLossy raw ≠ text := by
  induction text generalizing ahead raw with
  | nil => exact fun _ => hahead (List.append_eq_nil_iff.mp hbytes.symm).1
  | cons c text ih =>
      intro hread
      obtain ⟨first, others, rfl⟩ := List.exists_cons_of_ne_nil hahead
      have hwide := wide_encodeBE c
      rw [encodeBE_cons] at hbytes
      generalize (unitsOf c).flatMap bytesOf = bytes at hwide hbytes
      obtain ⟨later, rfl⟩ : ∃ later, bytes = first :: later := by
        cases hwide <;> simp at hbytes <;> simp [hbytes.1]
      obtain ⟨⟨low, rfl⟩, hleast, hmost, hc⟩ := hwide.of_inThree (hthree first List.mem_cons_self)
      -- The reader takes three bytes for the character, and the text has two.
      obtain ⟨rest, rfl, hrest⟩ := exists_of_decodeLossy_eq_cons hread hc
      obtain ⟨b, x, y, hspelled, hinside⟩ : ∃ b x y,
          String.utf8EncodeChar c = [b, x, y] ∧ ∀ byte ∈ [b, x, y], InThree byte := by
        obtain ⟨b, _, hspelled, h | h | ⟨-, -, x, y, rfl, hb, hx, hy⟩ | h⟩ :=
          exists_encodeChar_eq_cons c
        · omega
        · omega
        · exact ⟨b, x, y, hspelled, by simp [hb, hx, hy]⟩
        · omega
      rw [hspelled] at hbytes
      have htail := congrArg (List.drop 2) hbytes
      rw [← List.append_assoc, List.drop_append_of_le_length (by simp),
        List.drop_append_of_le_length (by simp)] at htail
      refine ih htail (fun hnone => ?_) (fun byte hbyte => ?_) hrest
      · have hlength := congrArg List.length hnone
        simp at hlength
      · rcases List.mem_append.mp (List.mem_of_mem_drop hbyte) with hold | hnew
        · exact hthree byte hold
        · exact hinside byte hnew

/-- The bytes of a replacement character are ill-formed, each by itself. -/
theorem decodeLossy_encodeBE_replacement (text : List Char) :
    Utf8.decodeLossy (encodeBE ('\uFFFD' :: text)) =
      '\uFFFD' :: '\uFFFD' :: Utf8.decodeLossy (encodeBE text) := by
  have hbytes : (unitsOf '\uFFFD').flatMap bytesOf = [0xFF, 0xFD] := rfl
  rw [encodeBE_cons, hbytes]
  rfl

/-- A text does not begin with replacement characters before what its bytes read as. -/
theorem ne_replicate_append_decodeLossy
    (text : List Char)
    (count : Nat) :
    text ≠ List.replicate (count + 1) '\uFFFD' ++ Utf8.decodeLossy (encodeBE text) := by
  induction text generalizing count with
  | nil => simp [List.replicate_succ]
  | cons c text ih =>
      intro hread
      rw [List.replicate_succ, List.cons_append, List.cons.injEq] at hread
      obtain ⟨rfl, hlater⟩ := hread
      rw [decodeLossy_encodeBE_replacement, List.append_cons, List.append_cons,
        ← List.replicate_succ', ← List.replicate_succ'] at hlater
      exact ih (count + 1) hlater

/-- Wide text without a zero byte is not read back as UTF-8. -/
theorem decodeLossy_encodeBE_ne
    {text : List Char}
    (hsome : text ≠ [])
    (hzero : 0 ∉ encodeBE text) :
    Utf8.decodeLossy (encodeBE text) ≠ text := by
  intro hread
  obtain ⟨c, rest, rfl⟩ := List.exists_cons_of_ne_nil hsome
  by_cases hc : c = '\uFFFD'
  · subst hc
    rw [decodeLossy_encodeBE_replacement, List.cons.injEq] at hread
    exact ne_replicate_append_decodeLossy rest 0 hread.2.symm
  · obtain ⟨raw, hraw, hrest⟩ := exists_of_decodeLossy_eq_cons hread hc
    obtain ⟨b, later, hspelled, hkind⟩ := exists_encodeChar_eq_cons c
    have hwide := wide_encodeBE c
    rw [hspelled, encodeBE_cons] at hraw
    rw [encodeBE_cons] at hzero
    generalize (unitsOf c).flatMap bytesOf = bytes at hwide hraw hzero
    cases hwide with
    | @one high low hshort hhigh =>
        simp only [List.cons_append, List.nil_append, List.cons.injEq] at hraw
        obtain ⟨rfl, hraw⟩ := hraw
        rcases hkind with hone | htwo | ⟨-, -, x, y, rfl, -, -, hy⟩ | hfour
        · -- A character of one byte has a zero byte in its unit.
          have hempty : high = 0 := by
            rw [← UInt8.toNat_inj, hhigh]
            exact Nat.div_eq_of_lt (by omega)
          simp [hempty] at hzero
        · omega
        · simp only [List.cons_append, List.nil_append, List.cons.injEq] at hraw
          have hahead : encodeBE rest = [y] ++ raw := hraw.2
          exact decodeLossy_ne_of_ahead hahead (by simp) (by simp [hy]) hrest
        · omega
    | @two first _ hlong hlow hhigh =>
        rw [List.cons_append, List.cons_append, List.cons.injEq] at hraw
        rw [hraw.1] at hlow hhigh
        omega

end Mistaken

end Utf16
end Text
end Optical
