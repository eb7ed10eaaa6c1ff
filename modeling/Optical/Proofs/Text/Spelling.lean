import Mathlib.Algebra.GroupWithZero.Nat
import Mathlib.Data.List.DropRight
import Mathlib.Data.List.Forall2
import Optical.Error
import Optical.Proofs.Text.Lines
import Optical.Text.Blank

/-!
# What lines spell

A line is read more freely than it is written. A numeral may have a plus sign and leading zeros, a
digest may be in either case, and there may be blanks around a field. This module says, without the
readers, which texts stand for a number, a digest or a field; the readers accept these and no
others.

* readNumeral?_eq_some_iff is about numerals and readDigest?_eq_some_iff about digests;
* trimBlanks_eq_of_padded and padded_trimBlanks are about blanks around a field;
* cutFirst?_eq_some_iff and cutLast?_eq_some_iff say where a line is cut;
* LineFormat says what it takes for values to be kept as lines, and lineFormat_of_spelling how
  little of it has to be shown for one format.
-/

namespace Optical
namespace Text

section Numerals

/-- One digit or more, leading zeros among them, and the number that they stand for. -/
inductive Digits : List Char → Nat → Prop where
  | single {d : Nat} (hdigit : d < 10) : Digits [Nat.digitChar d] d
  | more {digits : List Char} {n d : Nat} (front : Digits digits n) (hdigit : d < 10) :
      Digits (digits ++ [Nat.digitChar d]) (10 * n + d)

/-- Digits, with a plus sign before them or without one. -/
inductive Numeral : List Char → Nat → Prop where
  | plain {digits : List Char} {n : Nat} (h : Digits digits n) : Numeral digits n
  | signed {digits : List Char} {n : Nat} (h : Digits digits n) : Numeral ('+' :: digits) n

theorem exists_digitChar_eq
    {c : Char}
    (h : c.isDigit = true) :
    ∃ d < 10, c = Nat.digitChar d := by
  obtain ⟨hlower, hupper⟩ := Char.isDigit_iff_toNat.mp h
  have hlower : 48 ≤ c.toNat := hlower
  have hupper : c.toNat ≤ 57 := hupper
  have hdigit : c.toNat - 48 < 10 := by omega
  refine ⟨c.toNat - 48, hdigit, Char.toNat_inj.mp ?_⟩
  rw [Nat.toNat_digitChar_of_lt_ten hdigit]
  omega

/-- Digits are read from the left as numbers are, ten times what stands before plus the next. -/
theorem digits_iff
    (text : List Char)
    (n : Nat) :
    Digits text n
      ↔
    text ≠ [] ∧ (∀ c ∈ text, c.isDigit = true) ∧ Nat.ofDigitChars 10 text 0 = n := by
  constructor
  · intro h
    induction h with
    | single hdigit =>
        refine ⟨List.cons_ne_nil _ _, ?_, ?_⟩
        · simp [Nat.isDigit_digitChar, hdigit]
        · rw [Nat.ofDigitChars_cons_digitChar_of_lt_ten hdigit, Nat.ofDigitChars_nil]
          omega
    | more _ hdigit ih =>
        obtain ⟨-, hall, hvalue⟩ := ih
        refine ⟨List.append_ne_nil_of_right_ne_nil _ (List.cons_ne_nil _ _), ?_, ?_⟩
        · rw [List.forall_mem_append]
          exact ⟨hall, by simp [Nat.isDigit_digitChar, hdigit]⟩
        · rw [Nat.ofDigitChars_append, hvalue, Nat.ofDigitChars_cons_digitChar_of_lt_ten hdigit,
            Nat.ofDigitChars_nil]
  · rintro ⟨hsome, hall, rfl⟩
    induction text using List.reverseRecOn with
    | nil => exact absurd rfl hsome
    | append_singleton front c ih =>
        rw [List.forall_mem_append] at hall
        obtain ⟨d, hdigit, rfl⟩ := exists_digitChar_eq (hall.2 c List.mem_cons_self)
        rw [Nat.ofDigitChars_append, Nat.ofDigitChars_cons_digitChar_of_lt_ten hdigit,
          Nat.ofDigitChars_nil]
        cases front with
        | nil =>
            rw [Nat.ofDigitChars_nil, Nat.mul_zero, Nat.zero_add]
            exact .single hdigit
        | cons first front => exact .more (ih (List.cons_ne_nil _ _) hall.1) hdigit

instance (text : List Char) (n : Nat) : Decidable (Digits text n) :=
  decidable_of_iff
    (text ≠ [] ∧ text.all Char.isDigit = true ∧ Nat.ofDigitChars 10 text 0 = n)
    (by rw [digits_iff, List.all_eq_true])

theorem plus_not_mem_of_digits
    {digits : List Char}
    {n : Nat}
    (h : Digits digits n) :
    '+' ∉ digits := by
  intro hmem
  have hplus := ((digits_iff digits n).mp h).2.1 '+' hmem
  cases hplus

/-- A numeral is what is left of it without its sign. -/
theorem numeral_iff
    (text : List Char)
    (n : Nat) :
    Numeral text n ↔ Digits (numeralDigits text) n := by
  constructor
  · intro h
    cases h with
    | plain h =>
        rw [numeralDigits_of_not_mem (plus_not_mem_of_digits h)]
        exact h
    | signed h => exact h
  · intro h
    rw [numeralDigits.eq_def] at h
    split at h
    · exact .signed h
    · exact .plain h

theorem numeralBound_eq : numeralBound = 2 ^ 64 := by decide

/-- A numeral is read if its number has 64 bits, and refused otherwise. -/
theorem readNumeral?_of_numeral
    {text : List Char}
    {n : Nat}
    (h : Numeral text n) :
    readNumeral? text = if n < 2 ^ 64 then some n else none := by
  obtain ⟨hsome, hall, hvalue⟩ := (digits_iff _ n).mp ((numeral_iff text n).mp h)
  rw [readNumeral?, numeralBound_eq]
  simp only [List.all_eq_true.mpr hall, List.isEmpty_eq_false_iff.mpr hsome, hvalue]
  rfl

/-- Nothing but a numeral is read. -/
theorem numeral_of_readNumeral?
    {text : List Char}
    {n : Nat}
    (h : readNumeral? text = some n) :
    Numeral text n := by
  rw [readNumeral?] at h
  split at h
  · cases h
  · next hgood =>
      rw [Bool.or_eq_true, Bool.not_eq_true', not_or, Bool.not_eq_false, List.isEmpty_iff,
        List.all_eq_true] at hgood
      simp only at h
      split at h
      · exact (numeral_iff text n).mpr
          ((digits_iff _ n).mpr ⟨hgood.1, hgood.2, Option.some.inj h⟩)
      · cases h

/-- The numerals of 64-bit numbers are read, and nothing else is. -/
theorem readNumeral?_eq_some_iff
    (text : List Char)
    (n : Nat) :
    readNumeral? text = some n ↔ Numeral text n ∧ n < 2 ^ 64 := by
  constructor
  · intro h
    have hnumeral := numeral_of_readNumeral? h
    rw [readNumeral?_of_numeral hnumeral] at h
    split at h
    · next hsmall => exact ⟨hnumeral, hsmall⟩
    · cases h
  · rintro ⟨hnumeral, hsmall⟩
    rw [readNumeral?_of_numeral hnumeral, if_pos hsmall]

/-- What is written for a number is a numeral of it. -/
theorem numeral_writeNumeral (n : Nat) : Numeral (writeNumeral n) n := by
  refine .plain ((digits_iff _ n).mpr ⟨writeNumeral_ne_nil n, ?_, Nat.ofDigitChars_ten_toDigits⟩)
  exact fun c hc => isDigit_of_mem_writeNumeral hc

/-- What holds of the plus sign and of every digit holds of every character of a numeral. -/
theorem Numeral.forall_mem
    {P : Char → Prop}
    (hplus : P '+')
    (hdigits : ∀ d < 10, P (Nat.digitChar d))
    {text : List Char}
    {n : Nat}
    (h : Numeral text n) :
    ∀ c ∈ text, P c := by
  have hall {digits : List Char} {m : Nat} (h : Digits digits m) : ∀ c ∈ digits, P c := by
    induction h with
    | single hdigit => exact List.forall_mem_singleton.mpr (hdigits _ hdigit)
    | more _ hdigit ih =>
        exact List.forall_mem_append.mpr ⟨ih, List.forall_mem_singleton.mpr (hdigits _ hdigit)⟩
  cases h with
  | plain h => exact hall h
  | signed h => exact List.forall_mem_cons.mpr ⟨hplus, hall h⟩

theorem Numeral.ne_nil
    {text : List Char}
    {n : Nat}
    (h : Numeral text n) :
    text ≠ [] := by
  cases h with
  | plain h => exact ((digits_iff _ _).mp h).1
  | signed h => exact List.cons_ne_nil _ _

end Numerals

section Blanks

/-- A field with blanks around a text, or with none. -/
def Padded (core field : List Char) : Prop :=
  ∃ before after,
    (∀ c ∈ before, isBlank c = true) ∧
    (∀ c ∈ after, isBlank c = true) ∧
    field = before ++ core ++ after

theorem padded_self (field : List Char) : Padded field field :=
  ⟨[], [], List.forall_mem_nil _, List.forall_mem_nil _, (List.append_nil field).symm⟩

theorem trimBlanks_eq (field : List Char) :
    trimBlanks field = (field.dropWhile isBlank).rdropWhile isBlank := rfl

/-- What is trimmed off are blanks. -/
theorem padded_trimBlanks (field : List Char) : Padded (trimBlanks field) field := by
  refine ⟨field.takeWhile isBlank, (field.dropWhile isBlank).rtakeWhile isBlank, ?_, ?_, ?_⟩
  · intro c hc
    exact List.mem_takeWhile_imp hc
  · intro c hc
    exact List.mem_rtakeWhile_imp hc
  · rw [trimBlanks_eq, List.append_assoc, List.rdropWhile_append_rtakeWhile,
      List.takeWhile_append_dropWhile]

/-- A text without blanks is what is left of a field that has it with blanks around it. -/
theorem trimBlanks_eq_of_padded
    {core field : List Char}
    (h : Padded core field)
    (hsome : core ≠ [])
    (hcore : ∀ c ∈ core, isBlank c = false) :
    trimBlanks field = core := by
  obtain ⟨before, after, hbefore, hafter, rfl⟩ := h
  have hfront : (core ++ after).dropWhile isBlank = core ++ after := by
    cases core with
    | nil => exact absurd rfl hsome
    | cons c core =>
        have hfirst := hcore c List.mem_cons_self
        rw [List.cons_append, List.dropWhile_cons, hfirst]
        rfl
  have hback : core.reverse.dropWhile isBlank = core.reverse := by
    rw [List.dropWhile_eq_self_iff]
    intro hlength
    rw [hcore _ (List.mem_reverse.mp (List.getElem_mem hlength))]
    exact Bool.false_ne_true
  rw [trimBlanks_eq, List.append_assoc, List.dropWhile_append_of_pos hbefore, hfront,
    List.rdropWhile, List.reverse_append, List.dropWhile_append_of_pos, hback,
    List.reverse_reverse]
  exact fun c hc => hafter c (List.mem_reverse.mp hc)

/-- A character that is no blank stands in a field only if it stands between the blanks. -/
theorem Padded.not_mem
    {core field : List Char}
    (h : Padded core field)
    {c : Char}
    (hblank : isBlank c = false)
    (hcore : c ∉ core) :
    c ∉ field := by
  have hnone {blanks : List Char} (hblanks : ∀ c ∈ blanks, isBlank c = true) : c ∉ blanks := by
    intro hmem
    rw [hblanks c hmem] at hblank
    cases hblank
  obtain ⟨before, after, hbefore, hafter, rfl⟩ := h
  simp only [List.mem_append, not_or]
  exact ⟨⟨hnone hbefore, hcore⟩, hnone hafter⟩

end Blanks

section Cuts

variable {separator : Char}

/-- A line is its fields with separators between them. -/
theorem joinFields_splitOn
    (separator : Char)
    (line : List Char) :
    joinFields separator (line.splitOn separator) = line := by
  rw [joinFields_eq_intercalate, List.intercalate_splitOn]

/-- The first field of a line is the one before its first separator. -/
theorem exists_splitOn_joinFields_cons
    {field : List Char}
    (h : separator ∉ field)
    (fields : List (List Char)) :
    ∃ later, (joinFields separator (field :: fields)).splitOn separator = field :: later := by
  cases fields with
  | nil => exact ⟨[], List.splitOn_eq_singleton h⟩
  | cons next fields => exact ⟨_, List.splitOn_append_cons_self_of_not_mem h _⟩

/-- The first cut is made at the first separator. -/
theorem cutFirst?_eq_some_iff
    (line before after : List Char) :
    cutFirst? separator line = some (before, after)
      ↔
    separator ∉ before ∧ line = before ++ separator :: after := by
  constructor
  · intro h
    induction line generalizing before with
    | nil => cases h
    | cons c rest ih =>
        rw [cutFirst?] at h
        split at h
        · next hc =>
            cases h
            exact ⟨List.not_mem_nil, by rw [hc]; rfl⟩
        · next hc =>
            obtain ⟨⟨front, back⟩, hcut, hsame⟩ := Option.map_eq_some_iff.mp h
            cases hsame
            obtain ⟨hnone, rfl⟩ := ih front hcut
            refine ⟨fun hmem => ?_, rfl⟩
            rcases List.mem_cons.mp hmem with hfirst | hlater
            · exact hc hfirst.symm
            · exact hnone hlater
  · rintro ⟨hnone, rfl⟩
    exact cutFirst?_append hnone after

theorem not_mem_of_cutLast?_eq_none
    {line : List Char}
    (h : cutLast? separator line = none) :
    separator ∉ line := by
  induction line with
  | nil => exact List.not_mem_nil
  | cons c rest ih =>
      rw [cutLast?] at h
      split at h
      · cases h
      · next hrest =>
          split at h
          · cases h
          · next hc =>
              intro hmem
              rcases List.mem_cons.mp hmem with hfirst | hlater
              · exact hc hfirst.symm
              · exact ih hrest hlater

/-- The last cut is made at the last separator. -/
theorem cutLast?_eq_some_iff
    (line before after : List Char) :
    cutLast? separator line = some (before, after)
      ↔
    separator ∉ after ∧ line = before ++ separator :: after := by
  constructor
  · intro h
    induction line generalizing before with
    | nil => cases h
    | cons c rest ih =>
        rw [cutLast?] at h
        split at h
        · next front back hcut =>
            cases h
            obtain ⟨hnone, rfl⟩ := ih front hcut
            exact ⟨hnone, rfl⟩
        · next hrest =>
            split at h
            · next hc =>
                cases h
                exact ⟨not_mem_of_cutLast?_eq_none hrest, by rw [hc]; rfl⟩
            · cases h
  · rintro ⟨hnone, rfl⟩
    exact cutLast?_append before hnone

end Cuts

section Formats

variable {α : Type}

/--
A format in which values are kept as lines, given the lines that spell a value, the values that fit
the format, and the error for a line that is refused.
-/
structure LineFormat
    (Spells : List Char → α → Prop)
    (Fits : α → Prop)
    (render : α → List Char)
    (parse : String → Except Error α)
    (refusal : String → Error) : Prop where
  /-- The line that is written for a value that fits is read as that value. -/
  parse_render : ∀ value, Fits value → parse (String.ofList (render value)) = .ok value
  /-- A line is read as the value that it spells, if this fits. -/
  parse_iff : ∀ line value, parse line = .ok value ↔ Spells line.toList value ∧ Fits value
  /-- Every other line is refused, with an error about the whole of it. -/
  parse_refused : ∀ line, (∀ value, Spells line.toList value → ¬ Fits value) →
    parse line = .error (refusal line)
  /-- Whatever line a value was read from, the line that is written for it is read as it again. -/
  parse_render_of_parse : ∀ line value, parse line = .ok value →
    parse (String.ofList (render value)) = .ok value

/-- A format is complete once its reader follows the spelling and its writer spells what fits. -/
theorem lineFormat_of_spelling
    {Spells : List Char → α → Prop}
    {Fits : α → Prop}
    {render : α → List Char}
    {parse : String → Except Error α}
    {refusal : String → Error}
    {parse? : List Char → Option α}
    (hparse : ∀ line, parse line = (parse? line.toList).elim (.error (refusal line)) .ok)
    (hspells : ∀ line value, parse? line = some value ↔ Spells line value ∧ Fits value)
    (hrender : ∀ value, Fits value → Spells (render value) value) :
    LineFormat Spells Fits render parse refusal := by
  have hiff : ∀ line value,
      parse line = .ok value ↔ Spells line.toList value ∧ Fits value := by
    intro line value
    rw [hparse, ← hspells]
    cases parse? line.toList <;> simp
  have hrendered : ∀ value, Fits value → parse (String.ofList (render value)) = .ok value := by
    intro value hfits
    rw [hiff, String.toList_ofList]
    exact ⟨hrender value hfits, hfits⟩
  refine ⟨hrendered, hiff, ?_, ?_⟩
  · intro line hnone
    rw [hparse]
    cases hread : parse? line.toList with
    | none => rfl
    | some value =>
        obtain ⟨hspelled, hfits⟩ := (hspells _ _).mp hread
        exact absurd hfits (hnone value hspelled)
  · intro line value hread
    exact hrendered value ((hiff line value).mp hread).2

end Formats
end Text

namespace Digest

/-- The digits of digests, in lower case. -/
def lowerDigits : List Char := "0123456789abcdef".toList

/-- A digit as it may be written for one in lower case. -/
def SpellsDigit (written kept : Char) : Prop :=
  kept ∈ lowerDigits ∧ (written = kept ∨ written = kept.toUpper)
deriving Decidable

/-- A text of 32 digits, of either case, that stands for a digest in lower case. -/
structure Spells (text digest : List Char) : Prop where
  length : digest.length = 32
  digits : List.Forall₂ SpellsDigit text digest

/-- A digest of 32 digits in lower case. -/
structure IsLower (digest : List Char) : Prop where
  length : digest.length = 32
  digits : ∀ c ∈ digest, c ∈ lowerDigits

section Digits

/-- A digit is kept in lower case. -/
theorem spellsDigit_iff
    (written kept : Char) :
    SpellsDigit written kept ↔ isHexDigit written = true ∧ written.toLower = kept := by
  constructor
  · rintro ⟨hkept, hwritten⟩
    have hall : (lowerDigits.all fun kept => [kept, kept.toUpper].all fun written =>
        isHexDigit written && written.toLower == kept) = true := by
      decide
    simp only [List.all_eq_true, Bool.and_eq_true, beq_iff_eq] at hall
    exact hall kept hkept written (by simpa using hwritten)
  · rintro ⟨hdigit, rfl⟩
    have hall : ∀ n < 103, isHexDigit (Char.ofNat n) = true →
        SpellsDigit (Char.ofNat n) (Char.ofNat n).toLower := by
      decide
    have hsmall : written.toNat < 103 := by
      simp only [isHexDigit, Bool.or_eq_true, Bool.and_eq_true, decide_eq_true_eq] at hdigit
      rcases hdigit with (hnumber | hlower) | hupper
      · exact Nat.lt_of_le_of_lt (Char.isDigit_iff_toNat.mp hnumber).2 (by decide)
      · exact Nat.lt_of_le_of_lt (UInt32.le_iff_toNat_le.mp hlower.2) (by decide)
      · exact Nat.lt_of_le_of_lt (UInt32.le_iff_toNat_le.mp hupper.2) (by decide)
    have hspelled := hall written.toNat hsmall
    rw [Char.ofNat_toNat] at hspelled
    exact hspelled hdigit

/-- The texts that spell a digest are read as it, and nothing else is. -/
theorem readDigest?_eq_some_iff
    (text digest : List Char) :
    readDigest? text = some digest ↔ Spells text digest := by
  have hdigits : List.Forall₂ SpellsDigit text digest
      ↔ text.all isHexDigit = true ∧ text.map Char.toLower = digest := by
    have hrelation : SpellsDigit = fun written kept =>
        isHexDigit written = true ∧ written.toLower = kept :=
      funext fun written => funext fun kept => propext (spellsDigit_iff written kept)
    rw [hrelation, List.forall₂_and_left, List.all_eq_true, ← List.forall₂_eq_eq_eq,
      List.forall₂_map_left_iff]
  rw [readDigest?]
  constructor
  · intro h
    split at h
    · next hread =>
        cases h
        have hlength : (text.map Char.toLower).length = 32 := by
          rw [List.length_map, hread.1]
          rfl
        exact ⟨hlength, hdigits.mpr ⟨hread.2, rfl⟩⟩
    · cases h
  · rintro ⟨hlength, hspelled⟩
    obtain ⟨hall, hsame⟩ := hdigits.mp hspelled
    rw [if_pos ⟨hspelled.length_eq.trans hlength, hall⟩, hsame]

/-- A digest in lower case spells itself. -/
theorem IsLower.spells_self
    {digest : List Char}
    (h : IsLower digest) :
    Spells digest digest :=
  ⟨h.length, List.forall₂_same.mpr fun c hc => ⟨h.digits c hc, Or.inl rfl⟩⟩

/-- Whatever case a digest is written in, the digest that it stands for is in lower case. -/
theorem Spells.isLower
    {text digest : List Char}
    (h : Spells text digest) :
    IsLower digest :=
  ⟨h.length, ((List.forall₂_and_left _ _).mp h.digits.flip).1⟩

end Digits
end Digest
end Optical
