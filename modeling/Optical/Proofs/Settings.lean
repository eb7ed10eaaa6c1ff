import Optical.Proofs.Text.Spelling
import Optical.Settings

/-!
# Settings kept as lines

A line of settings is kept outside the library, written over by hand perhaps, and read by later
versions of it. So it matters which lines are read and what each of them is read as. Spells says it
field by field, without the reader; lineFormat_settings says that the reader follows it, that the
lines that are written are read back, and that every other line is refused.
-/

namespace Optical
namespace Settings

open Text

/-- The number of the table is one of 64 bits. -/
def Fits : Settings → Prop
  | udf => True
  | iso _ table => table < 2 ^ 64

/--
The lines for settings. After the 1 of UDF there may be fields of any kind, or none; the line of a
table has three fields. Blanks may stand around every field.
-/
inductive Spells : List Char → Settings → Prop where
  | udf {mark : List Char} (hmark : Padded ['1'] mark) (others : List (List Char)) :
      Spells (joinFields ',' (mark :: others)) .udf
  | iso {mark names numeral table : List Char} {rockRidge : Bool} {n : Nat}
      (hmark : Padded ['0'] mark)
      (hnames : Padded [if rockRidge then '1' else '0'] names)
      (hnumeral : Numeral numeral n)
      (htable : Padded numeral table) :
      Spells (joinFields ',' [mark, names, table]) (.iso rockRidge n)

/-- The digit for a choice of names is read as the choice. -/
theorem readNames?_eq_some_iff
    (field : List Char)
    (rockRidge : Bool) :
    readNames? field = some rockRidge ↔ field = [if rockRidge then '1' else '0'] := by
  rw [readNames?]
  split
  · next hplain => cases rockRidge <;> simp [hplain]
  · next hother =>
      split
      · next halternate => cases rockRidge <;> simp [halternate]
      · next hnone => cases rockRidge <;> simp [hother, hnone]

/-- The settings in fields without blanks around them. -/
theorem ofFields?_eq_some_iff
    (fields : List (List Char))
    (settings : Settings) :
    ofFields? fields = some settings
      ↔
    (∃ others, fields = ['1'] :: others ∧ settings = .udf) ∨
      ∃ rockRidge numeral table,
        fields = [['0'], [if rockRidge then '1' else '0'], numeral] ∧
        readNumeral? numeral = some table ∧
        settings = .iso rockRidge table := by
  constructor
  · intro h
    match fields with
    | [] => cases h
    | mark :: others =>
        rw [ofFields?.eq_def] at h
        simp only at h
        split at h
        · next hudf =>
            cases h
            exact Or.inl ⟨others, by rw [hudf], rfl⟩
        · split at h
          · next hiso =>
              split at h
              · next names numeral =>
                  simp only [Option.bind_eq_bind, Option.bind_eq_some_iff] at h
                  obtain ⟨rockRidge, hnames, table, htable, hsettings⟩ := h
                  cases hsettings
                  rw [readNames?_eq_some_iff] at hnames
                  exact Or.inr ⟨rockRidge, numeral, table, by rw [hiso, hnames], htable, rfl⟩
              · cases h
          · cases h
  · rintro (⟨others, rfl, rfl⟩ | ⟨rockRidge, numeral, table, rfl, htable, rfl⟩)
    · rfl
    · have hnames := (readNames?_eq_some_iff _ rockRidge).mpr rfl
      simp [ofFields?, hnames, htable]

/-- A line is read as the settings that it spells, if their numbers fit, and as no others. -/
theorem parse?_eq_some_iff
    (line : List Char)
    (settings : Settings) :
    parse? line = some settings ↔ Spells line settings ∧ settings.Fits := by
  rw [parse?, ofFields?_eq_some_iff]
  constructor
  · intro h
    rw [← joinFields_splitOn ',' line]
    generalize line.splitOn ',' = fields at h ⊢
    rcases h with ⟨others, hfields, rfl⟩ | ⟨rockRidge, numeral, table, hfields, htable, rfl⟩
    · obtain ⟨mark, later, rfl, hmark, -⟩ := List.map_eq_cons_iff.mp hfields
      exact ⟨.udf (hmark ▸ padded_trimBlanks mark) later, trivial⟩
    · obtain ⟨mark, later, rfl, hmark, hlater⟩ := List.map_eq_cons_iff.mp hfields
      obtain ⟨names, last, rfl, hnames, hlast⟩ := List.map_eq_cons_iff.mp hlater
      obtain ⟨field, rfl, hfield⟩ := List.map_eq_singleton_iff.mp hlast
      obtain ⟨hnumeral, hsmall⟩ := (readNumeral?_eq_some_iff _ _).mp htable
      exact ⟨.iso (hmark ▸ padded_trimBlanks mark) (hnames ▸ padded_trimBlanks names) hnumeral
        (hfield ▸ padded_trimBlanks field), hsmall⟩
  · rintro ⟨hspells, hfits⟩
    cases hspells with
    | @udf mark hmark others =>
        have hcomma := hmark.not_mem (c := ',') (by decide) (by decide)
        have hone : ∀ c ∈ ['1'], isBlank c = false := List.forall_mem_singleton.mpr rfl
        obtain ⟨later, hsplit⟩ := exists_splitOn_joinFields_cons hcomma others
        rw [hsplit, List.map_cons, trimBlanks_eq_of_padded hmark (List.cons_ne_nil _ _) hone]
        exact Or.inl ⟨_, rfl, rfl⟩
    | @iso mark names numeral field rockRidge table hmark hnames hnumeral hfield =>
        have hsigns : ∀ c ∈ numeral, c ≠ ',' ∧ isBlank c = false :=
          hnumeral.forall_mem (by decide) (by decide)
        have hcommas : ∀ part ∈ [mark, names, field], ',' ∉ part := by
          simp only [List.forall_mem_cons]
          refine ⟨hmark.not_mem (by decide) (by decide), hnames.not_mem (by decide) ?_,
            hfield.not_mem (by decide) fun hmem => (hsigns _ hmem).1 rfl, by simp⟩
          cases rockRidge <;> decide
        have hzero : ∀ c ∈ ['0'], isBlank c = false := List.forall_mem_singleton.mpr rfl
        have hdigit : ∀ c ∈ [if rockRidge then '1' else '0'], isBlank c = false := by
          cases rockRidge <;> exact List.forall_mem_singleton.mpr rfl
        rw [splitOn_joinFields hcommas (List.cons_ne_nil _ _), List.map_cons, List.map_cons,
          List.map_singleton, trimBlanks_eq_of_padded hmark (List.cons_ne_nil _ _) hzero,
          trimBlanks_eq_of_padded hnames (List.cons_ne_nil _ _) hdigit,
          trimBlanks_eq_of_padded hfield hnumeral.ne_nil fun c hc => (hsigns c hc).2]
        exact Or.inr ⟨rockRidge, numeral, table, rfl,
          (readNumeral?_eq_some_iff _ _).mpr ⟨hnumeral, hfits⟩, rfl⟩

/-- The line of settings spells them. -/
theorem spells_render (settings : Settings) : Spells settings.render settings := by
  cases settings with
  | udf => exact .udf (padded_self _) [['0'], ['0']]
  | iso rockRidge table =>
      exact .iso (padded_self _) (padded_self _) (numeral_writeNumeral table) (padded_self _)

/--
**Settings are kept as lines.** The line of any settings whose table is a number of 64 bits is read
as these settings. A line is read as UDF if its first field is a 1, and as a table if it has the
three fields of that table; every other line is refused with an error that quotes it. Blanks around
fields, a plus sign and leading zeros make no difference, and the line that is written for the
settings of any line is read as these settings again.
-/
theorem lineFormat_settings :
    LineFormat Spells Fits render parse .invalidSettings := by
  have hparse : ∀ line, parse line =
      (parse? line.toList).elim (.error (.invalidSettings line)) .ok := by
    intro line
    rw [parse]
    cases parse? line.toList <;> rfl
  exact lineFormat_of_spelling hparse parse?_eq_some_iff fun settings _ => spells_render settings

/-- A line with blanks, a plus sign and leading zeros, and the line that is written for it. -/
theorem lineFormat_settings_padded :
    Spells " 0\t,\u00a01,+0042 ".toList (.iso true 42) ∧
      (Settings.iso true 42).Fits ∧
      parse " 0\t,\u00a01,+0042 " = .ok (.iso true 42) ∧
      parse "0,1,42" = .ok (.iso true 42) := by
  have hblank {c : Char} (h : isBlank c = true) : ∀ d ∈ [c], isBlank d = true :=
    List.forall_mem_singleton.mpr h
  have hmark : Padded ['0'] [' ', '0', '\t'] :=
    ⟨[' '], ['\t'], hblank rfl, hblank rfl, rfl⟩
  have hnames : Padded [if true then '1' else '0'] ['\u00a0', '1'] :=
    ⟨['\u00a0'], [], hblank rfl, List.forall_mem_nil _, rfl⟩
  have hnumeral : Numeral "+0042".toList 42 := .signed (by decide)
  have htable : Padded "+0042".toList "+0042 ".toList :=
    ⟨[], [' '], List.forall_mem_nil _, hblank rfl, rfl⟩
  have hspells : Spells " 0\t,\u00a01,+0042 ".toList (.iso true 42) :=
    .iso hmark hnames hnumeral htable
  have hfits : (Settings.iso true 42).Fits := by
    rw [Fits]
    decide
  exact ⟨hspells, hfits, (lineFormat_settings.parse_iff _ _).mpr ⟨hspells, hfits⟩,
    lineFormat_settings.parse_render _ hfits⟩

end Settings
end Optical
