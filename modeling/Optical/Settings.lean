import Optical.Error
import Optical.Text.Blank
import Optical.Text.Fields
import Optical.Text.Numeral

/-!
# Settings

How an image is to be read: by its UDF structures, or by one of its ISO9660 tables with plain or
with alternate names. Settings are kept as a line of three numbers between commas: 1 for UDF or
0 for ISO9660, then 1 for alternate names or 0 for plain ones, then the table.

A line is read with blanks around its fields. After the 1 of UDF anything may follow.
-/

namespace Optical

/-- How an image is to be read. -/
inductive Settings where
  | udf
  | iso (rockRidge : Bool) (table : Nat)
deriving DecidableEq, Repr

namespace Settings

/-- The line that keeps settings. -/
def render : Settings → List Char
  | udf => Text.joinFields ',' [['1'], ['0'], ['0']]
  | iso rockRidge table =>
      Text.joinFields ',' [['0'], [if rockRidge then '1' else '0'], Text.writeNumeral table]

/-- The choice of names that a field stands for. -/
def readNames? (field : List Char) : Option Bool :=
  if field = ['0'] then some false else if field = ['1'] then some true else none

/-- The settings in the fields of a line. -/
def ofFields? : List (List Char) → Option Settings
  | [] => none
  | first :: rest =>
      if first = ['1'] then some udf
      else if first = ['0'] then
        match rest with
        | [names, table] => do return iso (← readNames? names) (← Text.readNumeral? table)
        | _ => none
      else none

/-- The settings in a line. -/
def parse? (line : List Char) : Option Settings :=
  ofFields? ((line.splitOn ',').map Text.trimBlanks)

/-- The settings in a line, or an error that quotes it. -/
def parse (line : String) : Except Error Settings :=
  match parse? line.toList with
  | some settings => .ok settings
  | none => .error (.invalidSettings line)

end Settings
end Optical
