import Optical.Text.Printable

/-!
# Quoted text

Messages show foreign text in double quotes, on one line and free of characters that cannot be
seen. A quote and a backslash stand behind a backslash, four controls have a letter of their own,
and every other hidden character is written as its number in braces.
-/

namespace Optical
namespace Text

/-- The characters that are written as a backslash and a letter, each with its letter. -/
def letters : List (Char × Char) :=
  [('"', '"'), ('\\', '\\'), ('\n', 'n'), ('\r', 'r'), ('\t', 't'), ('\x00', '0')]

/-- The number of a character in braces. -/
def numbered (c : Char) : List Char :=
  ['\\', 'u', '\x7b'] ++ Nat.toDigits 16 c.toNat ++ ['\x7d']

/-- The written form of one character between the quotes. -/
def quoteChar (c : Char) : List Char :=
  match letters.lookup c with
  | some letter => ['\\', letter]
  | none => if isPrintable c then [c] else numbered c

/-- A text in double quotes. -/
def quote (text : String) : String :=
  String.ofList (['"'] ++ text.toList.flatMap quoteChar ++ ['"'])

end Text
end Optical
