import Optical.Bytes

/-!
# Hexadecimal text

A byte is written as two digits, the letters in lower case. A digest is read in either case and
kept in lower case.
-/

namespace Optical
namespace Digest

/-- The digit of a number below sixteen. -/
def hexDigit (n : Nat) : Char :=
  Nat.digitChar (n % 16)

/-- The two digits of each byte. -/
def hex (raw : Bytes) : List Char :=
  raw.flatMap fun b => [hexDigit (b.toNat / 16), hexDigit b.toNat]

@[simp] theorem hex_length (raw : Bytes) : (hex raw).length = 2 * raw.length := by
  induction raw with
  | nil => rfl
  | cons b raw ih =>
      simp only [hex, List.flatMap_cons, List.length_append, List.length_cons, List.length_nil] at *
      omega

/-- The character is a hexadecimal digit. -/
def isHexDigit (c : Char) : Bool :=
  c.isDigit || ('a' ≤ c && c ≤ 'f') || ('A' ≤ c && c ≤ 'F')

/-- The digits of a digest. -/
def digestDigits : Nat := 32

/-- A digest in lower case, if the text is one. -/
def readDigest? (text : List Char) : Option (List Char) :=
  if text.length = digestDigits ∧ text.all isHexDigit then some (text.map Char.toLower) else none

/-- The text of a digest, two digits for each of its bytes. -/
def digestText (digest : Bytes) : String :=
  String.ofList (hex digest)

end Digest
end Optical
