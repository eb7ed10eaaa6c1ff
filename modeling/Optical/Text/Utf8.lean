import Optical.Bytes

/-!
# UTF-8

A decoder that never fails: it turns a byte string into marks, one for each character and one for
each ill-formed sequence. An ill-formed sequence is the longest start of a character that the next
byte cannot continue, or a single byte that starts no character.

The decoder keeps the sequence begun so far and takes one byte at a time, so it follows the list
of bytes.

* decode? reads a well-formed string and refuses every other;
* decodeLossy puts U+FFFD for each ill-formed sequence;
* encode writes a string.
-/

namespace Optical
namespace Text
namespace Utf8

/-- A character that has begun and lacks at least one byte. -/
structure Pending where
  /-- The bits collected so far. -/
  bits : Nat
  /-- How many bytes are missing after the next one. -/
  more : Nat
  /-- The least value of the next byte. -/
  low : UInt8
  /-- The greatest value of the next byte. -/
  high : UInt8

/-- What one byte does between two characters. -/
inductive Lead where
  /-- The byte is a character of its own. -/
  | single (c : Char)
  /-- The byte begins a longer character. -/
  | opens (pending : Pending)
  /-- No character begins with the byte. -/
  | refused

/--
The role of a byte at the start of a character. The range for the next byte leaves out
overlong spellings, surrogates and numbers above U+10FFFF.
-/
def lead (b : UInt8) : Lead :=
  if b < 0x80 then .single (Char.ofNat b.toNat)
  else if b < 0xC2 then .refused
  else if b < 0xE0 then .opens ⟨b.toNat - 0xC0, 0, 0x80, 0xBF⟩
  else if b = 0xE0 then .opens ⟨0, 1, 0xA0, 0xBF⟩
  else if b = 0xED then .opens ⟨0xD, 1, 0x80, 0x9F⟩
  else if b < 0xF0 then .opens ⟨b.toNat - 0xE0, 1, 0x80, 0xBF⟩
  else if b = 0xF0 then .opens ⟨0, 2, 0x90, 0xBF⟩
  else if b < 0xF4 then .opens ⟨b.toNat - 0xF0, 2, 0x80, 0xBF⟩
  else if b = 0xF4 then .opens ⟨4, 2, 0x80, 0x8F⟩
  else .refused

/-- The bits of a begun character after one more byte. -/
def Pending.push (p : Pending) (b : UInt8) : Nat :=
  p.bits * 64 + (b.toNat - 0x80)

/--
The marks that begin with a byte which follows a whole character or an ill-formed sequence.
The rest of the marks is given for each way in which the byte can leave the decoder.
-/
def marksAt (b : UInt8) (rest : Option Pending → List (Option Char)) : List (Option Char) :=
  match lead b with
  | .single c => some c :: rest none
  | .opens p => rest (some p)
  | .refused => none :: rest none

/--
The marks of a byte string, given the character that has begun before it.
A mark is a character, or none for an ill-formed sequence.
-/
def marksFrom : Option Pending → Bytes → List (Option Char)
  | none, [] => []
  | some _, [] => [none]
  | none, b :: rest => marksAt b fun state => marksFrom state rest
  | some p, b :: rest =>
      if p.low ≤ b ∧ b ≤ p.high then
        match p.more with
        | 0 => some (Char.ofNat (p.push b)) :: marksFrom none rest
        | more + 1 => marksFrom (some ⟨p.push b, more, 0x80, 0xBF⟩) rest
      else none :: marksAt b fun state => marksFrom state rest

/-- The marks of a byte string. -/
def marks (raw : Bytes) : List (Option Char) :=
  marksFrom none raw

/-- The characters of a well-formed byte string. -/
def decode? (raw : Bytes) : Option (List Char) :=
  (marks raw).mapM id

/-- The characters of a byte string, with U+FFFD for each ill-formed sequence. -/
def decodeLossy (raw : Bytes) : List Char :=
  (marks raw).map (·.getD '\uFFFD')

/-- The bytes of a string. -/
def encode (text : List Char) : Bytes :=
  text.flatMap String.utf8EncodeChar

end Utf8
end Text
end Optical
