import Optical.Bytes

/-!
# UTF-16

Names in the wide character set are stored as 16-bit units, most significant byte first. A
character above U+FFFF is a pair of surrogate units; a surrogate without its partner reads as
U+FFFD.
-/

namespace Optical
namespace Text
namespace Utf16

/-- The 16-bit units of a byte string; an odd byte at the end is left out. -/
def unitsBE : Bytes → List UInt16
  | high :: low :: rest => UInt16.ofNat (high.toNat * 256 + low.toNat) :: unitsBE rest
  | _ => []

/-- A unit that begins a pair. -/
def isHigh (unit : UInt16) : Bool :=
  0xD800 ≤ unit && unit < 0xDC00

/-- A unit that ends a pair. -/
def isLow (unit : UInt16) : Bool :=
  0xDC00 ≤ unit && unit < 0xE000

/-- The character of a pair of surrogates. -/
def pair (high low : UInt16) : Char :=
  Char.ofNat (0x10000 + (high.toNat - 0xD800) * 0x400 + (low.toNat - 0xDC00))

/-- The characters of a list of units, with U+FFFD for a lone surrogate. -/
def decode : List UInt16 → List Char
  | [] => []
  | [unit] =>
      if isHigh unit || isLow unit then ['\uFFFD'] else [Char.ofNat unit.toNat]
  | unit :: next :: rest =>
      if isHigh unit then
        if isLow next then pair unit next :: decode rest else '\uFFFD' :: decode (next :: rest)
      else if isLow unit then '\uFFFD' :: decode (next :: rest)
      else Char.ofNat unit.toNat :: decode (next :: rest)

/-- The characters of a byte string of big-endian units. -/
def decodeBE (raw : Bytes) : List Char :=
  decode (unitsBE raw)

end Utf16
end Text
end Optical
