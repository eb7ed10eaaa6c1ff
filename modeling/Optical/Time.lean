import Optical.Bytes

/-!
# Points in time

Discs record time in three forms, and none of them is checked: a month may read as 200.

* RecordTime, seven bytes, stands in directory records;
* DigitTime, sixteen digits and a byte, stands in volume descriptors and may be absent;
* StampTime, twelve bytes, stands in UDF structures and has an optional time zone.
-/

namespace Optical

/-- The seven-byte form. -/
structure RecordTime where
  /-- Years since 1900. -/
  year : UInt8
  month : UInt8
  day : UInt8
  hour : UInt8
  minute : UInt8
  second : UInt8
  /-- Distance from Greenwich in quarters of an hour. -/
  zone : Int8
deriving DecidableEq, Repr

namespace RecordTime

/-- The time at an offset. -/
def ofBytes (raw : Bytes) (offset : Nat) : RecordTime :=
  ⟨raw.byteAt offset, raw.byteAt (offset + 1), raw.byteAt (offset + 2), raw.byteAt (offset + 3),
    raw.byteAt (offset + 4), raw.byteAt (offset + 5), (raw.byteAt (offset + 6)).toInt8⟩

/-- The year in the common era. -/
def fullYear (t : RecordTime) : Nat :=
  1900 + t.year.toNat

end RecordTime

/-- The form written in digits. -/
structure DigitTime where
  year : Nat
  month : Nat
  day : Nat
  hour : Nat
  minute : Nat
  second : Nat
  hundredths : Nat
  /-- Distance from Greenwich in quarters of an hour. -/
  zone : Int8
deriving DecidableEq, Repr

namespace DigitTime

/-- The value of a byte that is a decimal digit. -/
def digitValue? (b : UInt8) : Option Nat :=
  if 0x30 ≤ b ∧ b ≤ 0x39 then some (b.toNat - 0x30) else none

/-- The number that a run of digits spells. -/
def number? (digits : Bytes) : Option Nat :=
  digits.foldlM (fun n b => (digitValue? b).map (10 * n + ·)) 0

/-- The time in seventeen bytes; a year of zero or a byte that is no digit means none. -/
def ofBytes? (raw : Bytes) : Option DigitTime := do
  let year ← number? (raw.slice 0 4)
  if year = 0 then none
  else
    return ⟨year, ← number? (raw.slice 4 2), ← number? (raw.slice 6 2), ← number? (raw.slice 8 2),
      ← number? (raw.slice 10 2), ← number? (raw.slice 12 2), ← number? (raw.slice 14 2),
      (raw.byteAt 16).toInt8⟩

end DigitTime

/-- The twelve-byte form. -/
structure StampTime where
  /-- Distance from Greenwich in minutes, if one is given. -/
  zone : Option Int
  year : Int16
  month : UInt8
  day : UInt8
  hour : UInt8
  minute : UInt8
  second : UInt8
  centiseconds : UInt8
  hundredsOfMicroseconds : UInt8
  microseconds : UInt8
deriving DecidableEq, Repr

namespace StampTime

/-- The value of the zone field that means no zone. -/
def noZone : Int := -2047

/-- The low twelve bits of a field as a signed number. -/
def signed12 (field : UInt16) : Int :=
  let low := field.toNat % 0x1000
  if low < 0x800 then low else (low : Int) - 0x1000

/-- The time at the start of a byte string. -/
def ofBytes (raw : Bytes) : StampTime :=
  let zone := signed12 (raw.u16 0)
  ⟨if zone = noZone then none else some zone, (raw.u16 2).toInt16,
    raw.byteAt 4, raw.byteAt 5, raw.byteAt 6, raw.byteAt 7, raw.byteAt 8, raw.byteAt 9,
    raw.byteAt 10, raw.byteAt 11⟩

end StampTime
end Optical
