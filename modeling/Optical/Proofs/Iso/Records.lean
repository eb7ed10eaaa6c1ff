import Optical.Proofs.Iso.Encoding

/-!
# Which bytes are a directory record

A record begins with its own length, and nothing behind that length has an influence on it. Whether
a record is read is told by three bytes and the count of bytes that there are: the length takes in
the header and the identifier and does not reach behind the last byte.

A record whose encoding has a length that fits a byte is read back from it. The system use area
begins behind the pad byte of an identifier of even length; a record may end where that byte would
stand, and then has no such area.

* parse?_isSome_iff says when a record is read;
* parse?_congr_take says that it depends on its own bytes only;
* parse?_inverts_encode puts both together with the encoding.
-/

namespace Optical
namespace Iso
namespace DirectoryRecord

/-- A record with the length that its encoding has. -/
def withLength (record : DirectoryRecord) : DirectoryRecord :=
  { record with length := UInt8.ofNat record.encodedLength }

/-- A byte before the end of a part is that of the whole. -/
theorem byteAt_take
    {raw : Bytes}
    {count offset : Nat}
    (h : offset < count) :
    Bytes.byteAt (raw.take count) offset = raw.byteAt offset := by
  rw [Bytes.byteAt_eq, Bytes.byteAt_eq, List.getElem?_take_of_lt h]

/-- A record is read if its length takes in header and identifier and is not more than there is. -/
theorem parse?_isSome_iff
    (raw : Bytes) :
    (parse? raw).isSome = true
      ↔
    33 ≤ (raw.byteAt 0).toNat ∧
      (raw.byteAt 0).toNat ≤ raw.length ∧
      33 + (raw.byteAt 32).toNat ≤ (raw.byteAt 0).toNat := by
  cases raw with
  | nil => decide
  | cons first rest =>
      have hfirst : Bytes.byteAt (first :: rest) 0 = first := rfl
      rw [hfirst, parse?, headerLength]
      split
      · next hshort =>
          exact iff_of_false Bool.false_ne_true (by omega)
      · next hwhole =>
          rw [byteAt_take (by omega)]
          split
          · next hlong => exact iff_of_false Bool.false_ne_true (by omega)
          · next hholds => exact iff_of_true rfl (by omega)

/-- Bytes behind the length of a record make no difference. -/
theorem parse?_congr_take
    {first : UInt8}
    {rest other : Bytes}
    (h : (first :: rest).take first.toNat = (first :: other).take first.toNat) :
    parse? (first :: rest) = parse? (first :: other) := by
  have hlength := congrArg List.length h
  rw [List.length_take, List.length_take] at hlength
  have hshort : (first :: rest).length < first.toNat ↔ (first :: other).length < first.toNat := by
    omega
  simp only [parse?, h, hshort]

/--
**Records are read back, and nothing else is.** Every record whose encoding has a length that fits a
byte is read from its encoding, whatever bytes follow. Any bytes are read as a record if and only if
their first byte, the length, is at least 33, is not more than there is, and takes in the identifier;
and only so many bytes as the length tells have an influence.
-/
theorem parse?_inverts_encode :
    (∀ (record : DirectoryRecord) (following : Bytes),
      33 + record.identifier.length + (if record.identifier.length % 2 = 0 then 1 else 0) +
          record.systemUse.length ≤ 255 →
        parse? (record.withLength.encode ++ following) = some record.withLength) ∧
      (∀ raw : Bytes,
        (parse? raw).isSome = true
          ↔
        33 ≤ (raw.byteAt 0).toNat ∧
          (raw.byteAt 0).toNat ≤ raw.length ∧
          33 + (raw.byteAt 32).toNat ≤ (raw.byteAt 0).toNat) ∧
      ∀ (first : UInt8) (rest other : Bytes),
        (first :: rest).take first.toNat = (first :: other).take first.toNat →
        parse? (first :: rest) = parse? (first :: other) := by
  refine ⟨fun record following hfits => ?_, parse?_isSome_iff, fun _ _ _ h => parse?_congr_take h⟩
  have hlength : record.withLength.length.toNat = record.withLength.encodedLength :=
    UInt8.toNat_ofNat_of_lt' (Nat.lt_succ_of_le hfits)
  exact parse?_of_encodes (encodes_encode hlength) following

section Small

/-- A directory with an identifier of even length and three bytes in its system use area. -/
def evenRecord : DirectoryRecord :=
  { plain [0x41, 0x42] ⟨true, true, false, false, false, true⟩ 0x01020304 2048 with
    systemUse := [0x52, 0x52, 0] }

/-- It is read from its encoding without the pad byte in its area, whichever byte follows. -/
theorem parse?_inverts_encode_even :
    33 + evenRecord.identifier.length + (if evenRecord.identifier.length % 2 = 0 then 1 else 0) +
        evenRecord.systemUse.length ≤ 255 ∧
      (evenRecord.withLength.encode ++ [0xFF]).take 39 =
        (evenRecord.withLength.encode ++ [0xEE]).take 39 ∧
      parse? (evenRecord.withLength.encode ++ [0xFF]) = some { evenRecord with length := 39 } ∧
      parse? (evenRecord.withLength.encode ++ [0xFF]) =
        parse? (evenRecord.withLength.encode ++ [0xEE]) := by
  obtain ⟨hread, -, hdepends⟩ := parse?_inverts_encode
  have hfits : 33 + evenRecord.identifier.length +
      (if evenRecord.identifier.length % 2 = 0 then 1 else 0) + evenRecord.systemUse.length ≤
        255 := by
    decide
  exact ⟨hfits, rfl, hread evenRecord [0xFF] hfits, hdepends 39 _ _ rfl⟩

end Small

end DirectoryRecord
end Iso
end Optical
