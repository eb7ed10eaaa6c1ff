import Mathlib.Data.List.Basic
import Optical.Iso.SystemUse

/-!
# System use entries read back

A writer puts the entries of a system use area one behind the other, each with its length. An entry
can be written if its length fits a byte and its signature is not the one that ends the list.

The entries are read back in order, and then those of whatever bytes follow.
-/

namespace Optical
namespace Iso

namespace SystemUseEntry

/-- The bytes of an entry. -/
def encode (entry : SystemUseEntry) : Bytes :=
  entry.signature.1 :: entry.signature.2 :: UInt8.ofNat entry.length :: entry.version :: entry.data

/-- The entry can be written in front of others. -/
structure IsWritable (entry : SystemUseEntry) : Prop where
  signature : entry.signature ≠ stopSignature
  length : entry.length < 0x100

instance (entry : SystemUseEntry) : Decidable entry.IsWritable :=
  decidable_of_iff (entry.signature ≠ stopSignature ∧ entry.length < 0x100)
    ⟨fun h => ⟨h.1, h.2⟩, fun h => ⟨h.signature, h.length⟩⟩

end SystemUseEntry

section Entries

theorem SystemUseEntry.encode_length (entry : SystemUseEntry) :
    entry.encode.length = entry.length := by
  simp only [encode, length, entryHeaderLength, List.length_cons]
  omega

section Writable

variable {entry : SystemUseEntry}
variable (h : entry.IsWritable)

include h

/-- The length of an entry is kept in a byte. -/
theorem SystemUseEntry.IsWritable.toNat_length :
    (UInt8.ofNat entry.length).toNat = entry.length := by
  rw [UInt8.toNat_ofNat', Nat.mod_eq_of_lt h.length]

/-- The length of an entry reaches behind its header and not behind its last byte. -/
theorem SystemUseEntry.IsWritable.fits (following : Bytes) :
    ¬ ((UInt8.ofNat entry.length).toNat < entryHeaderLength ∨
      entryHeaderLength + (entry.data ++ following).length <
        (UInt8.ofNat entry.length).toNat) := by
  rw [h.toNat_length, List.length_append, SystemUseEntry.length]
  omega

/-- The length of an entry tells where its data end. -/
theorem SystemUseEntry.IsWritable.toNat_length_sub :
    (UInt8.ofNat entry.length).toNat - entryHeaderLength = entry.data.length := by
  rw [h.toNat_length, SystemUseEntry.length, Nat.add_sub_cancel_left]

/-- An entry is read back, whatever bytes follow. -/
theorem systemUseEntries_encode_append (following : Bytes) :
    systemUseEntries (entry.encode ++ following) = entry :: systemUseEntries following := by
  have hsignature : ¬ (entry.signature.1, entry.signature.2) = stopSignature := h.signature
  rw [SystemUseEntry.encode, List.cons_append, List.cons_append, List.cons_append,
    List.cons_append, systemUseEntries, if_neg (h.fits following), if_neg hsignature]
  simp only [h.toNat_length_sub, List.take_left, List.drop_left]

end Writable

/-- So are any number of entries. -/
theorem systemUseEntries_flatMap_encode_append
    {entries : List SystemUseEntry}
    (h : ∀ entry ∈ entries, entry.IsWritable)
    (following : Bytes) :
    systemUseEntries (entries.flatMap SystemUseEntry.encode ++ following) =
      entries ++ systemUseEntries following := by
  induction entries with
  | nil => rfl
  | cons entry entries ih =>
      rw [List.forall_mem_cons] at h
      rw [List.flatMap_cons, List.append_assoc, systemUseEntries_encode_append h.1, ih h.2,
        List.cons_append]

end Entries

end Iso
end Optical
