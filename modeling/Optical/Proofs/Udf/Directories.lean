import Mathlib.Algebra.Group.Nat.Defs
import Mathlib.Data.Vector.Defs
import Optical.Proofs.Bytes.Fields
import Optical.Proofs.Udf.Unfolding

/-!
# Directories read back

The identifiers of a directory stand one behind the other. Each takes the bytes that its two lengths
tell and zeros up to a multiple of four, and the last one may lack zeros. A reader that takes one
identifier at a time therefore comes from each to the next and stops behind the last, whatever the
lengths are.

* StoredIdentifier is an identifier as it is written, with everything that is not read;
* Taken is the loop that takes one identifier after the other;
* parse?_body_append and exists_eq_body_append say when an identifier is read and which one it is;
* directory_read_back puts this together.
-/

namespace Optical
namespace Udf

/-- An identifier as a writer puts it into a directory. -/
structure StoredIdentifier where
  /-- The tag and the version of the file. -/
  head : List.Vector UInt8 18
  characteristics : UInt8
  icb : BlockPointer
  /-- The last bytes of the pointer, for the use of the writer. -/
  icbUse : List.Vector UInt8 6
  /-- More bytes for the use of the writer. -/
  use : Bytes
  identifier : Bytes
  /-- The number of zeros behind the identifier. -/
  zeros : Nat
  use_length : use.length < 2 ^ 16
  identifier_length : identifier.length < 2 ^ 8
  zeros_le : 38 + use.length + identifier.length + zeros ≤
    FileIdentifier.roundUp4 (38 + use.length + identifier.length)

namespace StoredIdentifier

/-- The bytes before the name. -/
def leading (stored : StoredIdentifier) : Bytes :=
  stored.head.toList
    ++ [stored.characteristics]
    ++ [UInt8.ofNat stored.identifier.length]
    ++ Bytes.ofNatLE 4 stored.icb.length.toNat
    ++ Bytes.ofNatLE 4 stored.icb.block.toNat
    ++ Bytes.ofNatLE 2 stored.icb.partition.toNat
    ++ stored.icbUse.toList
    ++ Bytes.ofNatLE 2 stored.use.length
    ++ stored.use

/-- The bytes without the zeros behind them. -/
def body (stored : StoredIdentifier) : Bytes :=
  stored.leading ++ stored.identifier

/-- The bytes of an identifier in its directory. -/
def encode (stored : StoredIdentifier) : Bytes :=
  stored.body ++ List.replicate stored.zeros 0

/-- The zeros fill the identifier up to a multiple of four. -/
def IsPadded (stored : StoredIdentifier) : Prop :=
  stored.encode.length % 4 = 0

/-- The identifier begins with the tag of one. -/
def IsTagged (stored : StoredIdentifier) : Prop :=
  Bytes.u16 stored.head.toList 0 = 257

/-- What is read of an identifier. The two top bits of the length field are not part of the length. -/
def read (stored : StoredIdentifier) : FileIdentifier where
  characteristics := stored.characteristics
  icb := ⟨UInt32.ofNat (stored.icb.length.toNat % 2 ^ 30), stored.icb.block, stored.icb.partition⟩
  identifier := stored.identifier
  length := stored.encode.length

section Lengths

variable (stored : StoredIdentifier)

theorem leading_length :
    stored.leading.length = 38 + stored.use.length := by
  simp [leading]
  omega

theorem body_length :
    stored.body.length = 38 + stored.use.length + stored.identifier.length := by
  rw [body, List.length_append, leading_length]

theorem encode_length :
    stored.encode.length = stored.body.length + stored.zeros := by
  rw [encode, List.length_append, List.length_replicate]

end Lengths

section Reading

variable (stored : StoredIdentifier)
variable (after : Bytes)

theorem characteristics_leading_append :
    (stored.leading ++ after).byteAt 18 = stored.characteristics := by
  simp [leading]

/-- The two lengths are the ones of the name and of the bytes in front of it. -/
theorem nameLength_leading_append :
    ((stored.leading ++ after).byteAt 19).toNat = stored.identifier.length := by
  simpa [leading] using stored.identifier_length

theorem useLength_leading_append :
    ((stored.leading ++ after).u16 36).toNat = stored.use.length := by
  simp [leading, Bytes.toNat_u16_ofNatLE_append stored.use_length]

theorem pointer_leading_append :
    BlockPointer.parse (stored.leading ++ after) 20 = stored.read.icb := by
  simp [BlockPointer.parse, leading, and_lengthMask, read]

/-- A whole identifier is read, whatever follows it, and takes the bytes up to a multiple of four. -/
theorem parse?_body_append :
    FileIdentifier.parse? (stored.body ++ after) =
      some { stored.read with
        length := min (FileIdentifier.roundUp4 stored.body.length)
          (stored.body ++ after).length } := by
  have hfits : ¬ ((stored.body ++ after).length < FileIdentifier.fixedLength ∨
      (stored.body ++ after).length < stored.body.length) := by
    rw [List.length_append, body_length, FileIdentifier.fixedLength]
    omega
  have hstart : FileIdentifier.fixedLength + stored.use.length = stored.leading.length :=
    stored.leading_length.symm
  have hbody : stored.leading.length + stored.identifier.length = stored.body.length :=
    List.length_append.symm
  have hwhole : stored.body ++ after = stored.leading ++ (stored.identifier ++ after) :=
    List.append_assoc _ _ _
  rw [FileIdentifier.parse?]
  dsimp only
  rw [hwhole, useLength_leading_append, nameLength_leading_append, characteristics_leading_append,
    pointer_leading_append, hstart, hbody, ← hwhole, if_neg hfits, hwhole, Bytes.slice_field]
  rfl

/-- An identifier with all its zeros is read whatever follows it, and the last one without them. -/
theorem parse?_encode_append
    (h : after = [] ∨ stored.IsPadded) :
    FileIdentifier.parse? (stored.encode ++ after) = some stored.read := by
  have hzeros := stored.zeros_le
  rw [← stored.body_length] at hzeros
  have hlength : min (FileIdentifier.roundUp4 stored.body.length)
      (stored.body ++ (List.replicate stored.zeros 0 ++ after)).length = stored.encode.length := by
    rw [FileIdentifier.roundUp4] at hzeros ⊢
    simp only [List.length_append, List.length_replicate, encode_length]
    rcases h with rfl | hpadded
    · rw [List.length_nil]
      omega
    · rw [IsPadded, encode_length] at hpadded
      omega
  rw [encode, List.append_assoc, parse?_body_append, hlength]
  rfl

end Reading

end StoredIdentifier

section Fitting

variable {raw : Bytes}

/-- Bytes that are as many as their two lengths ask for begin with an identifier. -/
theorem exists_eq_body_append
    (h : 38 + (raw.u16 36).toNat + (raw.byteAt 19).toNat ≤ raw.length) :
    ∃ (stored : StoredIdentifier) (after : Bytes), raw = stored.body ++ after := by
  have huse := (raw.u16 36).toNat_lt
  have hname := (raw.byteAt 19).toNat_lt
  let stored : StoredIdentifier :=
    { head := ⟨raw.slice 0 18, by rw [Bytes.slice_length]; omega⟩
      characteristics := raw.byteAt 18
      icb := ⟨raw.u32 20, raw.u32 24, raw.u16 28⟩
      icbUse := ⟨raw.slice 30 6, by rw [Bytes.slice_length]; omega⟩
      use := raw.slice 38 (raw.u16 36).toNat
      identifier := raw.slice (38 + (raw.u16 36).toNat) (raw.byteAt 19).toNat
      zeros := 0
      use_length := by rw [Bytes.slice_length]; omega
      identifier_length := by rw [Bytes.slice_length]; omega
      zeros_le := by rw [FileIdentifier.roundUp4]; omega }
  have hnameLength : UInt8.ofNat stored.identifier.length = raw.byteAt 19 := by
    rw [← UInt8.toNat_inj, UInt8.toNat_ofNat', Bytes.slice_length]
    omega
  have huseLength : stored.use.length = (raw.u16 36).toNat := by
    rw [Bytes.slice_length]
    omega
  refine ⟨stored, raw.drop (38 + (raw.u16 36).toNat + (raw.byteAt 19).toNat), ?_⟩
  simp only [StoredIdentifier.body, StoredIdentifier.leading, List.append_assoc, hnameLength,
    huseLength]
  -- Every field is spelled by the run of bytes at its place, and the runs follow one another.
  rw [Bytes.singleton_byteAt (by omega), Bytes.singleton_byteAt (by omega),
    Bytes.ofNatLE_u32 (by omega), Bytes.ofNatLE_u32 (by omega), Bytes.ofNatLE_u16 (by omega),
    Bytes.ofNatLE_u16 (by omega)]
  show raw = raw.slice 0 18 ++ (raw.slice 18 1 ++ (raw.slice 19 1 ++ (raw.slice 20 4 ++
    (raw.slice 24 4 ++ (raw.slice 28 2 ++ (raw.slice 30 6 ++ (raw.slice 36 2 ++
      (raw.slice 38 (raw.u16 36).toNat ++
        (raw.slice (38 + (raw.u16 36).toNat) (raw.byteAt 19).toNat ++
          raw.drop (38 + (raw.u16 36).toNat + (raw.byteAt 19).toNat))))))))))
  rw [raw.slice_append_drop, raw.slice_append_drop, raw.slice_append_drop 36 2,
    raw.slice_append_drop 30 6, raw.slice_append_drop 28 2, raw.slice_append_drop 24 4,
    raw.slice_append_drop 20 4, raw.slice_append_drop 19 1, raw.slice_append_drop 18 1,
    raw.slice_append_drop 0 18, List.drop_zero]

theorem parse?_eq_none_iff :
    FileIdentifier.parse? raw = none
      ↔
    raw.length < 38 + (raw.u16 36).toNat + (raw.byteAt 19).toNat := by
  rw [FileIdentifier.parse?]
  split
  · next hshort =>
      rw [FileIdentifier.fixedLength] at hshort
      exact iff_of_true rfl (by omega)
  · next hfits =>
      rw [FileIdentifier.fixedLength] at hfits
      exact iff_of_false (Option.some_ne_none _) (by omega)

/-- What is read is the identifier at the start of the bytes, but for the bytes that it takes. -/
theorem exists_body_of_parse?
    {found : FileIdentifier}
    (h : FileIdentifier.parse? raw = some found) :
    ∃ (stored : StoredIdentifier) (after : Bytes),
      raw = stored.body ++ after ∧ found = { stored.read with length := found.length } := by
  have hfits : 38 + (raw.u16 36).toNat + (raw.byteAt 19).toNat ≤ raw.length := by
    rw [← Nat.not_lt, ← parse?_eq_none_iff, h]
    exact Option.some_ne_none found
  obtain ⟨stored, after, rfl⟩ := exists_eq_body_append hfits
  rw [stored.parse?_body_append] at h
  cases h
  exact ⟨stored, after, rfl, rfl⟩

end Fitting

/-- Identifiers that are taken from the start of the bytes, one after the other, and what is left. -/
inductive Taken : Bytes → List FileIdentifier → Bytes → Prop where
  | none (rest : Bytes) : Taken rest [] rest
  | next {raw rest : Bytes} {found : FileIdentifier} {later : List FileIdentifier}
      (here : FileIdentifier.parse? raw = some found)
      (behind : Taken (raw.drop found.length) later rest) :
      Taken raw (found :: later) rest

section Runs

/-- Bytes that begin with the tag of an identifier are not zeros. -/
theorem StoredIdentifier.IsTagged.tag
    {stored : StoredIdentifier}
    (h : stored.IsTagged)
    (after : Bytes) :
    (Tag.parse (stored.encode ++ after)).identifier = Tag.fileIdentifier ∧
      (stored.encode ++ after).isBlank = false := by
  have hhead : ∃ rest, stored.encode ++ after = stored.head.toList ++ rest :=
    ⟨_, by simp only [encode, body, leading, List.append_assoc]; rfl⟩
  obtain ⟨rest, hrest⟩ := hhead
  have htag : Bytes.u16 (stored.encode ++ after) 0 = 257 := by
    rw [hrest, Bytes.u16, Bytes.littleEndian_append_left (by simp)]
    exact h
  refine ⟨htag, Bool.eq_false_iff.mpr fun hblank => ?_⟩
  rw [Bytes.u16, Bytes.littleEndian_of_isBlank hblank] at htag
  cases htag

/-- Stored identifiers are taken one by one, and they are what the directory holds. -/
theorem taken_and_held
    {stored : List StoredIdentifier}
    (h : ∀ s ∈ stored.dropLast, s.IsPadded) :
    Taken (stored.flatMap StoredIdentifier.encode) (stored.map StoredIdentifier.read) [] ∧
      ((∀ s ∈ stored, s.IsTagged) →
        Identifiers (stored.flatMap StoredIdentifier.encode)
          (stored.map StoredIdentifier.read)) := by
  induction stored with
  | nil => exact ⟨.none [], fun _ => .ended rfl⟩
  | cons first others ih =>
      have hfirst : others.flatMap StoredIdentifier.encode = [] ∨ first.IsPadded := by
        cases others with
        | nil => exact Or.inl rfl
        | cons second others => exact Or.inr (h first (by simp))
      have hothers : ∀ s ∈ others.dropLast, s.IsPadded := by
        cases others with
        | nil => simp
        | cons second others => exact fun s hs => h s (List.mem_cons_of_mem _ hs)
      obtain ⟨htaken, hheld⟩ := ih hothers
      have hparse := first.parse?_encode_append _ hfirst
      have hdrop : (first.encode ++ others.flatMap StoredIdentifier.encode).drop
          first.read.length = others.flatMap StoredIdentifier.encode := List.drop_left
      rw [List.flatMap_cons, List.map_cons]
      refine ⟨.next hparse (by rw [hdrop]; exact htaken), fun htagged => ?_⟩
      rw [List.forall_mem_cons] at htagged
      obtain ⟨htag, hmore⟩ := htagged.1.tag (others.flatMap StoredIdentifier.encode)
      exact .found hmore htag hparse (by rw [hdrop]; exact hheld htagged.2)

end Runs

/--
**Directories are read back.** Identifiers of all lengths that are written one behind the other, each
but the last filled up with zeros to a multiple of four, are taken one by one, and nothing is left
behind them. If they have their tags, the directory is read as these identifiers and ends cleanly.
Whatever the bytes are, an identifier that is read takes at least 38 of them and no more than there
are; it is the one at their start; and none is read only where no whole identifier stands.
-/
theorem directory_read_back :
    (∀ stored : List StoredIdentifier, (∀ s ∈ stored.dropLast, s.IsPadded) →
      Taken (stored.flatMap StoredIdentifier.encode) (stored.map StoredIdentifier.read) [] ∧
        ((∀ s ∈ stored, s.IsTagged) → ∀ position,
          fileIdentifiers position (stored.flatMap StoredIdentifier.encode) =
            (stored.map StoredIdentifier.read, .clean))) ∧
      ∀ raw : Bytes,
        (∀ found, FileIdentifier.parse? raw = some found →
          (38 ≤ found.length ∧ found.length ≤ raw.length) ∧
          ∃ (stored : StoredIdentifier) (after : Bytes),
            raw = stored.body ++ after ∧ found = { stored.read with length := found.length }) ∧
        (FileIdentifier.parse? raw = none
          ↔
        ¬ ∃ (stored : StoredIdentifier) (after : Bytes), raw = stored.body ++ after) := by
  refine ⟨fun stored hpadded => ?_, fun raw => ⟨fun found hfound => ?_, ?_⟩⟩
  · obtain ⟨htaken, hheld⟩ := taken_and_held hpadded
    exact ⟨htaken, fun htagged position =>
      (fileIdentifiers_eq_clean_iff position _ _).mpr (hheld htagged)⟩
  · exact ⟨FileIdentifier.parse?_length hfound, exists_body_of_parse? hfound⟩
  · constructor
    · rintro hnone ⟨stored, after, rfl⟩
      rw [stored.parse?_body_append] at hnone
      cases hnone
    · intro hnowhere
      rw [parse?_eq_none_iff, ← Nat.not_le]
      exact fun hfits => hnowhere (exists_eq_body_append hfits)

section Small

/-- An identifier with a byte for the use of the writer, and three zeros behind its name. -/
def paddedIdentifier : StoredIdentifier where
  head := ⟨Bytes.ofNatLE 2 257 ++ List.replicate 16 0xFF, rfl⟩
  characteristics := 0x02
  icb := ⟨0xC0000800, 12, 1⟩
  icbUse := .replicate 6 0
  use := [0xAA]
  identifier := [8, 0x64]
  zeros := 3
  use_length := by decide
  identifier_length := by decide
  zeros_le := by decide

/-- An identifier that lacks its three zeros. -/
def unpaddedIdentifier : StoredIdentifier where
  head := ⟨Bytes.ofNatLE 2 257 ++ List.replicate 16 0, rfl⟩
  characteristics := 0
  icb := ⟨2048, 13, 0⟩
  icbUse := .replicate 6 0
  use := []
  identifier := [8, 0x66, 0x67]
  zeros := 0
  use_length := by decide
  identifier_length := by decide
  zeros_le := by decide

/-- Both are read from a directory of 85 bytes. -/
theorem directory_read_back_unpadded :
    (∀ s ∈ [paddedIdentifier, unpaddedIdentifier].dropLast, s.IsPadded) ∧
      (∀ s ∈ [paddedIdentifier, unpaddedIdentifier], s.IsTagged) ∧
      fileIdentifiers 0 (paddedIdentifier.encode ++ (unpaddedIdentifier.encode ++ [])) =
        ([⟨0x02, ⟨0x800, 12, 1⟩, [8, 0x64], 44⟩, ⟨0, ⟨2048, 13, 0⟩, [8, 0x66, 0x67], 41⟩],
          .clean) := by
  have hpadded : ∀ s ∈ [paddedIdentifier, unpaddedIdentifier].dropLast, s.IsPadded :=
    List.forall_mem_singleton.mpr rfl
  have htagged : ∀ s ∈ [paddedIdentifier, unpaddedIdentifier], s.IsTagged :=
    List.forall_mem_cons.mpr ⟨rfl, List.forall_mem_singleton.mpr rfl⟩
  obtain ⟨hstored, -⟩ := directory_read_back
  exact ⟨hpadded, htagged, (hstored _ hpadded).2 htagged 0⟩

end Small

end Udf
end Optical
