import Optical.Udf.Descriptor

/-!
# File identifiers

A UDF directory is a run of file identifiers, each the name of an entry and a pointer to it. An
identifier has 38 bytes, bytes for the use of the writer, and the name; zeros fill it up to a
multiple of four, except perhaps at the end of the directory. Zeros may follow the last identifier.
-/

namespace Optical
namespace Udf

/-- The name of a directory entry and where its file entry is. -/
structure FileIdentifier where
  characteristics : UInt8
  icb : BlockPointer
  identifier : Bytes
  /-- Bytes of the identifier in its directory. -/
  length : Nat
deriving DecidableEq, Repr

namespace FileIdentifier

/-- Bytes of an identifier before those of varying length. -/
def fixedLength : Nat := 38

/-- The least multiple of four that is not below a number. -/
def roundUp4 (n : Nat) : Nat :=
  (n + 3) / 4 * 4

/-- The identifier at the start of a byte string, if it fits there. -/
def parse? (raw : Bytes) : Option FileIdentifier :=
  let nameStart := fixedLength + (raw.u16 36).toNat
  let nameLength := (raw.byteAt 19).toNat
  if raw.length < fixedLength ∨ raw.length < nameStart + nameLength then none
  else some {
    characteristics := raw.byteAt 18
    icb := .parse raw 20
    identifier := raw.slice nameStart nameLength
    length := min (roundUp4 (nameStart + nameLength)) raw.length }

theorem parse?_length {raw : Bytes} {found : FileIdentifier} (h : parse? raw = some found) :
    fixedLength ≤ found.length ∧ found.length ≤ raw.length := by
  simp only [parse?] at h
  split at h
  · cases h
  · cases h
    simp only [fixedLength, roundUp4] at *
    omega

/-- The entry stands for the directory above. -/
def isParent (found : FileIdentifier) : Bool :=
  found.characteristics &&& 0x08 != 0

/-- The entry has been deleted. -/
def isDeleted (found : FileIdentifier) : Bool :=
  found.characteristics &&& 0x04 != 0

/-- The name of the entry. -/
def name (found : FileIdentifier) : List Char :=
  decodeDstring found.identifier

end FileIdentifier

/-- How the identifiers of a directory end. -/
inductive DirectoryEnd where
  /-- Nothing but zeros follows. -/
  | clean
  /-- A descriptor of another type follows at a position. -/
  | foreignTag (found : UInt16) (position : Nat)
  /-- The identifier at a position is longer than what is left. -/
  | overrun (position : Nat)
deriving DecidableEq, Repr

/-- The identifiers in the rest of a directory from a position on, and how they end. -/
def fileIdentifiers (position : Nat) (rest : Bytes) : List FileIdentifier × DirectoryEnd :=
  if rest.isBlank then ([], .clean)
  else if (Tag.parse rest).identifier ≠ Tag.fileIdentifier then
    ([], .foreignTag (Tag.parse rest).identifier position)
  else
    match _found : FileIdentifier.parse? rest with
    | none => ([], .overrun position)
    | some found =>
        let (later, ending) := fileIdentifiers (position + found.length) (rest.drop found.length)
        (found :: later, ending)
termination_by rest.length
decreasing_by
  have := FileIdentifier.parse?_length _found
  simp only [FileIdentifier.fixedLength, List.length_drop] at *
  omega

end Udf
end Optical
