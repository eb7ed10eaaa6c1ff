/-!
# File flags

One byte of a directory record says how the record is to be taken. Bits 5 and 6 are reserved and
are not kept.
-/

namespace Optical
namespace Iso

/-- The flags of a directory record. -/
structure FileFlags where
  hidden : Bool
  directory : Bool
  associated : Bool
  extendedFormat : Bool
  extendedPermissions : Bool
  /-- More records follow for the same file. -/
  notFinal : Bool
deriving DecidableEq, Repr

namespace FileFlags

/-- The flags in a byte. -/
def ofByte (b : UInt8) : FileFlags where
  hidden := b &&& 0x01 != 0
  directory := b &&& 0x02 != 0
  associated := b &&& 0x04 != 0
  extendedFormat := b &&& 0x08 != 0
  extendedPermissions := b &&& 0x10 != 0
  notFinal := b &&& 0x80 != 0

/-- The byte of the flags, its reserved bits clear. -/
def toByte (flags : FileFlags) : UInt8 :=
  (if flags.hidden then 0x01 else 0) ||| (if flags.directory then 0x02 else 0)
    ||| (if flags.associated then 0x04 else 0) ||| (if flags.extendedFormat then 0x08 else 0)
    ||| (if flags.extendedPermissions then 0x10 else 0) ||| (if flags.notFinal then 0x80 else 0)

theorem ofByte_toByte (flags : FileFlags) : ofByte flags.toByte = flags := by
  cases flags with
  | mk hidden directory associated extendedFormat extendedPermissions notFinal =>
      revert hidden directory associated extendedFormat extendedPermissions notFinal
      decide

/-- The record is a directory that can be listed: a plain one, in one piece. -/
def isWalkable (flags : FileFlags) : Bool :=
  flags.directory && !flags.associated && !flags.extendedFormat && !flags.notFinal

end FileFlags
end Iso
end Optical
