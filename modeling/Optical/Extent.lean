/-!
# Sectors and extents

A disc is addressed in sectors of 2048 bytes. An extent is a run of bytes that begins at the
start of a sector; its length in bytes need not fill its last sector.

Offsets are counted here without a bound, and media have offsets of 64 bits. The fields of a volume
are too small for a difference: a sector and a length have 32 bits each, and a sum of a few of them,
in bytes, is far from the bound. What is said of an arbitrary extent is therefore meant for those
whose last sector ends below the bound, as all extents do that a volume names.
-/

namespace Optical

/-- Bytes in a sector. -/
def sectorSize : Nat := 2048

/-- The offset of the first byte of a sector. -/
def sectorStart (sector : Nat) : Nat :=
  sector * sectorSize

/-- The number of sectors that hold a count of bytes, the last of them perhaps in part. -/
def sectorsFor (bytes : Nat) : Nat :=
  (bytes + (sectorSize - 1)) / sectorSize

/-- One more than the greatest offset, a number of 64 bits. -/
def offsetBound : Nat := 0x10000000000000000

/-- A run of bytes from the start of a sector. -/
structure Extent where
  /-- The sector that holds the first byte. -/
  sector : Nat
  /-- The number of bytes. -/
  length : Nat
deriving DecidableEq, Repr

namespace Extent

/-- The number of sectors that the extent touches. -/
def sectorCount (extent : Extent) : Nat :=
  sectorsFor extent.length

/-- The first sector after the extent. -/
def endSector (extent : Extent) : Nat :=
  extent.sector + extent.sectorCount

/-- The offset of the extent's first byte. -/
def byteOffset (extent : Extent) : Nat :=
  sectorStart extent.sector

end Extent
end Optical
