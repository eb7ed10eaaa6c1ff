import Optical.Source.Block
import Optical.Source.Memory

/-!
# A disk in memory

A block device over an image, with blocks that can no longer be read and with a log of the reads
that it was asked for. A read is logged first; then it fails if it touches a bad block, and then if
it runs past the end of the image. A read that fails leaves its buffer wiped.
-/

namespace Optical

/-- A block device whose contents are an image. -/
structure Disk where
  contents : Image
  /-- Bytes in a block. -/
  blockSize : Nat
  /-- The number of blocks that the disk claims to have, if not the number that the image fills. -/
  claimed : Option Nat
  /-- The blocks that cannot be read. -/
  bad : List Nat
  /-- The disk cannot tell how many blocks it has. -/
  uncounted : Bool
  /-- The reads so far, the latest first, each as its first block and its number of blocks. -/
  log : List (Nat × Nat)

namespace Disk

/-- The number of blocks that the disk says it has. -/
def blockCount (disk : Disk) : Except String Nat :=
  if disk.uncounted then .error "no medium"
  else .ok (disk.claimed.getD (disk.contents.size / disk.blockSize))

/-- How a read of a run of blocks ends. -/
def answer (disk : Disk) (lba count : Nat) : Except String Unit :=
  if disk.bad.any fun block => lba ≤ block && block < lba + count then .error "media removed"
  else if disk.contents.size < (lba + count) * disk.blockSize then
    .error "read beyond end of device"
  else .ok ()

/-- The bytes from a block on, as many as a buffer has; zeros behind the end of the image. -/
def bytesFrom (disk : Disk) (lba size : Nat) : Vector UInt8 size :=
  .ofFn fun place => disk.contents.getD (lba * disk.blockSize + place) 0

/-- Reads blocks into a buffer, whatever was in it. -/
def readBlocks (blockSize lba : Nat) {size : Nat} (_ : Vector UInt8 size) :
    StateM Disk (Except String Unit × Vector UInt8 size) := do
  let count := size / blockSize
  modify fun disk => { disk with log := (lba, count) :: disk.log }
  let disk ← get
  match disk.answer lba count with
  | .ok () => return (.ok (), disk.bytesFrom lba size)
  | .error reason => return (.error reason, .replicate size 0)

/-- The disk as a device, with itself as its state. -/
def device (blockSize : Nat) : BlockDevice (StateM Disk) where
  blockSize := blockSize
  blockCount := do return (← get).blockCount
  readBlocks := readBlocks blockSize

end Disk
end Optical
