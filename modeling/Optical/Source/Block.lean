import Optical.Source.Query

/-!
# Media on a block device

A block device reads whole blocks only, into a buffer of the caller. A volume is the part of a device
from a start block to the end; it answers reads at any offset.

A read fills the caller's buffer in turns. Where a block begins and at least one whole block is left
to fill, all whole blocks that are left go straight from the device to the buffer. Elsewhere the part
of one block is taken from a copy of that block, which the volume keeps until it needs a part of
another one. The number of blocks is asked for once and kept.

A call that fails may have written to its buffer. So the copy is given up before it is read anew, and
it counts again only once the call has succeeded.

Errors count blocks from the start of the device.
-/

namespace Optical

/-- A device that reads whole blocks, or says why it cannot. -/
structure BlockDevice (m : Type → Type) where
  /-- Bytes in a block. -/
  blockSize : Nat
  /-- The number of blocks on the device. -/
  blockCount : m (Except String Nat)
  /--
  Reads as many blocks as a buffer holds, from one block on: how the call ends, and what the buffer
  holds then, which is anything if the call fails.
  -/
  readBlocks : (lba : Nat) → {size : Nat} → Vector UInt8 size →
    m (Except String Unit × Vector UInt8 size)

/-- What a volume remembers between two reads. -/
structure BlockMemory (blockSize : Nat) where
  /-- The number of blocks of the volume, once it is known. -/
  blocks : Option Nat
  /-- The block of the volume of which the buffer is a copy, if it is one. -/
  held : Option Nat
  /-- The buffer for a block of which a part is needed. -/
  buffer : Vector UInt8 blockSize

namespace BlockMemory

/-- Nothing is known before the first read. -/
def empty {blockSize : Nat} : BlockMemory blockSize := ⟨none, none, .replicate blockSize 0⟩

end BlockMemory

/-- The part of a device from a start block on. -/
structure BlockVolume (m : Type → Type) where
  device : BlockDevice m
  /-- The block of the device at which the volume begins. -/
  start : Nat

namespace BlockVolume

section

variable {m : Type → Type} [Monad m]

/-- Calls to the device that may fail and that remember what they have learnt. -/
abbrev Call (blockSize : Nat) (m : Type → Type) := ExceptT Error (StateT (BlockMemory blockSize) m)

/-- What the device answers, its failure told with the block that the call was about. -/
def answered {blockSize : Nat} {α : Type} (lba : Nat) (answer : Except String α) :
    Call blockSize m α :=
  match answer with
  | .ok value => return value
  | .error reason => throw (.blockDevice lba reason)

variable (volume : BlockVolume m)

/-- The number of blocks of the volume. -/
def blocks : Call volume.device.blockSize m Nat := do
  match (← get).blocks with
  | some count => return count
  | none =>
      let total ← answered 0 (← volume.device.blockCount)
      let count := total - volume.start
      modify fun memory => { memory with blocks := some count }
      return count

/-- The length of the volume in bytes. -/
def length : Call volume.device.blockSize m Nat := do
  return (← volume.blocks) * volume.device.blockSize

/-- The buffer as a copy of a block, which it is already or is made by the device. -/
def load (block : Nat) : Call volume.device.blockSize m (Vector UInt8 volume.device.blockSize) := do
  let memory ← get
  if memory.held = some block then return memory.buffer
  else
    modify fun memory => { memory with held := none }
    let (answer, buffer) ← volume.device.readBlocks (volume.start + block) memory.buffer
    modify fun memory => { memory with buffer }
    answered (volume.start + block) answer
    modify fun memory => { memory with held := some block }
    return buffer

/-- The bytes of a range inside a block. -/
def readPart (block first count : Nat) : Call volume.device.blockSize m Bytes := do
  return Bytes.slice (← volume.load block).toList first count

/-- The bytes of whole blocks from one on, as many as a buffer holds. -/
def readWhole (block : Nat) (buffer : Bytes) : Call volume.device.blockSize m Bytes := do
  let (answer, filled) ← volume.device.readBlocks (volume.start + block) buffer.toArray.toVector
  answered (volume.start + block) answer
  return filled.toList

/-- The bytes that fill a buffer from an offset on. -/
def fill (offset : Nat) (buffer : Bytes) : Call volume.device.blockSize m Bytes := do
  let size := volume.device.blockSize
  let block := offset / size
  let first := offset % size
  let count := min (size - first) buffer.length
  -- No block is empty, so this is the end of the buffer.
  if count = 0 then return []
  else if first = 0 ∧ count = size then
    let whole := buffer.length / size * size
    let bytes ← volume.readWhole block (buffer.take whole)
    let later ← fill (offset + whole) (buffer.drop whole)
    return bytes ++ later
  else
    let bytes ← volume.readPart block first count
    let later ← fill (offset + count) (buffer.drop count)
    return bytes ++ later
termination_by buffer.length
decreasing_by
  all_goals rw [List.length_drop]
  · next hcount hwhole =>
      have hpos : 0 < size := hwhole.2 ▸ Nat.pos_of_ne_zero hcount
      have hlong : size ≤ buffer.length := hwhole.2 ▸ Nat.min_le_right _ _
      exact Nat.sub_lt (Nat.lt_of_lt_of_le hpos hlong)
        (Nat.mul_pos (Nat.div_pos hlong hpos) hpos)
  · next hcount _ =>
      have hpos : 0 < count := Nat.pos_of_ne_zero hcount
      exact Nat.sub_lt (Nat.lt_of_lt_of_le hpos (Nat.min_le_right _ _)) hpos

/-- The bytes at an offset that are read into a buffer, fewer at the end of the volume. -/
def readAt (offset : Nat) (buffer : Bytes) : Call volume.device.blockSize m Bytes := do
  let total ← volume.length
  if total ≤ offset then return []
  else volume.fill offset (buffer.take (total - offset))

/-- A volume answers with what it remembers as its state. -/
def source : Source (StateT (BlockMemory volume.device.blockSize) m) where
  size := volume.length.run
  read offset count := (volume.readAt offset (List.replicate count 0)).run

end

end BlockVolume
end Optical
