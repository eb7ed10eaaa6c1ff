import Optical.Proofs.Image.Parts
import Optical.Proofs.Source.Calls
import Optical.Proofs.Source.Steady
import Optical.Proofs.Source.Turns
import Optical.Source.Disk

/-!
# A volume answers as its image

The bytes behind a front of whole blocks are an image on a device. If the device counts its blocks
and reads them without fail, then a volume that begins behind the front answers as the image does,
whatever it remembers from reads before.

* gives_load says that a block is the same from the buffer and from the device;
* gives_fill follows a read along its turns;
* answersAs_source puts them together, and device_serves says of which disks it can be used.
-/

namespace Optical

/-- A device that reads every run of blocks of its contents, as long as it is ready. -/
structure BlockDevice.Serves
    {δ : Type}
    (device : BlockDevice (StateM δ))
    (contents : Image)
    (ready : δ → Prop) : Prop where
  blockCount : ∀ state, ready state →
    ∃ next, device.blockCount.run state = (.ok (contents.size / device.blockSize), next) ∧ ready next
  readBlocks : ∀ (lba count : Nat) {size : Nat}, size = count * device.blockSize →
    (lba + count) * device.blockSize ≤ contents.size →
    ∀ (buffer : Vector UInt8 size) (state : δ), ready state →
      ∃ filled next, (device.readBlocks lba buffer).run state = ((.ok (), filled), next) ∧
        filled.toList = contents.part (lba * device.blockSize) size ∧ ready next

/-- What a volume remembers of an image is right. -/
structure BlockMemory.TrueOf
    {blockSize : Nat}
    (memory : BlockMemory blockSize)
    (image : Image) : Prop where
  blocks : ∀ count, memory.blocks = some count → count = image.size / blockSize
  held : ∀ block, memory.held = some block →
    memory.buffer.toList = image.part (block * blockSize) blockSize

theorem BlockMemory.trueOf_empty
    (image : Image)
    (blockSize : Nat) :
    (empty : BlockMemory blockSize).TrueOf image where
  blocks := by
    intro count h
    cases h
  held := by
    intro block h
    cases h

namespace Image

/-- Behind a front an image is read at shifted offsets. -/
theorem part_append
    (front image : Image)
    (offset count : Nat) :
    (front ++ image).part (front.size + offset) count = image.part offset count := by
  apply List.ext_getElem?
  intro index
  rw [part_getElem?, part_getElem?, Nat.add_assoc]
  rw [Array.getElem?_append_right (Nat.le_add_right _ _), Nat.add_sub_cancel_left]

theorem slice_part
    (image : Image)
    (offset : Nat)
    {count first length : Nat}
    (h : first + length ≤ count) :
    (image.part offset count).slice first length = image.part (offset + first) length := by
  apply List.ext_getElem?
  intro index
  rw [Bytes.slice, List.getElem?_take, List.getElem?_drop, part_getElem?, part_getElem?]
  rw [Nat.add_assoc]
  by_cases hindex : index < length
  · rw [if_pos hindex, if_pos hindex, if_pos (by omega)]
  · rw [if_neg hindex, if_neg hindex]

end Image

namespace BlockVolume

section Reading

variable {δ : Type}
variable {volume : BlockVolume (StateM δ)}
variable {image : Image}
variable {ready : δ → Prop}

/-- A volume of whole blocks holds an image, and its device can be read. -/
structure Carries
    (volume : BlockVolume (StateM δ))
    (image : Image)
    (ready : δ → Prop) : Prop where
  blockSize_pos : 0 < volume.device.blockSize
  whole : volume.device.blockSize ∣ image.size
  behindFront : ∃ front : Image,
    front.size = volume.start * volume.device.blockSize ∧
    volume.device.Serves (front ++ image) ready

/-- The device can be read, and what is remembered of the image is right. -/
def Holds
    {blockSize : Nat}
    (image : Image)
    (ready : δ → Prop)
    (memory : BlockMemory blockSize)
    (state : δ) : Prop :=
  memory.TrueOf image ∧ ready state

/-- The blocks behind the front are counted once, and then remembered. -/
theorem gives_blocks
    (h : volume.Carries image ready) :
    Gives (Holds image ready) volume.blocks.run
      (.ok (image.size / volume.device.blockSize)) := by
  obtain ⟨front, hfront, hserves⟩ := h.behindFront
  have hcount : (front ++ image).size / volume.device.blockSize - volume.start =
      image.size / volume.device.blockSize := by
    rw [Array.size_append, hfront, Nat.mul_comm, Nat.mul_add_div h.blockSize_pos]
    rw [Nat.add_sub_cancel_left]
  rintro memory state ⟨hmemory, hready⟩
  rw [run_blocks]
  cases hknown : memory.blocks with
  | some count =>
      rw [← hmemory.blocks count hknown]
      exact ⟨memory, state, rfl, hmemory, hready⟩
  | none =>
      obtain ⟨next, hcall, hnext⟩ := hserves.blockCount state hready
      rw [hcall]
      simp only [hcount]
      refine ⟨_, next, rfl, ⟨?_, hmemory.held⟩, hnext⟩
      rintro count ⟨⟩
      rfl

theorem gives_length
    (h : volume.Carries image ready) :
    Gives (Holds image ready) volume.length.run (.ok image.size) := by
  refine (gives_blocks h).andThen ?_
  rw [Nat.div_mul_cancel h.whole]
  exact .of_pure _

/-- The device fills a buffer from blocks of the volume with their bytes of the image. -/
theorem exists_run_readBlocks
    (h : volume.Carries image ready)
    {block count size : Nat}
    (hsize : size = count * volume.device.blockSize)
    (hinside : (block + count) * volume.device.blockSize ≤ image.size)
    (buffer : Vector UInt8 size)
    {state : δ}
    (hready : ready state) :
    ∃ (filled : Vector UInt8 size) (next : δ),
      (volume.device.readBlocks (volume.start + block) buffer).run state =
        ((.ok (), filled), next) ∧
      filled.toList = image.part (block * volume.device.blockSize) size ∧
      ready next := by
  obtain ⟨front, hfront, hserves⟩ := h.behindFront
  have hplace : (volume.start + block) * volume.device.blockSize =
      front.size + block * volume.device.blockSize := by
    rw [Nat.add_mul, hfront]
  have hdevice : (volume.start + block + count) * volume.device.blockSize ≤
      (front ++ image).size := by
    rw [Array.size_append, hfront, Nat.add_assoc, Nat.add_mul]
    omega
  obtain ⟨filled, next, hcall, hfilled, hnext⟩ :=
    hserves.readBlocks (volume.start + block) count hsize hdevice buffer state hready
  rw [hplace, Image.part_append] at hfilled
  exact ⟨filled, next, hcall, hfilled, hnext⟩

/-- Whole blocks are read into a buffer as they stand in the image. -/
theorem gives_readWhole
    (h : volume.Carries image ready)
    {block count : Nat}
    {buffer : Bytes}
    (hsize : buffer.length = count * volume.device.blockSize)
    (hinside : (block + count) * volume.device.blockSize ≤ image.size) :
    Gives (Holds image ready) (volume.readWhole block buffer).run
      (.ok (image.part (block * volume.device.blockSize) buffer.length)) := by
  rintro memory state ⟨hmemory, hready⟩
  obtain ⟨filled, next, hcall, hfilled, hnext⟩ :=
    exists_run_readBlocks h hsize hinside buffer.toArray.toVector hready
  rw [run_readWhole, hcall, ← hfilled]
  exact ⟨memory, next, rfl, hmemory, hnext⟩

/-- A part of a block is the same from the buffer and from the device. -/
theorem gives_readPart
    (h : volume.Carries image ready)
    {block first count : Nat}
    (hinside : (block + 1) * volume.device.blockSize ≤ image.size)
    (hfits : first + count ≤ volume.device.blockSize) :
    Gives (Holds image ready) (volume.readPart block first count).run
      (.ok (image.part (block * volume.device.blockSize + first) count)) := by
  rintro memory state ⟨hmemory, hready⟩
  rw [readPart, ExceptT.run_bind, StateT.run_bind, StateT.run_bind, run_load,
    ← Image.slice_part image _ hfits]
  by_cases hheld : memory.held = some block
  · rw [if_pos hheld, ← hmemory.held block hheld]
    exact ⟨memory, state, rfl, hmemory, hready⟩
  · obtain ⟨filled, next, hcall, hfilled, hnext⟩ :=
      exists_run_readBlocks h (Nat.one_mul _).symm hinside memory.buffer hready
    rw [if_neg hheld, hcall, ← hfilled]
    refine ⟨_, next, rfl, ⟨hmemory.blocks, ?_⟩, hnext⟩
    rintro _ ⟨⟩
    exact hfilled

/-- A turn inside the volume fills the buffer with the bytes of the image that stand there. -/
theorem gives_readTurn
    (h : volume.Carries image ready)
    {piece : BlockPiece}
    (hfits : piece.Fits volume.device.blockSize (image.size / volume.device.blockSize))
    {buffer : Bytes}
    (hbuffer : buffer.length = piece.length volume.device.blockSize) :
    Gives (Holds image ready) (volume.readTurn piece buffer).run
      (.ok (image.part (piece.offset volume.device.blockSize) buffer.length)) := by
  have hinside {last : Nat} (hlast : last ≤ image.size / volume.device.blockSize) :
      last * volume.device.blockSize ≤ image.size :=
    Nat.le_trans (Nat.mul_le_mul_right _ hlast) (Nat.div_mul_le_self _ _)
  cases piece with
  | whole block count => exact gives_readWhole h hbuffer (hinside hfits)
  | part block first length =>
      rw [hbuffer]
      exact gives_readPart h (hinside hfits.1) hfits.2

/-- Turn by turn a buffer is filled with the bytes of the image. -/
theorem gives_fill
    (h : volume.Carries image ready)
    {offset : Nat}
    {buffer : Bytes}
    (hinside : offset + buffer.length ≤ image.size) :
    Gives (Holds image ready) (volume.fill offset buffer).run
      (.ok (image.part offset buffer.length)) := by
  have hblock := h.blockSize_pos
  induction offset, buffer using turn_induction hblock with
  | nil offset =>
      rw [fill_nil, List.length_nil, Image.part_zero]
      exact .of_pure _
  | turn offset buffer hsome ih =>
      have hleft := List.length_pos_iff.mpr hsome
      have hcount := (turn_length hblock offset hleft).2
      have hblocks : offset + buffer.length ≤
          image.size / volume.device.blockSize * volume.device.blockSize := by
        rwa [Nat.div_mul_cancel h.whole]
      have hbytes := gives_readTurn h (turn_fits hblock hleft hblocks)
        (length_take_turn hblock offset hsome)
      rw [turn_offset, length_take_turn hblock offset hsome] at hbytes
      rw [List.length_drop] at ih
      rw [fill_turn volume hblock offset hsome]
      refine hbytes.andThen ((ih (by omega)).andThen ?_)
      rw [← Image.part_add, Nat.add_sub_cancel' hcount]
      exact .of_pure _

/-- A read of a volume gives the bytes of the image, fewer than asked for at its end. -/
theorem gives_readAt
    (h : volume.Carries image ready)
    (offset : Nat)
    (buffer : Bytes) :
    Gives (Holds image ready) (volume.readAt offset buffer).run
      (.ok (image.part offset buffer.length)) := by
  refine (gives_length h).andThen ?_
  by_cases hend : image.size ≤ offset
  · rw [if_pos hend, Image.part_eq_nil image hend]
    exact .of_pure _
  · rw [if_neg hend, ← Image.part_min, Nat.min_comm, ← List.length_take]
    refine gives_fill h ?_
    rw [List.length_take]
    omega

theorem answersAs_source
    (h : volume.Carries image ready) :
    volume.source.AnswersAs image (Holds image ready) where
  size := gives_length h
  read offset count := by
    have hread := gives_readAt h offset (List.replicate count 0)
    rw [List.length_replicate] at hread
    exact hread

end Reading

end BlockVolume

namespace Disk

/-- A disk that tells its blocks and has none that cannot be read. -/
structure Sound (contents : Image) (blockSize : Nat) (disk : Disk) : Prop where
  contents : disk.contents = contents
  blockSize : disk.blockSize = blockSize
  claimed : disk.claimed = none
  bad : disk.bad = []
  counted : disk.uncounted = false

/-- Inside its image a disk fills a buffer with the bytes that stand there. -/
theorem toList_bytesFrom
    (disk : Disk)
    {lba size : Nat}
    (hinside : lba * disk.blockSize + size ≤ disk.contents.size) :
    (disk.bytesFrom lba size).toList = disk.contents.part (lba * disk.blockSize) size := by
  apply List.ext_getElem?
  intro index
  rw [Image.part_getElem?, Vector.getElem?_toList]
  by_cases hindex : index < size
  · have hplace : lba * disk.blockSize + index < disk.contents.size := by omega
    rw [if_pos hindex, Vector.getElem?_eq_getElem hindex, Array.getElem?_eq_getElem hplace]
    simp [bytesFrom, hplace]
  · rw [if_neg hindex, Vector.getElem?_eq_none (Nat.not_lt.mp hindex)]

/-- A read is logged, and its buffer is filled or wiped. -/
theorem run_readBlocks
    (blockSize lba : Nat)
    {size : Nat}
    (buffer : Vector UInt8 size)
    (disk : Disk) :
    (readBlocks blockSize lba buffer).run disk =
      ((match disk.answer lba (size / blockSize) with
        | .ok () => (.ok (), disk.bytesFrom lba size)
        | .error reason => (.error reason, .replicate size 0)),
        { disk with log := (lba, size / blockSize) :: disk.log }) := by
  have hlog : (readBlocks blockSize lba buffer).run disk =
    (match disk.answer lba (size / blockSize) with
      | .ok () => pure (.ok (), disk.bytesFrom lba size)
      | .error reason => pure (.error reason, .replicate size 0) :
        StateM Disk (Except String Unit × Vector UInt8 size)).run
          { disk with log := (lba, size / blockSize) :: disk.log } := rfl
  rw [hlog]
  cases disk.answer lba (size / blockSize) <;> rfl

/-- A sound disk answers inside its image. -/
theorem Sound.answer_eq
    {contents : Image}
    {blockSize : Nat}
    {disk : Disk}
    (h : disk.Sound contents blockSize)
    {lba count : Nat}
    (hinside : (lba + count) * blockSize ≤ contents.size) :
    disk.answer lba count = .ok () := by
  rw [answer, h.bad, h.contents, h.blockSize, List.any_nil, if_neg Bool.false_ne_true,
    if_neg (Nat.not_lt.mpr hinside)]

theorem device_serves
    (contents : Image)
    {blockSize : Nat}
    (hblock : 0 < blockSize) :
    (device blockSize).Serves contents (Sound contents blockSize) where
  blockCount := by
    intro disk h
    refine ⟨disk, ?_, h⟩
    show (disk.blockCount, disk) = _
    rw [blockCount, h.counted, h.claimed, h.contents, h.blockSize]
    rfl
  readBlocks := by
    intro lba count size hsize hinside buffer disk h
    change size = count * blockSize at hsize
    change (lba + count) * blockSize ≤ contents.size at hinside
    have hcount : size / blockSize = count := by rw [hsize, Nat.mul_div_cancel _ hblock]
    refine ⟨disk.bytesFrom lba size, { disk with log := (lba, count) :: disk.log }, ?_, ?_,
      ⟨h.contents, h.blockSize, h.claimed, h.bad, h.counted⟩⟩
    · show (readBlocks blockSize lba buffer).run disk = _
      rw [run_readBlocks, hcount, h.answer_eq hinside]
    · rw [Nat.add_mul, ← hsize] at hinside
      rw [disk.toList_bytesFrom (by rw [h.contents, h.blockSize]; exact hinside), h.contents,
        h.blockSize]
      rfl

end Disk
end Optical
