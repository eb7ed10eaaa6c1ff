import Optical.Proofs.Source.Volume

/-!
# Volumes whose device refuses calls

A device may refuse any call, at any time and for any reason, and a refused read may leave anything in
its buffer. As long as what the device does tell is right, a volume over it gives right bytes or none:
a read that succeeds gives exactly the bytes that were asked for, as far as the volume goes, and the
buffer of the volume is the block that it counts as a copy of.

A refusal may come between any two calls of a read, and what the volume remembers then is all that
later reads know. So what it remembers is right after each call, not only after each read.

* Honest says of a device that it tells nothing wrong, and RightOf of a memory that it holds nothing
  wrong;
* Keeps is a property of calls, with one rule for each way to put calls together;
* keeps_fill follows a read along its turns;
* readAll_right says what all reads of a volume give and what the volume remembers after them.
-/

namespace Optical

/--
A device that may refuse any call, but tells its number of blocks and its contents right. Nothing is
said of a buffer into which a read was refused.
-/
structure BlockDevice.Honest
    {δ : Type}
    (device : BlockDevice (StateM δ))
    (contents : Image)
    (total : Nat)
    (ready : δ → Prop) : Prop where
  blockCount : ∀ state answer next, ready state → device.blockCount.run state = (answer, next) →
    ready next ∧ ∀ count, answer = .ok count → count = total
  readBlocks : ∀ (lba count : Nat) {size : Nat}, size = count * device.blockSize →
    ∀ (buffer filled : Vector UInt8 size) state answer next, ready state →
      (device.readBlocks lba buffer).run state = ((answer, filled), next) →
      ready next ∧ (answer = .ok () →
        (lba + count) * device.blockSize ≤ contents.size ∧
        filled.toList = contents.part (lba * device.blockSize) size)

/-- What a volume remembers of a device is right. -/
structure BlockMemory.RightOf
    {blockSize : Nat}
    (memory : BlockMemory blockSize)
    (contents : Image)
    (total start : Nat) : Prop where
  blocks : ∀ count, memory.blocks = some count → count = total - start
  held : ∀ block, memory.held = some block →
    memory.buffer.toList = contents.part ((start + block) * blockSize) blockSize

section Keeping

variable {σ δ ε α β : Type}

/--
From each state with an invariant a call ends in one, whether it fails or not, and what it gives has
a property.
-/
def Keeps
    (inv : σ → δ → Prop)
    (call : ExceptT ε (StateT σ (StateM δ)) α)
    (good : α → Prop) : Prop :=
  ∀ memory state, inv memory state →
    ∃ outcome nextMemory nextState,
      (call.run.run memory).run state = ((outcome, nextMemory), nextState) ∧
      inv nextMemory nextState ∧
      ∀ value, outcome = .ok value → good value

namespace Keeps

variable {inv : σ → δ → Prop}

theorem of_pure
    {good : α → Prop}
    {value : α}
    (h : good value) :
    Keeps inv (pure value : ExceptT ε (StateT σ (StateM δ)) α) good := by
  intro memory state hinv
  refine ⟨.ok value, memory, state, rfl, hinv, ?_⟩
  rintro found ⟨⟩
  exact h

theorem bind
    {call : ExceptT ε (StateT σ (StateM δ)) α}
    {good : α → Prop}
    {next : α → ExceptT ε (StateT σ (StateM δ)) β}
    {better : β → Prop}
    (h : Keeps inv call good)
    (hnext : ∀ value, good value → Keeps inv (next value) better) :
    Keeps inv (call >>= next) better := by
  intro memory state hinv
  obtain ⟨outcome, middleMemory, middleState, hrun, hmiddle, hgood⟩ := h memory state hinv
  rw [ExceptT.run_bind, StateT.run_bind, StateT.run_bind, hrun]
  cases outcome with
  | error error =>
      refine ⟨.error error, middleMemory, middleState, rfl, hmiddle, ?_⟩
      rintro value ⟨⟩
  | ok value => exact hnext value (hgood value rfl) middleMemory middleState hmiddle

end Keeps

end Keeping

namespace BlockVolume

section Reading

variable {δ : Type}
variable {device : BlockDevice (StateM δ)}
variable {contents : Image}
variable {total start : Nat}
variable {ready : δ → Prop}

/-- The device can be called, and what is remembered of it is right. -/
def Trusts
    {blockSize : Nat}
    (contents : Image)
    (total start : Nat)
    (ready : δ → Prop)
    (memory : BlockMemory blockSize)
    (state : δ) : Prop :=
  memory.RightOf contents total start ∧ ready state

/-- The number of blocks is remembered only as it is told. -/
theorem keeps_blocks
    (h : device.Honest contents total ready) :
    Keeps (Trusts contents total start ready) (blocks ⟨device, start⟩) (· = total - start) := by
  rintro memory state ⟨hmemory, hready⟩
  rw [run_blocks]
  cases hknown : memory.blocks with
  | some count =>
      refine ⟨.ok count, memory, state, rfl, ⟨hmemory, hready⟩, ?_⟩
      rintro value ⟨⟩
      exact hmemory.blocks count hknown
  | none =>
      obtain ⟨⟨answer, next⟩, hcall⟩ : ∃ result, device.blockCount.run state = result := ⟨_, rfl⟩
      obtain ⟨hnext, htold⟩ := h.blockCount state answer next hready hcall
      rw [hcall]
      cases answer with
      | error reason =>
          refine ⟨_, memory, next, rfl, ⟨hmemory, hnext⟩, ?_⟩
          rintro value ⟨⟩
      | ok count =>
          cases htold count rfl
          refine ⟨_, _, next, rfl, ⟨⟨?_, hmemory.held⟩, hnext⟩, ?_⟩
          · rintro value ⟨⟩
            rfl
          · rintro value ⟨⟩
            rfl

theorem keeps_length
    (h : device.Honest contents total ready) :
    Keeps (Trusts contents total start ready)
      (length ⟨device, start⟩) (· = (total - start) * device.blockSize) := by
  refine (keeps_blocks h).bind fun count hcount => .of_pure ?_
  rw [hcount]

/-- Blocks that are read are read whole. -/
theorem keeps_readWhole
    (h : device.Honest contents total ready)
    (block count : Nat)
    {buffer : Bytes}
    (hsize : buffer.length = count * device.blockSize) :
    Keeps (Trusts contents total start ready) (readWhole ⟨device, start⟩ block buffer) fun bytes =>
      bytes.length = buffer.length ∧
      bytes = contents.part ((start + block) * device.blockSize) buffer.length := by
  rintro memory state ⟨hmemory, hready⟩
  obtain ⟨⟨⟨answer, filled⟩, next⟩, hcall⟩ :
    ∃ result, (device.readBlocks (start + block) buffer.toArray.toVector).run state = result :=
      ⟨_, rfl⟩
  obtain ⟨hnext, hfilled⟩ :=
    h.readBlocks (start + block) count hsize _ filled state answer next hready hcall
  rw [run_readWhole, hcall]
  cases answer with
  | error reason =>
      refine ⟨_, memory, next, rfl, ⟨hmemory, hnext⟩, ?_⟩
      rintro value ⟨⟩
  | ok =>
      refine ⟨_, memory, next, rfl, ⟨hmemory, hnext⟩, ?_⟩
      rintro value ⟨⟩
      exact ⟨filled.length_toList, (hfilled rfl).2⟩

/-- The buffer counts for nothing before it is read anew, so a refusal leaves no wrong copy. -/
theorem keeps_load
    (h : device.Honest contents total ready)
    (block : Nat) :
    Keeps (Trusts contents total start ready) (load ⟨device, start⟩ block) fun buffer =>
      buffer.toList = contents.part ((start + block) * device.blockSize) device.blockSize := by
  rintro memory state ⟨hmemory, hready⟩
  rw [run_load]
  by_cases hheld : memory.held = some block
  · rw [if_pos hheld]
    refine ⟨_, memory, state, rfl, ⟨hmemory, hready⟩, ?_⟩
    rintro value ⟨⟩
    exact hmemory.held block hheld
  · obtain ⟨⟨⟨answer, buffer⟩, next⟩, hcall⟩ :
      ∃ result, (device.readBlocks (start + block) memory.buffer).run state = result := ⟨_, rfl⟩
    obtain ⟨hnext, hfilled⟩ := h.readBlocks (start + block) 1 (Nat.one_mul _).symm memory.buffer
      buffer state answer next hready hcall
    rw [if_neg hheld, hcall]
    cases answer with
    | error reason =>
        refine ⟨_, _, next, rfl, ⟨⟨hmemory.blocks, ?_⟩, hnext⟩, ?_⟩
        · rintro _ ⟨⟩
        · rintro value ⟨⟩
    | ok =>
        refine ⟨_, _, next, rfl, ⟨⟨hmemory.blocks, ?_⟩, hnext⟩, ?_⟩
        · rintro _ ⟨⟩
          exact (hfilled rfl).2
        · rintro value ⟨⟩
          exact (hfilled rfl).2

/-- What a turn fills is what the device holds there. -/
theorem keeps_readTurn
    (h : device.Honest contents total ready)
    {piece : BlockPiece}
    {blocks : Nat}
    (hfits : piece.Fits device.blockSize blocks)
    {buffer : Bytes}
    (hbuffer : buffer.length = piece.length device.blockSize) :
    Keeps (Trusts contents total start ready) (readTurn ⟨device, start⟩ piece buffer) fun bytes =>
      bytes.length = buffer.length ∧
      bytes = contents.part (start * device.blockSize + piece.offset device.blockSize)
        buffer.length := by
  cases piece with
  | whole block count =>
      have hread : Keeps (Trusts contents total start ready)
        (readWhole ⟨device, start⟩ block buffer) _ := keeps_readWhole h block count hbuffer
      rw [Nat.add_mul] at hread
      exact hread
  | part block first length =>
      refine (keeps_load h block).bind fun copy hcopy => .of_pure ?_
      rw [hbuffer, Bytes.slice_length, copy.length_toList]
      refine ⟨Nat.min_eq_left (Nat.le_sub_of_add_le' hfits.2), ?_⟩
      rw [hcopy, Image.slice_part _ _ hfits.2, Nat.add_mul, Nat.add_assoc]
      rfl

/-- Turn by turn a buffer is filled with what the device holds, or the read fails. -/
theorem keeps_fill
    (h : device.Honest contents total ready)
    (hblock : 0 < device.blockSize)
    {blocks offset : Nat}
    {buffer : Bytes}
    (hinside : offset + buffer.length ≤ blocks * device.blockSize) :
    Keeps (Trusts contents total start ready) (fill ⟨device, start⟩ offset buffer) fun bytes =>
      bytes.length = buffer.length ∧
      bytes = contents.part (start * device.blockSize + offset) buffer.length := by
  induction offset, buffer using turn_induction hblock with
  | nil offset =>
      rw [fill_nil]
      exact .of_pure ⟨rfl, (Image.part_zero _ _).symm⟩
  | turn offset buffer hsome ih =>
      have hleft := List.length_pos_iff.mpr hsome
      have hcount := (turn_length hblock offset hleft).2
      have hbytes : Keeps (Trusts contents total start ready) _ _ :=
        keeps_readTurn h (turn_fits hblock hleft hinside) (length_take_turn hblock offset hsome)
      rw [turn_offset, length_take_turn hblock offset hsome] at hbytes
      rw [List.length_drop] at ih
      rw [fill_turn ⟨device, start⟩ hblock offset hsome]
      refine hbytes.bind fun bytes hbytes => (ih (by omega)).bind fun later hlater => .of_pure ?_
      rw [List.length_append, hbytes.1, hlater.1, hbytes.2, hlater.2, ← Nat.add_assoc,
        ← Image.part_add, Nat.add_sub_cancel' hcount]
      exact ⟨rfl, rfl⟩

/-- A read gives all bytes that were asked for, as far as the volume goes, or none. -/
theorem keeps_readAt
    (h : device.Honest contents total ready)
    (offset : Nat)
    (buffer : Bytes) :
    Keeps (Trusts contents total start ready) (readAt ⟨device, start⟩ offset buffer) fun bytes =>
      bytes.length = min buffer.length ((total - start) * device.blockSize - offset) ∧
      bytes = contents.part (start * device.blockSize + offset)
        (min buffer.length ((total - start) * device.blockSize - offset)) := by
  refine (keeps_length h).bind fun length hlength => ?_
  subst hlength
  by_cases hend : (total - start) * device.blockSize ≤ offset
  · rw [if_pos hend, Nat.sub_eq_zero_of_le hend, Nat.min_zero]
    exact .of_pure ⟨rfl, (Image.part_zero _ _).symm⟩
  · have hblock : 0 < device.blockSize := by
      refine Nat.pos_of_ne_zero fun hzero => hend ?_
      rw [hzero, Nat.mul_zero]
      exact Nat.zero_le offset
    rw [if_neg hend, Nat.min_comm, ← List.length_take]
    have hinside : offset + (buffer.take ((total - start) * device.blockSize - offset)).length ≤
        (total - start) * device.blockSize := by
      rw [List.length_take]
      omega
    exact keeps_fill h hblock hinside

end Reading

section Sessions

variable {δ : Type}

/-- Reads into one buffer after another, each whatever has become of those before. -/
def readAll {m : Type → Type} [Monad m] (volume : BlockVolume m) (reads : List (Nat × Bytes)) :
    StateT (BlockMemory volume.device.blockSize) m (List (Except Error Bytes)) :=
  reads.mapM fun read => (volume.readAt read.1 read.2).run

/-- What a read gives is what the device holds there, as far as the volume goes. -/
def GivesOnly
    (contents : Image)
    (blockSize total start : Nat)
    (read : Nat × Bytes)
    (outcome : Except Error Bytes) : Prop :=
  ∀ bytes, outcome = .ok bytes →
    bytes.length = min read.2.length ((total - start) * blockSize - read.1) ∧
    bytes = contents.part (start * blockSize + read.1)
      (min read.2.length ((total - start) * blockSize - read.1))

variable {device : BlockDevice (StateM δ)}
variable {contents : Image}
variable {total start : Nat}
variable {ready : δ → Prop}

theorem exists_run_readAll
    (h : device.Honest contents total ready)
    (reads : List (Nat × Bytes))
    {memory : BlockMemory device.blockSize}
    {state : δ}
    (hinv : Trusts contents total start ready memory state) :
    ∃ outcomes nextMemory nextState,
      ((readAll ⟨device, start⟩ reads).run memory).run state =
        ((outcomes, nextMemory), nextState) ∧
      Trusts contents total start ready nextMemory nextState ∧
      List.Forall₂ (GivesOnly contents device.blockSize total start) reads outcomes := by
  induction reads generalizing memory state with
  | nil => exact ⟨[], memory, state, rfl, hinv, .nil⟩
  | cons read reads ih =>
      obtain ⟨outcome, middleMemory, middleState, hread, hmiddle, hgood⟩ :=
        keeps_readAt h read.1 read.2 memory state hinv
      obtain ⟨outcomes, nextMemory, nextState, hrest, hnext, hall⟩ := ih hmiddle
      refine ⟨outcome :: outcomes, nextMemory, nextState, ?_, hnext, .cons hgood hall⟩
      rw [readAll, List.mapM_cons, StateT.run_bind, StateT.run_bind, hread]
      show ((readAll ⟨device, start⟩ reads >>= fun later => pure (outcome :: later)).run
        middleMemory).run middleState = _
      rw [StateT.run_bind, StateT.run_bind, hrest]
      rfl

end Sessions

end BlockVolume

namespace Disk

/-- A disk with given bytes that says how many blocks it has, if it can tell at all. -/
structure Tells (contents : Image) (blockSize total : Nat) (disk : Disk) : Prop where
  total : disk.claimed.getD (contents.size / blockSize) = total
  contents : disk.contents = contents
  blockSize : disk.blockSize = blockSize

/-- A disk answers only for what is inside its image. -/
theorem inside_of_answer
    {disk : Disk}
    {lba count : Nat}
    (h : disk.answer lba count = .ok ()) :
    (lba + count) * disk.blockSize ≤ disk.contents.size := by
  rw [answer] at h
  split at h
  · cases h
  · split at h
    · cases h
    · next hinside => exact Nat.not_lt.mp hinside

/-- A disk refuses what it cannot read, and what it reads is right. -/
theorem device_honest
    (contents : Image)
    {blockSize : Nat}
    (hblock : 0 < blockSize)
    (total : Nat) :
    (device blockSize).Honest contents total (Tells contents blockSize total) where
  blockCount := by
    rintro disk answer next h ⟨⟩
    refine ⟨h, fun count hcount => ?_⟩
    change disk.blockCount = .ok count at hcount
    rw [blockCount, h.contents, h.blockSize, h.total] at hcount
    split at hcount
    · cases hcount
    · exact (Except.ok.inj hcount).symm
  readBlocks := by
    intro lba count size hsize buffer filled disk answer next h hcall
    change size = count * blockSize at hsize
    change (readBlocks blockSize lba buffer).run disk = _ at hcall
    have hcount : size / blockSize = count := by rw [hsize, Nat.mul_div_cancel _ hblock]
    rw [run_readBlocks, hcount] at hcall
    cases hends : disk.answer lba count with
    | error reason =>
        rw [hends] at hcall
        cases hcall
        exact ⟨⟨h.total, h.contents, h.blockSize⟩, fun hanswer => absurd hanswer (by simp)⟩
    | ok =>
        rw [hends] at hcall
        cases hcall
        have hinside := inside_of_answer hends
        have hbytes := @Disk.toList_bytesFrom disk lba size (by
          rw [Nat.add_mul, h.blockSize, ← hsize] at hinside
          rwa [h.blockSize])
        rw [h.blockSize, h.contents] at hinside hbytes
        exact ⟨⟨h.total, h.contents, h.blockSize⟩, fun _ => ⟨hinside, hbytes⟩⟩

/-- Three blocks of three bytes, the last of which cannot be read. -/
def scratched : Disk where
  contents := #[10, 11, 12, 13, 14, 15, 16, 17, 18]
  blockSize := 3
  claimed := none
  bad := [2]
  uncounted := false
  log := []

end Disk
end Optical
