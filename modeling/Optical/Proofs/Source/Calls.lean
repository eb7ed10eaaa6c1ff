import Optical.Source.Block

/-!
# The calls of a volume

A volume calls its device in three places: to count the blocks, to make its buffer a copy of a block,
and to fill the buffer of a reader with whole blocks. Here is what each of them does from any state of
the volume and the device, and how it ends if the device refuses. A read is the count of the blocks,
and then as many turns as the buffer and the volume leave it.

A refused load leaves the buffer as the device has left it, and the buffer is no copy of any block
then.
-/

namespace Optical
namespace BlockVolume

variable {δ α β : Type}

section Steps

variable {blockSize : Nat}
variable (memory : BlockMemory blockSize)
variable (state : δ)

/-- The device is called in its own state, and what is remembered is passed by. -/
theorem run_below
    (action : StateM δ α)
    (next : α → Call blockSize (StateM δ) β) :
    ((((liftM action : Call blockSize (StateM δ) α)) >>= next).run.run memory).run state =
      ((next (action.run state).1).run.run memory).run (action.run state).2 :=
  rfl

theorem run_get
    (next : BlockMemory blockSize → Call blockSize (StateM δ) β) :
    ((get >>= next).run.run memory).run state = ((next memory).run.run memory).run state :=
  rfl

theorem run_modify
    (change : BlockMemory blockSize → BlockMemory blockSize)
    (next : PUnit → Call blockSize (StateM δ) β) :
    ((modify change >>= next).run.run memory).run state =
      ((next ⟨⟩).run.run (change memory)).run state :=
  rfl

end Steps

variable (volume : BlockVolume (StateM δ))
variable (memory : BlockMemory volume.device.blockSize)
variable (state : δ)

/-- The blocks are counted unless their number is known. -/
theorem run_blocks :
    (volume.blocks.run.run memory).run state =
      match memory.blocks with
      | some count => ((.ok count, memory), state)
      | none =>
          match volume.device.blockCount.run state with
          | (.ok total, next) =>
              ((.ok (total - volume.start), { memory with blocks := some (total - volume.start) }),
                next)
          | (.error reason, next) => ((.error (.blockDevice 0 reason), memory), next) := by
  rw [blocks, run_get]
  cases memory.blocks with
  | some count => rfl
  | none =>
      simp only
      rw [run_below]
      obtain ⟨answer, next⟩ := volume.device.blockCount.run state
      cases answer <;> rfl

theorem run_length :
    (volume.length.run.run memory).run state =
      match (volume.blocks.run.run memory).run state with
      | ((.ok count, memory), next) => ((.ok (count * volume.device.blockSize), memory), next)
      | ((.error error, memory), next) => ((.error error, memory), next) := by
  rw [length, ExceptT.run_bind, StateT.run_bind, StateT.run_bind]
  obtain ⟨⟨outcome, middle⟩, next⟩ := (volume.blocks.run.run memory).run state
  cases outcome <;> rfl

/-- A block is read unless it is held. -/
theorem run_load
    (block : Nat) :
    ((volume.load block).run.run memory).run state =
      if memory.held = some block then ((.ok memory.buffer, memory), state)
      else
        match (volume.device.readBlocks (volume.start + block) memory.buffer).run state with
        | ((.ok (), buffer), next) =>
            ((.ok buffer, { memory with held := some block, buffer }), next)
        | ((.error reason, buffer), next) =>
            ((.error (.blockDevice (volume.start + block) reason),
              { memory with held := none, buffer }), next) := by
  rw [load, run_get]
  by_cases hheld : memory.held = some block
  · rw [if_pos hheld, if_pos hheld]
    rfl
  · rw [if_neg hheld, if_neg hheld, run_modify, run_below]
    obtain ⟨⟨answer, buffer⟩, next⟩ :=
      (volume.device.readBlocks (volume.start + block) memory.buffer).run state
    cases answer <;> rfl

/-- Whole blocks leave alone what is remembered. -/
theorem run_readWhole
    (block : Nat)
    (buffer : Bytes) :
    ((volume.readWhole block buffer).run.run memory).run state =
      match (volume.device.readBlocks (volume.start + block) buffer.toArray.toVector).run state with
      | ((.ok (), filled), next) => ((.ok filled.toList, memory), next)
      | ((.error reason, _), next) =>
          ((.error (.blockDevice (volume.start + block) reason), memory), next) := by
  rw [readWhole, run_below]
  obtain ⟨⟨answer, filled⟩, next⟩ :=
    (volume.device.readBlocks (volume.start + block) buffer.toArray.toVector).run state
  cases answer <;> rfl

/-- A read fills its buffer up to the end of the volume. -/
theorem run_readAt
    (offset : Nat)
    (buffer : Bytes) :
    ((volume.readAt offset buffer).run.run memory).run state =
      match (volume.length.run.run memory).run state with
      | ((.ok total, memory), next) =>
          if total ≤ offset then ((.ok [], memory), next)
          else ((volume.fill offset (buffer.take (total - offset))).run.run memory).run next
      | ((.error error, memory), next) => ((.error error, memory), next) := by
  rw [readAt, ExceptT.run_bind, StateT.run_bind, StateT.run_bind]
  obtain ⟨⟨outcome, middle⟩, next⟩ := (volume.length.run.run memory).run state
  cases outcome with
  | error error => rfl
  | ok total =>
      show ((if total ≤ offset then pure [] else
          volume.fill offset (buffer.take (total - offset)) :
        Call volume.device.blockSize (StateM δ) Bytes).run.run middle).run next = _
      by_cases hend : total ≤ offset
      · simp only [if_pos hend]
        rfl
      · simp only [if_neg hend]

end BlockVolume
end Optical
