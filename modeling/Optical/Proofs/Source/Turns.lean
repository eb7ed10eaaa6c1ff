import Mathlib.Algebra.GroupWithZero.Nat
import Optical.Source.Block

/-!
# The turns of a read

A read of a volume fills its buffer in turns. What a turn fills is told by the offset at which it
stands and by the number of bytes that are left: whole blocks, or a range of bytes inside one block.

A turn that does not fill the rest of the buffer ends where a block begins, and a turn of whole blocks
leaves less than a block. So there are three turns at most.

* turn is the piece that a turn fills, and turn_ends says where it ends;
* fill_turn is one turn of a read, and turn_induction the induction along its turns;
* Turns are the pieces of all turns, and Turns.length_le counts them.
-/

namespace Optical

/-- What one turn of a read fills; blocks are counted from the start of the volume. -/
inductive BlockPiece where
  /-- A run of whole blocks. -/
  | whole (block count : Nat)
  /-- A range of bytes inside one block. -/
  | part (block first length : Nat)
deriving DecidableEq, Repr

namespace BlockPiece

/-- The offset of the first byte. -/
def offset (blockSize : Nat) : BlockPiece → Nat
  | .whole block _ => block * blockSize
  | .part block first _ => block * blockSize + first

/-- The number of bytes. -/
def length (blockSize : Nat) : BlockPiece → Nat
  | .whole _ count => count * blockSize
  | .part _ _ length => length

/-- The first block behind those that the piece lies on. -/
def next : BlockPiece → Nat
  | .whole block count => block + count
  | .part block _ _ => block + 1

/-- The blocks that a piece needs are among those of the volume. -/
def Fits (blockSize blocks : Nat) : BlockPiece → Prop
  | .whole block count => block + count ≤ blocks
  | .part block first length => block < blocks ∧ first + length ≤ blockSize

end BlockPiece

section Pieces

/-- The piece that a turn fills at an offset, if so many bytes are left. -/
def turn (blockSize offset left : Nat) : BlockPiece :=
  if offset % blockSize = 0 ∧ blockSize ≤ left then
    .whole (offset / blockSize) (left / blockSize)
  else
    .part (offset / blockSize) (offset % blockSize) (min (blockSize - offset % blockSize) left)

variable {blockSize offset left : Nat}

/-- A turn fills whole blocks, or it fills a part of a block up to its end or to that of the buffer. -/
theorem turn_cases
    (blockSize offset left : Nat) :
    (turn blockSize offset left = .whole (offset / blockSize) (left / blockSize) ∧
      offset % blockSize = 0 ∧ blockSize ≤ left) ∨
    ∃ count, turn blockSize offset left = .part (offset / blockSize) (offset % blockSize) count ∧
      count = min (blockSize - offset % blockSize) left ∧
      ¬ (offset % blockSize = 0 ∧ blockSize ≤ left) := by
  rw [turn]
  split
  · next hwhole => exact .inl ⟨rfl, hwhole⟩
  · next hpart => exact .inr ⟨_, rfl, rfl, hpart⟩

/-- A turn begins at its offset. -/
theorem turn_offset
    (blockSize offset left : Nat) :
    (turn blockSize offset left).offset blockSize = offset := by
  obtain ⟨hturn, haligned, -⟩ | ⟨count, hturn, -, -⟩ := turn_cases blockSize offset left
  · rw [hturn, BlockPiece.offset, Nat.div_mul_cancel (Nat.dvd_of_mod_eq_zero haligned)]
  · rw [hturn, BlockPiece.offset, Nat.div_add_mod']

/-- A turn fills something, and not more than is left. -/
theorem turn_length
    (hblock : 0 < blockSize)
    (offset : Nat)
    (hleft : 0 < left) :
    0 < (turn blockSize offset left).length blockSize ∧
      (turn blockSize offset left).length blockSize ≤ left := by
  have hfirst := Nat.mod_lt offset hblock
  obtain ⟨hturn, -, hlong⟩ | ⟨count, hturn, hcount, -⟩ := turn_cases blockSize offset left
  · rw [hturn, BlockPiece.length]
    exact ⟨Nat.mul_pos (Nat.div_pos hlong hblock) hblock, Nat.div_mul_le_self left blockSize⟩
  · rw [hturn, BlockPiece.length]
    omega

/-- A turn ends in the last block that it lies on, and at its end if something is left behind it. -/
theorem turn_ends
    (hblock : 0 < blockSize)
    (offset : Nat)
    (hleft : 0 < left) :
    let piece := turn blockSize offset left
    offset + piece.length blockSize ≤ piece.next * blockSize ∧
      piece.next * blockSize < offset + piece.length blockSize + blockSize ∧
      (piece.length blockSize < left → piece.next * blockSize = offset + piece.length blockSize) := by
  have hfirst := Nat.mod_lt offset hblock
  have hplace := Nat.div_add_mod' offset blockSize
  obtain ⟨hturn, haligned, -⟩ | ⟨count, hturn, hcount, -⟩ := turn_cases blockSize offset left
  · rw [hturn]
    simp only [BlockPiece.length, BlockPiece.next, Nat.add_mul]
    omega
  · rw [hturn]
    simp only [BlockPiece.length, BlockPiece.next, Nat.add_mul, Nat.one_mul]
    omega

/-- What is left behind a turn begins with a block. -/
theorem turn_aligned
    (hblock : 0 < blockSize)
    (hleft : 0 < left)
    (hmore : (turn blockSize offset left).length blockSize < left) :
    (offset + (turn blockSize offset left).length blockSize) % blockSize = 0 := by
  rw [← (turn_ends hblock offset hleft).2.2 hmore]
  exact Nat.mul_mod_left _ _

/-- Inside a volume a turn needs only blocks of the volume. -/
theorem turn_fits
    (hblock : 0 < blockSize)
    (hleft : 0 < left)
    {blocks : Nat}
    (hinside : offset + left ≤ blocks * blockSize) :
    (turn blockSize offset left).Fits blockSize blocks := by
  have hfirst := Nat.mod_lt offset hblock
  have hends := (turn_ends hblock offset hleft).2.1
  have hlength := (turn_length hblock offset hleft).2
  have hnext : (turn blockSize offset left).next ≤ blocks := by
    apply Nat.le_of_lt_succ
    apply Nat.lt_of_mul_lt_mul_right (a := blockSize)
    rw [Nat.succ_mul]
    omega
  obtain ⟨hturn, -, -⟩ | ⟨count, hturn, hcount, -⟩ := turn_cases blockSize offset left
  · rw [hturn] at hnext ⊢
    exact hnext
  · rw [hturn] at hnext ⊢
    exact ⟨hnext, by omega⟩

/-- The part of a buffer that a turn fills has its length. -/
theorem length_take_turn
    (hblock : 0 < blockSize)
    (offset : Nat)
    {buffer : Bytes}
    (hsome : buffer ≠ []) :
    (buffer.take ((turn blockSize offset buffer.length).length blockSize)).length =
      (turn blockSize offset buffer.length).length blockSize := by
  rw [List.length_take]
  exact Nat.min_eq_left (turn_length hblock offset (List.length_pos_iff.mpr hsome)).2

/-- What holds of every read of nothing, and before a turn if it holds behind it, holds always. -/
theorem turn_induction
    (hblock : 0 < blockSize)
    {motive : Nat → Bytes → Prop}
    (nil : ∀ offset, motive offset [])
    (turn : ∀ offset buffer, buffer ≠ [] →
      motive (offset + (turn blockSize offset buffer.length).length blockSize)
        (buffer.drop ((turn blockSize offset buffer.length).length blockSize)) →
      motive offset buffer)
    (offset : Nat)
    (buffer : Bytes) :
    motive offset buffer := by
  induction hlength : buffer.length using Nat.strongRecOn generalizing offset buffer with
  | _ length ih =>
      by_cases hnil : buffer = []
      · rw [hnil]
        exact nil offset
      · have hleft := List.length_pos_iff.mpr hnil
        have hcount := turn_length hblock offset hleft
        refine turn offset buffer hnil (ih _ ?_ _ _ rfl)
        rw [List.length_drop]
        omega

end Pieces

namespace BlockVolume

section Filling

variable {m : Type → Type} [Monad m]
variable (volume : BlockVolume m)

/-- The bytes of a piece, read into a buffer for them. -/
def readTurn (piece : BlockPiece) (buffer : Bytes) : Call volume.device.blockSize m Bytes :=
  match piece with
  | .whole block _ => volume.readWhole block buffer
  | .part block first length => volume.readPart block first length

theorem fill_nil
    (offset : Nat) :
    volume.fill offset [] = pure [] := by
  rw [fill]
  exact if_pos (Nat.min_zero _)

/-- A read takes its next turn, and goes on behind it. -/
theorem fill_turn
    (hblock : 0 < volume.device.blockSize)
    (offset : Nat)
    {buffer : Bytes}
    (hsome : buffer ≠ []) :
    volume.fill offset buffer =
      let piece := turn volume.device.blockSize offset buffer.length
      let count := piece.length volume.device.blockSize
      do
        let bytes ← volume.readTurn piece (buffer.take count)
        let later ← volume.fill (offset + count) (buffer.drop count)
        return bytes ++ later := by
  have hfirst := Nat.mod_lt offset hblock
  have hleft := List.length_pos_iff.mpr hsome
  rw [fill]
  simp only
  rw [if_neg (by omega)]
  obtain ⟨hturn, haligned, hlong⟩ | ⟨count, hturn, hcount, hpart⟩ :=
    turn_cases volume.device.blockSize offset buffer.length
  · rw [hturn, if_pos (by omega)]
    rfl
  · rw [hturn, if_neg (by omega), ← hcount]
    rfl

end Filling

end BlockVolume

section Turns

/-- The pieces of the turns that a read takes from an offset on, if so many bytes are left. -/
inductive Turns (blockSize : Nat) : (offset left : Nat) → List BlockPiece → Prop where
  | done {offset : Nat} : Turns blockSize offset 0 []
  | turn {offset left : Nat} {later : List BlockPiece}
      (some : 0 < left)
      (onward : Turns blockSize (offset + (turn blockSize offset left).length blockSize)
        (left - (turn blockSize offset left).length blockSize) later) :
      Turns blockSize offset left (turn blockSize offset left :: later)

namespace Turns

variable {blockSize offset left : Nat} {pieces : List BlockPiece}

/-- Nothing is left but a part of a block: it is filled in one turn. -/
theorem length_le_one
    (h : Turns blockSize offset left pieces)
    (haligned : offset % blockSize = 0)
    (hshort : left < blockSize) :
    pieces.length ≤ 1 := by
  cases h with
  | done => exact Nat.zero_le 1
  | turn _ onward =>
      have hturn : (Optical.turn blockSize offset left).length blockSize = left := by
        rw [Optical.turn, if_neg (by omega), BlockPiece.length]
        omega
      rw [hturn, Nat.sub_self] at onward
      cases onward with
      | done => exact Nat.le_refl 1
      | turn some => exact absurd some (Nat.lt_irrefl 0)

/-- From the start of a block on, the whole blocks are filled first. -/
theorem length_le_two
    (h : Turns blockSize offset left pieces)
    (hblock : 0 < blockSize)
    (haligned : offset % blockSize = 0) :
    pieces.length ≤ 2 := by
  rcases Nat.lt_or_ge left blockSize with hshort | hlong
  · exact Nat.le_succ_of_le (h.length_le_one haligned hshort)
  · cases h with
    | done => exact Nat.zero_le 2
    | turn _ onward =>
        have hturn : (Optical.turn blockSize offset left).length blockSize =
            left / blockSize * blockSize := by
          rw [Optical.turn, if_pos ⟨haligned, hlong⟩, BlockPiece.length]
        have hrest := Nat.div_add_mod' left blockSize
        have hmod := Nat.mod_lt left hblock
        rw [hturn] at onward
        refine Nat.succ_le_succ (onward.length_le_one ?_ (by omega))
        rw [Nat.add_mul_mod_self_right, haligned]

/-- A read takes three turns at most. -/
theorem length_le
    (h : Turns blockSize offset left pieces)
    (hblock : 0 < blockSize) :
    pieces.length ≤ 3 := by
  cases h with
  | done => exact Nat.zero_le 3
  | turn some onward =>
      by_cases hmore : (Optical.turn blockSize offset left).length blockSize < left
      · exact Nat.succ_le_succ (onward.length_le_two hblock (turn_aligned hblock some hmore))
      · rw [Nat.sub_eq_zero_of_le (Nat.not_lt.mp hmore)] at onward
        cases onward with
        | done => exact Nat.succ_le_succ (Nat.zero_le 2)
        | turn none => exact absurd none (Nat.lt_irrefl 0)

end Turns

end Turns

end Optical
