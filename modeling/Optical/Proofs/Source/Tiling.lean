import Optical.Proofs.Source.Turns

/-!
# The blocks under a read

The turns of a read cut its range of bytes into pieces. They lie side by side on the blocks that have
bytes of the range, each block under one piece only.

A piece needs its blocks from the device, but a part of a block does not need the block that is held,
and it is the one that is held afterwards. So what the pieces need depends on the block that is held
before, and a block that is not held then is needed once.

* Overlaps are the blocks that have bytes of a range, and overlaps_iff says which those are;
* Tiles says that pieces lie on blocks without gap and without overlap, and Turns.tiles that those of
  a read do;
* runsOf are the runs of blocks that pieces need, and countP_runs counts how often they need a block.
-/

namespace Optical

/-- A range of bytes has a byte in a block. -/
def Overlaps (blockSize offset count block : Nat) : Prop :=
  ∃ position, offset ≤ position ∧ position < offset + count ∧ position / blockSize = block

/-- A run of blocks, as its first block and its number of blocks, has a block. -/
def hasBlock (lba : Nat) (run : Nat × Nat) : Bool :=
  run.1 ≤ lba && lba < run.1 + run.2

section Tiling

variable {blockSize : Nat}

/-- The pieces lie on the blocks from one block up to another, each block under one piece. -/
inductive Tiles : (first last : Nat) → List BlockPiece → Prop where
  | nil {block : Nat} : Tiles block block []
  | whole {block count last : Nat} {pieces : List BlockPiece} :
      0 < count → Tiles (block + count) last pieces →
      Tiles block last (.whole block count :: pieces)
  | part {block first length last : Nat} {pieces : List BlockPiece} :
      Tiles (block + 1) last pieces → Tiles block last (.part block first length :: pieces)

/-- The blocks of a range are those from its first byte to its last byte. -/
theorem overlaps_iff
    (hblock : 0 < blockSize)
    {offset count : Nat}
    (hcount : 0 < count)
    (block : Nat) :
    Overlaps blockSize offset count block ↔
      offset / blockSize ≤ block ∧ block < (offset + count - 1) / blockSize + 1 := by
  constructor
  · rintro ⟨position, hfirst, hlast, rfl⟩
    refine ⟨Nat.div_le_div_right hfirst, Nat.lt_succ_of_le (Nat.div_le_div_right ?_)⟩
    omega
  · rintro ⟨hfirst, hlast⟩
    have hbegin : offset < (block + 1) * blockSize :=
      (Nat.div_lt_iff_lt_mul hblock).mp (Nat.lt_succ_of_le hfirst)
    have hend : block * blockSize ≤ offset + count - 1 :=
      (Nat.le_div_iff_mul_le hblock).mp (Nat.le_of_lt_succ hlast)
    rw [Nat.succ_mul] at hbegin
    refine ⟨max offset (block * blockSize), Nat.le_max_left _ _, by omega, ?_⟩
    apply Nat.div_eq_of_lt_le (Nat.le_max_right _ _)
    rw [Nat.succ_mul]
    omega

/-- The last byte of a range is in the last block that the range reaches into. -/
theorem lastBlock_eq
    {offset count block : Nat}
    (hbegin : block * blockSize < offset + count)
    (hend : offset + count ≤ block * blockSize + blockSize) :
    (offset + count - 1) / blockSize = block := by
  apply Nat.div_eq_of_lt_le
  · omega
  · rw [Nat.succ_mul]
    omega

/-- A turn lies on the blocks from its offset on, before those that lie behind it. -/
theorem Tiles.turn
    (hblock : 0 < blockSize)
    {offset left last : Nat}
    {later : List BlockPiece}
    (h : Tiles (turn blockSize offset left).next last later) :
    Tiles (offset / blockSize) last (Optical.turn blockSize offset left :: later) := by
  obtain ⟨hturn, -, hlong⟩ | ⟨count, hturn, -, -⟩ := turn_cases blockSize offset left
  · rw [hturn] at h ⊢
    exact .whole (Nat.div_pos hlong hblock) h
  · rw [hturn] at h ⊢
    exact .part h

/-- The turns of a read lie on the blocks of its range. -/
theorem Turns.tiles
    (hblock : 0 < blockSize)
    {offset count : Nat}
    {pieces : List BlockPiece}
    (h : Turns blockSize offset count pieces)
    (hcount : 0 < count) :
    Tiles (offset / blockSize) ((offset + count - 1) / blockSize + 1) pieces := by
  induction h with
  | done => exact absurd hcount (Nat.lt_irrefl 0)
  | @turn offset left later some onward ih =>
      apply Tiles.turn hblock
      obtain ⟨hinside, hnear, hmore⟩ := turn_ends hblock offset some
      have hlength := turn_length hblock offset some
      generalize Optical.turn blockSize offset left = piece at *
      by_cases hrest : piece.length blockSize < left
      · -- Behind the turn is the next block, and the range ends where it did.
        have htiles := ih (Nat.sub_pos_of_lt hrest)
        have hbegin : (offset + piece.length blockSize) / blockSize = piece.next := by
          rw [← hmore hrest, Nat.mul_div_cancel _ hblock]
        have hend : offset + piece.length blockSize + (left - piece.length blockSize) =
            offset + left := by omega
        rw [hbegin, hend] at htiles
        exact htiles
      · -- The turn is the last one: the range ends in its last block.
        obtain ⟨before, hbefore⟩ : ∃ before, piece.next = before + 1 := by
          refine Nat.exists_eq_succ_of_ne_zero fun hzero => ?_
          rw [hzero, Nat.zero_mul] at hinside
          omega
        rw [hbefore, Nat.succ_mul] at hinside hnear
        have hlast : (offset + left - 1) / blockSize = before :=
          lastBlock_eq (by omega) (by omega)
        rw [Nat.sub_eq_zero_of_le (Nat.not_lt.mp hrest)] at onward
        cases onward with
        | done =>
            rw [hlast, hbefore]
            exact .nil
        | turn none => exact absurd none (Nat.lt_irrefl 0)

end Tiling

section Runs

/-- The block that is held after a piece. -/
def BlockPiece.holds (held : Option Nat) : BlockPiece → Option Nat
  | .whole _ _ => held
  | .part block _ _ => some block

/-- The runs of blocks that a piece needs. -/
def BlockPiece.runs (start : Nat) (held : Option Nat) : BlockPiece → List (Nat × Nat)
  | .whole block count => [(start + block, count)]
  | .part block _ _ => if held = some block then [] else [(start + block, 1)]

/-- The runs of blocks that pieces need one after another. -/
def runsOf (start : Nat) : Option Nat → List BlockPiece → List (Nat × Nat)
  | _, [] => []
  | held, piece :: pieces => piece.runs start held ++ runsOf start (piece.holds held) pieces

variable {start : Nat} {held : Option Nat}

theorem length_runsOf_le
    (pieces : List BlockPiece) :
    (runsOf start held pieces).length ≤ pieces.length := by
  induction pieces generalizing held with
  | nil => exact Nat.le_refl 0
  | cons piece pieces ih =>
      have hpiece : (piece.runs start held).length ≤ 1 := by
        cases piece with
        | whole => exact Nat.le_refl 1
        | part => rw [BlockPiece.runs]; split <;> simp
      have := @ih (piece.holds held)
      rw [runsOf, List.length_append, List.length_cons]
      omega

/-- A run has a block that lies behind none of its blocks. -/
theorem countP_whole
    (begin count block : Nat)
    (hblock : begin ≤ block) :
    ((BlockPiece.whole begin count).runs start held).countP (hasBlock (start + block)) =
      if block < begin + count then 1 else 0 := by
  rw [BlockPiece.runs, List.countP_singleton, hasBlock]
  congr 1
  simp only [Bool.and_eq_true, decide_eq_true_eq, eq_iff_iff]
  omega

/-- A part of a block needs its block alone, unless that one is held. -/
theorem countP_part
    (begin first length block : Nat) :
    ((BlockPiece.part begin first length).runs start held).countP
        (hasBlock (start + block)) =
      if begin = block ∧ held ≠ some begin then 1 else 0 := by
  rw [BlockPiece.runs]
  by_cases hheld : held = some begin
  · rw [if_pos hheld, if_neg fun h => h.2 hheld, List.countP_nil]
  · rw [if_neg hheld, List.countP_singleton, hasBlock]
    congr 1
    simp only [Bool.and_eq_true, decide_eq_true_eq, eq_iff_iff, hheld, not_false_eq_true, and_true,
      ne_eq]
    omega

namespace Tiles

variable {first last : Nat} {pieces : List BlockPiece}

/-- What pieces need lies on the blocks that they lie on. -/
theorem runs_inside
    (h : Tiles first last pieces) :
    first ≤ last ∧ ∀ run ∈ runsOf start held pieces,
      0 < run.2 ∧ start + first ≤ run.1 ∧ run.1 + run.2 ≤ start + last := by
  induction h generalizing held with
  | nil => exact ⟨Nat.le_refl _, fun run hrun => absurd hrun List.not_mem_nil⟩
  | whole hcount _ ih =>
      obtain ⟨hle, hrest⟩ := @ih held
      refine ⟨by omega, fun run hrun => ?_⟩
      rcases List.mem_cons.mp hrun with rfl | hrun
      · exact ⟨hcount, Nat.le_refl _, by simp only; omega⟩
      · obtain ⟨hpos, hbegin, hend⟩ := hrest run hrun
        exact ⟨hpos, by omega, hend⟩
  | @part block _ _ _ _ _ ih =>
      obtain ⟨hle, hrest⟩ := @ih (some block)
      refine ⟨by omega, fun run hrun => ?_⟩
      rcases List.mem_append.mp hrun with hrun | hrun
      · rw [BlockPiece.runs] at hrun
        split at hrun
        · cases hrun
        · cases List.mem_singleton.mp hrun
          exact ⟨Nat.one_pos, Nat.le_refl _, by simp only; omega⟩
      · obtain ⟨hpos, hbegin, hend⟩ := hrest run hrun
        exact ⟨hpos, by omega, hend⟩

theorem runs_ascending
    (h : Tiles first last pieces) :
    (runsOf start held pieces).Pairwise fun earlier later =>
      earlier.1 + earlier.2 ≤ later.1 := by
  induction h generalizing held with
  | nil => exact .nil
  | @whole block count _ pieces _ hrest ih =>
      refine .cons (fun run hrun => ?_) ih
      have := (hrest.runs_inside.2 run hrun).2.1
      simp only
      omega
  | @part block first length _ pieces hrest ih =>
      refine List.pairwise_append.mpr ⟨?_, ih, fun run hrun later hlater => ?_⟩
      · rw [BlockPiece.runs]
        split
        · exact .nil
        · exact List.pairwise_singleton _ _
      · have := (hrest.runs_inside.2 later hlater).2.1
        rw [BlockPiece.runs] at hrun
        split at hrun
        · cases hrun
        · cases List.mem_singleton.mp hrun
          simp only
          omega

/-- Runs behind a block do not have it. -/
theorem countP_before
    (h : Tiles first last pieces)
    {block : Nat}
    (hblock : block < first) :
    (runsOf start held pieces).countP (hasBlock (start + block)) = 0 := by
  refine List.countP_eq_zero.mpr fun run hrun hcovers => ?_
  have := (h.runs_inside.2 run hrun).2.1
  have hbegin := (Bool.and_eq_true_iff.mp hcovers).1
  rw [decide_eq_true_iff] at hbegin
  omega

/-- Each block is needed once, or held before. -/
theorem countP_runs
    (h : Tiles first last pieces)
    {block : Nat}
    (hfirst : first ≤ block)
    (hlast : block < last) :
    (runsOf start held pieces).countP (hasBlock (start + block)) = 1 ∨
      held = some block ∧
        (runsOf start held pieces).countP (hasBlock (start + block)) = 0 := by
  induction h generalizing held with
  | nil => omega
  | @whole begin count last pieces hcount hrest ih =>
      rw [runsOf, List.countP_append]
      rw [countP_whole begin count block hfirst]
      rcases Nat.lt_or_ge block (begin + count) with hinside | hbehind
      · rw [hrest.countP_before hinside, if_pos hinside]
        exact .inl rfl
      · rw [if_neg (Nat.not_lt.mpr hbehind), Nat.zero_add]
        exact ih hbehind hlast
  | @part begin first length last pieces hrest ih =>
      rw [runsOf, List.countP_append]
      rw [countP_part]
      rcases Nat.lt_or_ge block (begin + 1) with hinside | hbehind
      · obtain rfl : begin = block := by omega
        rw [hrest.countP_before hinside]
        by_cases hheld : held = some begin
        · exact .inr ⟨hheld, if_neg fun h => h.2 hheld⟩
        · exact .inl (if_pos ⟨rfl, hheld⟩)
      · rw [if_neg fun h => by omega, Nat.zero_add]
        refine (ih hbehind hlast).imp_right fun ⟨hheld, _⟩ => ?_
        cases hheld
        omega

end Tiles

end Runs

end Optical
