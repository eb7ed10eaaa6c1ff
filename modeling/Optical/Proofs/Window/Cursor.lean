import Optical.Proofs.Window.OnImage
import Optical.Window.Operation

/-!
# A window is a cursor over its bytes

A cursor over a run of bytes is a position that is not behind its end; it knows neither chunks nor
reads that are repeated. On an image every operation of a window does what the operation of a cursor
does: it hands over the bytes from the position on, as many as are asked for, as the window has left
and as the image holds, and moves over them.

* Cursor.step says what each operation does to a cursor and what it tells;
* ask_perform says that a window does the same in one operation;
* performAll_eq_run says so of any run of operations, and that no byte from outside the window is
  handed over on the way.
-/

namespace Optical
namespace Window

/-- A position in a run of bytes; it may be the end. -/
structure Cursor (length : Nat) where
  position : Nat
  position_le : position ≤ length

namespace Cursor

variable {length : Nat}

def first (length : Nat) : Cursor length := ⟨0, Nat.zero_le length⟩

/-- The number of bytes before the end of the run. -/
def left (c : Cursor length) : Nat := length - c.position

/-- The number of those that an image holds, given the offset of the run. -/
def held (c : Cursor length) (image : Image) (start : Nat) : Nat :=
  min c.left (image.size - (start + c.position))

theorem held_le_left
    (c : Cursor length)
    (image : Image)
    (start : Nat) :
    c.held image start ≤ c.left :=
  Nat.min_le_left _ _

theorem min_held_le_left
    (c : Cursor length)
    (image : Image)
    (start count : Nat) :
    min count (c.held image start) ≤ c.left :=
  Nat.le_trans (Nat.min_le_right _ _) (c.held_le_left image start)

theorem min_left_le_left
    (c : Cursor length)
    (count : Nat) :
    min count c.left ≤ c.left :=
  Nat.min_le_right _ _

theorem one_le_left
    (c : Cursor length)
    (image : Image)
    (start : Nat)
    (h : 0 < c.held image start) :
    1 ≤ c.left :=
  Nat.le_trans h (c.held_le_left image start)

theorem toNat_le
    {target : Int}
    (h : 0 ≤ target ∧ target ≤ length) :
    target.toNat ≤ length := by
  omega

/-- The cursor behind a count of bytes that are left. -/
def moveOver (c : Cursor length) (count : Nat) (h : count ≤ c.left) : Cursor length :=
  ⟨c.position + count, by
    have := c.position_le
    simp only [left] at h
    omega⟩

def originOf (c : Cursor length) : Origin → Nat
  | .start => 0
  | .current => c.position
  | .finish => length

/-- A value that needs all bytes up to the end; an error tells how many are missing. -/
def atEndOr {α : Type} (c : Cursor length) (value : α) : Except Error α :=
  if c.position < length then .error (.medium (.shortWindow c.left)) else .ok value

theorem map_atEndOr
    {α β : Type}
    (c : Cursor length)
    (f : α → β)
    (value : α) :
    (c.atEndOr value).map f = c.atEndOr (f value) := by
  rw [atEndOr, atEndOr]
  split <;> rfl

/-- The fault of a seek to a place outside the run. -/
def seekFault (length : Nat) (target : Int) : MediumFault :=
  if target < 0 ∨ (offsetBound : Int) ≤ target then .unreachablePosition
  else .seekOutOfRange target.toNat length

/-- What an operation tells, and the cursor that it leaves, given the offset of the run. -/
def step (image : Image) (start : Nat) (c : Cursor length) : Operation → Outcome × Cursor length
  | .read count =>
      let taken := min count (c.held image start)
      (.bytes (.ok (image.part (start + c.position) taken)),
        c.moveOver taken (c.min_held_le_left image start count))
  | .readByte =>
      if h : 0 < c.held image start then
        (.byte (.ok image[start + c.position]?),
          c.moveOver 1 (c.one_le_left image start h))
      else (.byte (.ok none), c)
  | .skip count =>
      let skipped := min count c.left
      (.skipped skipped, c.moveOver skipped (c.min_left_le_left count))
  | .seek target =>
      if h : target ≤ length then (.sought (.ok ()), ⟨target, h⟩)
      else (.sought (.error (.seekOutOfRange target length)), c)
  | .seekFrom origin distance =>
      let target : Int := c.originOf origin + distance
      if h : 0 ≤ target ∧ target ≤ length then
        (.moved (.ok target.toNat), ⟨target.toNat, toNat_le h⟩)
      else (.moved (.error (seekFault length target)), c)
  | .reset => (.reset, first length)
  | .transfer =>
      let taken := c.held image start
      let after := c.moveOver taken (c.held_le_left image start)
      (.transferred (after.atEndOr taken) (image.part (start + c.position) taken), after)
  | .readRemaining =>
      let taken := c.held image start
      let after := c.moveOver taken (c.held_le_left image start)
      (.bytes (after.atEndOr (image.part (start + c.position) taken)), after)

/-- What a run of operations tells, with the position after each, and the cursor that it leaves. -/
def run (image : Image) (start : Nat) (c : Cursor length) :
    List Operation → List (Outcome × Nat) × Cursor length
  | [] => ([], c)
  | operation :: operations =>
      let (outcome, moved) := c.step image start operation
      let (later, last) := moved.run image start operations
      ((outcome, moved.position) :: later, last)

/-- The window at the position of a cursor. -/
def window (c : Cursor length) (start : Nat) : Window := ⟨start, length, c.position⟩

end Cursor

section Steps

variable (image : Image)
variable (start : Nat)
variable {length : Nat}
variable (c : Cursor length)

theorem rest_window :
    rest image (c.window start) = image.part (start + c.position) (c.held image start) :=
  (image.part_min (start + c.position) c.left).symm

theorem length_rest_window :
    (rest image (c.window start)).length = c.held image start :=
  image.part_length (start + c.position) c.left

/-- A read takes the bytes that the window has left and the image holds. -/
theorem ask_read_window
    (count : Nat) :
    image.ask ((c.window start).read count) =
      (.ok (image.part (start + c.position) (min count (c.held image start))),
        (c.window start).advance (min count (c.held image start))) := by
  have hcut : min (min count c.left) (image.size - (start + c.position)) =
      min count (c.held image start) := Nat.min_assoc _ _ _
  have hpart := image.part_min (start + c.position) (min count c.left)
  have hlength := image.part_length (start + c.position) (min count c.left)
  rw [hcut] at hpart hlength
  rw [← hpart] at hlength
  rw [ask_read]
  show (Except.ok (image.part (start + c.position) (min count c.left)),
    (c.window start).advance (image.part (start + c.position) (min count c.left)).length) = _
  rw [← hpart, hlength]

/-- A transfer is complete if it leaves the cursor at the end. -/
theorem endTransfer_window
    (sink : Sink) :
    (c.window start).endTransfer sink = ⟨c.atEndOr (), c.window start, sink⟩ := by
  have hend : (c.window start).atEnd = true ↔ length ≤ c.position := decide_eq_true_iff
  rw [endTransfer, Cursor.atEndOr]
  by_cases h : c.position < length
  · rw [if_neg (fun hended => absurd (hend.mp hended) (Nat.not_le.mpr h)), if_pos h]
    rfl
  · rw [if_pos (hend.mpr (Nat.not_lt.mp h)), if_neg h]

theorem ask_transfer_window :
    image.ask ((c.window start).transfer (.empty none)) =
      ⟨(c.moveOver _ (c.held_le_left image start)).atEndOr (),
        (c.moveOver _ (c.held_le_left image start)).window start,
        ⟨none, image.part (start + c.position) (c.held image start)⟩⟩ := by
  rw [ask_transfer, length_rest_window, rest_window]
  exact endTransfer_window start (c.moveOver _ (c.held_le_left image start)) _

/-- The next byte is the byte at the cursor, if the window and the image have one. -/
theorem ask_readByte_window :
    image.ask ((c.window start).readByte) =
      if 0 < c.held image start then
        (.ok image[start + c.position]?, (c.window start).advance 1)
      else (.ok none, c.window start) := by
  rw [readByte, Image.ask_bind, ask_read_window]
  show (Except.ok (image.part _ _).head?, _) = _
  split
  · next hbyte =>
      have hone : min 1 (c.held image start) = 1 := Nat.min_eq_left hbyte
      rw [hone, List.head?_eq_getElem?, Image.part_getElem?, if_pos Nat.zero_lt_one, Nat.add_zero]
  · next hnone =>
      -- Nothing is left, or the image ends here: the byte is missing, and that is no error.
      have hzero : min 1 (c.held image start) = 0 := by omega
      rw [hzero, Image.part_zero]
      rfl

theorem seek_window
    (target : Nat) :
    (c.window start).seek target =
      if target ≤ length then (.ok (), ⟨start, length, target⟩)
      else (.error (.seekOutOfRange target length), c.window start) := by
  have hlength : (c.window start).length = length := rfl
  rw [seek, hlength]
  by_cases h : target ≤ length
  · rw [if_neg (Nat.not_lt.mpr h), if_pos h]
    rfl
  · rw [if_pos (Nat.not_le.mp h), if_neg h]

/-- A seek by a distance succeeds if its exact target is in the window or at its end. -/
theorem seekFrom_window
    (hlength : length < offsetBound)
    (origin : Origin)
    (distance : Int) :
    (c.window start).seekFrom origin distance =
      if 0 ≤ (c.originOf origin : Int) + distance ∧ (c.originOf origin : Int) + distance ≤ length then
        (.ok ((c.originOf origin : Int) + distance).toNat,
          ⟨start, length, ((c.originOf origin : Int) + distance).toNat⟩)
      else
        (.error (Cursor.seekFault length ((c.originOf origin : Int) + distance)),
          c.window start) := by
  have horigin : (c.window start).originOf origin = c.originOf origin := by
    cases origin <;> rfl
  rw [seekFrom, horigin]
  generalize (c.originOf origin : Int) + distance = target
  -- A target that is no position at all is refused before it is compared with the length.
  by_cases hreach : target < 0 ∨ (offsetBound : Int) ≤ target
  · rw [if_pos hreach, if_neg (by omega), Cursor.seekFault, if_pos hreach]
  · rw [if_neg hreach]
    rw [seek_window]
    by_cases hinside : 0 ≤ target ∧ target ≤ length
    · rw [if_pos hinside, if_pos (by omega)]
    · rw [if_neg hinside, if_neg (by omega), Cursor.seekFault, if_neg hreach]
      rfl

/-- One operation of a window does to it what the operation of a cursor does. -/
theorem ask_perform
    (hlength : length < offsetBound)
    (operation : Operation) :
    image.ask ((c.window start).perform operation) =
      ((c.step image start operation).1, (c.step image start operation).2.window start) := by
  cases operation with
  | read count =>
      rw [perform, Image.ask_bind, ask_read_window]
      rfl
  | readByte =>
      rw [perform, Image.ask_bind, ask_readByte_window, Cursor.step]
      by_cases h : 0 < c.held image start
      · rw [if_pos h, dif_pos h]
        rfl
      · rw [if_neg h, dif_neg h]
        rfl
  | skip count => rfl
  | seek target =>
      rw [perform, seek_window, Cursor.step]
      by_cases h : target ≤ length
      · rw [if_pos h, dif_pos h]
        rfl
      · rw [if_neg h, dif_neg h]
        rfl
  | seekFrom origin distance =>
      rw [perform, seekFrom_window start c hlength, Cursor.step]
      by_cases h : 0 ≤ (c.originOf origin : Int) + distance ∧
          (c.originOf origin : Int) + distance ≤ length
      · rw [if_pos h, dif_pos h]
        rfl
      · rw [if_neg h, dif_neg h]
        rfl
  | reset => rfl
  | transfer =>
      have hcount : (image.part (start + c.position) (c.held image start)).length =
          c.held image start := by
        rw [← rest_window, length_rest_window]
      rw [perform, Image.ask_bind, ask_transfer_window]
      simp only [hcount, Cursor.map_atEndOr]
      rfl
  | readRemaining =>
      rw [perform, readRemaining, Image.ask_bind, Image.ask_bind, ask_transfer_window]
      simp only [Cursor.map_atEndOr]
      rfl

/-- A run of operations of a window goes as the run of a cursor. -/
theorem ask_performAll
    (hlength : length < offsetBound)
    (operations : List Operation) :
    image.ask ((c.window start).performAll operations) =
      ((c.run image start operations).1, (c.run image start operations).2.window start) := by
  induction operations generalizing c with
  | nil => rfl
  | cons operation operations ih =>
      rw [performAll, Image.ask_bind, ask_perform image start c hlength]
      simp only
      rw [Image.ask_bind, ih]
      rfl

end Steps

/-- What holds of each reply of a window over a run of bytes. -/
structure Confined (image : Image) (start length : Nat) (reply : Outcome × Nat) : Prop where
  position_le : reply.2 ≤ length
  /-- The bytes that are handed over stand next to each other inside the window. -/
  delivered : ∃ place,
    place + reply.1.delivered.length ≤ length ∧
    reply.1.delivered = image.part (start + place) reply.1.delivered.length
  /-- A reading operation fails only at the end of the image, before the end of the window. -/
  readError : ∀ error, reply.1.readError? = some error →
    error.isUnexpectedEnd = true ∧ reply.2 < length

section Confinement

variable (image : Image)
variable (start : Nat)
variable {length : Nat}
variable (c : Cursor length)

theorem confined_of_silent
    {outcome : Outcome}
    (hdelivered : outcome.delivered = [])
    (herror : outcome.readError? = none) :
    Confined image start length (outcome, c.position) where
  position_le := c.position_le
  delivered := ⟨0, by simp [hdelivered], by simp [hdelivered, Image.part_zero]⟩
  readError := by
    intro error h
    rw [herror] at h
    cases h

/-- The bytes at a cursor that the window has left and the image holds are inside the window. -/
theorem exists_place
    {count : Nat}
    (h : count ≤ c.held image start)
    {bytes : Bytes}
    (hbytes : bytes = image.part (start + c.position) count) :
    ∃ place, place + bytes.length ≤ length ∧ bytes = image.part (start + place) bytes.length := by
  have hlength : bytes.length = count := by
    rw [hbytes, Image.part_length]
    exact Nat.min_eq_left (Nat.le_trans h (Nat.min_le_right _ _))
  have hleft := Nat.le_trans h (c.held_le_left image start)
  have hposition := c.position_le
  refine ⟨c.position, ?_, ?_⟩
  · simp only [Cursor.left] at hleft
    omega
  · rw [hlength, hbytes]

/-- One operation delivers only bytes of the window and fails only at the end of the image. -/
theorem confined_step
    (operation : Operation) :
    Confined image start length
      ((c.step image start operation).1, (c.step image start operation).2.position) := by
  cases operation with
  | read count =>
      exact ⟨(c.step image start (.read count)).2.position_le,
        exists_place image start c (Nat.min_le_right _ _) rfl, by intro _ h; cases h⟩
  | readByte =>
      rw [Cursor.step]
      split
      · next h =>
          exact ⟨Cursor.position_le _,
            exists_place image start c h (image.part_one _).symm, by intro _ h; cases h⟩
      · exact confined_of_silent image start c rfl rfl
  | skip count => exact confined_of_silent image start _ rfl rfl
  | seek target =>
      rw [Cursor.step]
      split
      · exact confined_of_silent image start ⟨target, _⟩ rfl rfl
      · exact confined_of_silent image start c rfl rfl
  | seekFrom origin distance =>
      simp only [Cursor.step]
      split
      · exact confined_of_silent image start ⟨_, _⟩ rfl rfl
      · exact confined_of_silent image start c rfl rfl
  | reset => exact confined_of_silent image start (.first length) rfl rfl
  | transfer =>
      refine ⟨Cursor.position_le _, exists_place image start c (Nat.le_refl _) rfl, ?_⟩
      intro error h
      simp only [Cursor.step, Cursor.atEndOr] at h ⊢
      split at h
      · next hshort =>
          cases h
          exact ⟨rfl, hshort⟩
      · cases h
  | readRemaining =>
      simp only [Cursor.step, Cursor.atEndOr]
      split
      · next hshort =>
          refine ⟨Cursor.position_le _, ⟨0, Nat.zero_le _, (image.part_zero _).symm⟩, ?_⟩
          intro error h
          cases h
          exact ⟨rfl, hshort⟩
      · exact ⟨Cursor.position_le _, exists_place image start c (Nat.le_refl _) rfl,
          by intro _ h; cases h⟩

theorem confined_run
    (operations : List Operation) :
    ∀ reply ∈ (c.run image start operations).1, Confined image start length reply := by
  induction operations generalizing c with
  | nil =>
      intro reply hreply
      cases hreply
  | cons operation operations ih =>
      intro reply hreply
      rcases List.mem_cons.mp hreply with rfl | hlater
      · exact confined_step image start c operation
      · exact ih _ reply hlater

end Confinement

end Window
end Optical
