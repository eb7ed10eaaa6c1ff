import Optical.Source.Query

/-!
# Media held in memory

An image is an array of bytes; on an image every program has one outcome, and the outcome of a
program is put together from those of its parts. A worn image has, besides, a range of bytes that
cannot be read: a read that needs an existing byte of the range fails, every other read is as
before.
-/

namespace Optical

/-- The bytes of a medium. -/
abbrev Image := Array UInt8

namespace Image

/-- The bytes of an image inside a range of offsets. -/
def part (image : Image) (offset count : Nat) : Bytes :=
  (image.extract offset (offset + count)).toList

@[simp] theorem part_length (image : Image) (offset count : Nat) :
    (image.part offset count).length = min count (image.size - offset) := by
  simp [part]

/-- An image answers every question without fail. -/
def source (image : Image) : Source Id where
  size := .ok image.size
  read offset count := .ok (image.part offset count)

section

variable {α β : Type}

/-- The result of a program on an image. -/
def ask (image : Image) (program : Query α) : α :=
  (program.run image.source).run

theorem ask_bind (image : Image) (program : Query α) (f : α → Query β) :
    image.ask (program >>= f) = image.ask (f (image.ask program)) := by
  simp [ask]

/-- The outcome on an image of a program that may fail. -/
def eval (image : Image) (program : ReadM α) : Except Error α :=
  image.ask program.run

@[simp] theorem eval_pure (image : Image) (value : α) :
    image.eval (pure value) = .ok value := rfl

@[simp] theorem eval_throw (image : Image) (error : Error) :
    image.eval (throw error : ReadM α) = .error error := rfl

@[simp] theorem eval_size (image : Image) : image.eval ReadM.size = .ok image.size := rfl

@[simp] theorem eval_readAt (image : Image) (offset count : Nat) :
    image.eval (ReadM.readAt offset count) = .ok (image.part offset count) := rfl

@[simp] theorem eval_ofExcept (image : Image) (outcome : Except Error α) :
    image.eval (ReadM.ofExcept outcome) = outcome := rfl

@[simp] theorem eval_bind (image : Image) (program : ReadM α) (f : α → ReadM β) :
    image.eval (program >>= f) = image.eval program >>= fun value => image.eval (f value) := by
  simp only [eval, ExceptT.run_bind, ask_bind]
  cases image.ask program.run <;> rfl

@[simp] theorem eval_map (image : Image) (f : α → β) (program : ReadM α) :
    image.eval (f <$> program) = f <$> image.eval program := by
  rw [← bind_pure_comp, eval_bind]
  cases image.eval program <;> rfl

@[simp] theorem eval_attempt (image : Image) (program : ReadM α) :
    image.eval (ReadM.attempt program) = .ok (image.eval program) :=
  ask_bind image program.run _

theorem eval_readExact (image : Image) (offset count : Nat) :
    image.eval (ReadM.readExact offset count) =
      if (image.part offset count).length < count then
        .error (.medium (.shortRead offset count (image.part offset count).length))
      else .ok (image.part offset count) := by
  simp only [ReadM.readExact, eval_bind, eval_readAt]
  show image.eval (if _ then _ else _) = _
  split <;> rfl

theorem eval_mapM (image : Image) (f : α → ReadM β) (elements : List α) :
    image.eval (elements.mapM f) = elements.mapM fun x => image.eval (f x) := by
  induction elements with
  | nil => rfl
  | cons x elements ih => simp [List.mapM_cons, ih]

end

end Image

/-- An image with a range of bytes that cannot be read. -/
structure WornImage where
  bytes : Image
  /-- The first offset of the bad range, and the first one after it. -/
  bad : Option (Nat × Nat)

namespace WornImage

/-- The fault that a bad range causes. -/
def fault : MediumFault :=
  .refused .permissionDenied "bad sector"

/-- A read of a count of bytes needs an existing byte of the bad range. -/
def touchesBad (worn : WornImage) (offset count : Nat) : Bool :=
  match worn.bad with
  | none => false
  | some (first, last) =>
      max offset first < min (min (offset + count) worn.bytes.size) last

/-- A worn image answers as its bytes do, the bad range apart. -/
def source (worn : WornImage) : Source Id where
  size := .ok worn.bytes.size
  read offset count :=
    if worn.touchesBad offset count then .error (.medium fault)
    else .ok (worn.bytes.part offset count)

end WornImage
end Optical
