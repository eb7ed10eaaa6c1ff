import Optical.Bytes
import Optical.Error
import Optical.Extent

/-!
# Reading programs

Everything the library learns about a medium it learns by two questions: how long the medium is,
and which bytes stand at an offset. A reading program is the tree of its questions, each with a
branch for every answer; it does not know what kind of medium answers.

A source answers the questions in some monad. Running a program asks its questions in order, so
two sources that give equal answers make every program give equal results.

* Query is the type of programs without errors of their own, Query.run asks a source;
* ReadM adds errors;
* readAt, readExact and readSector are the reads that the decoders use.
-/

namespace Optical

/-- What can answer the questions of a reading program. -/
structure Source (m : Type → Type) where
  /-- The length of the medium in bytes. -/
  size : m (Except Error Nat)
  /-- The bytes at an offset, at most as many as are asked for, fewer at the end of the medium. -/
  read : (offset count : Nat) → m (Except Error Bytes)

/-- A reading program: a result, or a question with the program that follows each answer. -/
inductive Query (α : Type) where
  | done (value : α)
  | size (next : Except Error Nat → Query α)
  | read (offset count : Nat) (next : Except Error Bytes → Query α)

namespace Query

section

variable {α β : Type}

/-- The program that goes on with the result of another. -/
def bind : Query α → (α → Query β) → Query β
  | done value, f => f value
  | size next, f => size fun answer => (next answer).bind f
  | read offset count next, f => read offset count fun answer => (next answer).bind f

instance : Monad Query where
  pure := done
  bind := bind

@[simp] theorem pure_eq_done (value : α) : (pure value : Query α) = done value := rfl

@[simp] theorem done_bind (value : α) (f : α → Query β) : done value >>= f = f value := rfl

@[simp] theorem size_bind (next : Except Error Nat → Query α) (f : α → Query β) :
    size next >>= f = size fun answer => next answer >>= f := rfl

@[simp] theorem read_bind (offset count : Nat) (next : Except Error Bytes → Query α)
    (f : α → Query β) :
    read offset count next >>= f = read offset count fun answer => next answer >>= f := rfl

theorem bind_done (program : Query α) : program >>= done = program := by
  induction program with
  | done value => rfl
  | size next ih => exact congrArg size (funext ih)
  | read offset count next ih => exact congrArg (read offset count) (funext ih)

theorem bind_assoc {γ : Type} (program : Query α) (f : α → Query β) (g : β → Query γ) :
    program >>= f >>= g = program >>= fun value => f value >>= g := by
  induction program with
  | done value => rfl
  | size next ih => exact congrArg size (funext ih)
  | read offset count next ih => exact congrArg (read offset count) (funext ih)

instance : LawfulMonad Query :=
  LawfulMonad.mk' Query bind_done (fun _ _ => rfl) bind_assoc

/-- Asks a source the questions of a program in order. -/
@[specialize] def run {m : Type → Type} [Monad m] (source : Source m) : Query α → m α
  | done value => pure value
  | size next => source.size >>= fun answer => (next answer).run source
  | read offset count next =>
      source.read offset count >>= fun answer => (next answer).run source

@[simp] theorem run_done {m : Type → Type} [Monad m] (source : Source m) (value : α) :
    (done value).run source = pure value := rfl

/-- Running one program after another asks the questions of both. -/
@[simp] theorem run_bind {m : Type → Type} [Monad m] [LawfulMonad m] (source : Source m)
    (program : Query α) (f : α → Query β) :
    (program >>= f).run source = program.run source >>= fun value => (f value).run source := by
  induction program with
  | done value => simp
  | size next ih => simp [run, ih]
  | read offset count next ih => simp [run, ih]

end

end Query

/-- Reading programs that may fail. -/
abbrev ReadM := ExceptT Error Query

namespace ReadM

/-- The length of the medium. -/
def size : ReadM Nat :=
  ExceptT.mk (Query.size Query.done)

/-- The bytes at an offset, fewer than asked for at the end of the medium. -/
def readAt (offset count : Nat) : ReadM Bytes :=
  ExceptT.mk (Query.read offset count Query.done)

/-- Exactly a count of bytes at an offset; a medium that ends before them is an error. -/
def readExact (offset count : Nat) : ReadM Bytes := do
  let bytes ← readAt offset count
  if bytes.length < count then
    throw (.medium (.shortRead offset count bytes.length))
  else return bytes

/-- The bytes of a sector. -/
def readSector (sector : Nat) : ReadM Bytes :=
  readExact (sectorStart sector) sectorSize

/-- A result that needs no reading. -/
def ofExcept {α : Type} (outcome : Except Error α) : ReadM α :=
  ExceptT.mk (pure outcome)

/-- The result of a program as a value, so that its failure can be looked at. -/
def attempt {α : Type} (program : ReadM α) : ReadM (Except Error α) :=
  ExceptT.mk (program.run >>= fun outcome => pure (.ok outcome))

end ReadM
end Optical
