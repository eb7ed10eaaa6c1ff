import Optical.Source.Query
import Optical.Window.Basic

/-!
# Reading through a window

A read of a window asks the medium for the bytes at the position, cut to the window, and moves
behind those that it is given.

* read takes what one read gives, fill repeats it until a count is reached or nothing is left;
* readExactly fails if it cannot fill its count;
* asSource makes a window the medium of another program.
-/

namespace Optical
namespace Window

/-- The bytes that one read of at most a count gives; none at the end. -/
def read (w : Window) (count : Nat) : Query (Answer Bytes) :=
  let wanted := min count w.available
  if wanted = 0 then .done (.ok [], w)
  else
    .read (w.start + w.position) wanted fun
      | .ok bytes => .done (.ok bytes, w.advance bytes.length)
      | .error error => .done (.error error, w)

/-- The next byte, if there is one. -/
def readByte (w : Window) : Query (Answer (Option UInt8)) := do
  let (answer, moved) ← w.read 1
  return (answer.map List.head?, moved)

/-- The next count of bytes, read after read until one gives nothing. -/
def fill (w : Window) (count : Nat) : Query (Answer Bytes) :=
  if count = 0 then .done (.ok [], w)
  else do
    match ← w.read count with
    | (.error error, moved) => return (.error error, moved)
    | (.ok bytes, moved) =>
        if bytes.length = 0 then return (.ok [], moved)
        else
          let (answer, last) ← moved.fill (count - bytes.length)
          return (answer.map (bytes ++ ·), last)
termination_by count
decreasing_by omega

/-- Exactly the next count of bytes; at the end of the medium those before it are lost. -/
def readExactly (w : Window) (count : Nat) : Query (Except MediumFault Bytes × Window) := do
  match ← w.fill count with
  | (.error error, moved) => return (.error error.toFault, moved)
  | (.ok bytes, moved) =>
      if bytes.length < count then return (.error .unfilledBuffer, moved)
      else return (.ok bytes, moved)

/--
A window as a medium of its own. A read moves the window, and its errors are faults of the medium.
-/
def asSource : Source (StateT Window Query) where
  size := fun w => .done (.ok w.length, w)
  read offset count := fun w =>
    match w.seekFrom .start offset with
    | (.error fault, same) => .done (.error (.medium fault), same)
    | (.ok _, moved) => do
        let (answer, last) ← moved.fill count
        return (answer.mapError fun error => .medium error.toFault, last)

end Window
end Optical
