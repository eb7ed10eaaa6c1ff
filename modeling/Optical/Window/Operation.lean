import Optical.Window.Transfer

/-!
# Operations of windows

Everything that a holder of a window can do with it, as data: an operation, what it tells, and the
window that it leaves. A run of operations goes on from window to window. Memory has no bound here:
readRemaining sets aside room for all that is left, however much that is.
-/

namespace Optical
namespace Window

/-- One use of a window. -/
inductive Operation where
  | read (count : Nat)
  | readByte
  | skip (count : Nat)
  | seek (position : Nat)
  | seekFrom (origin : Origin) (distance : Int)
  | reset
  /-- Hands all bytes from the position on to a sink that takes every one of them. -/
  | transfer
  | readRemaining
deriving DecidableEq, Repr

/-- What an operation tells. -/
inductive Outcome where
  | bytes (answer : Except Error Bytes)
  | byte (answer : Except Error (Option UInt8))
  | skipped (count : Nat)
  | sought (answer : Except Error Unit)
  | moved (answer : Except MediumFault Nat)
  | reset
  /-- How many bytes were transferred, or why not all of them, and what the sink has got. -/
  | transferred (answer : Except Error Nat) (received : Bytes)

namespace Outcome

/-- The bytes that an operation hands over. -/
def delivered : Outcome → Bytes
  | bytes (.ok taken) => taken
  | byte (.ok taken) => taken.toList
  | transferred _ received => received
  | _ => []

/-- Why an operation that reads has failed. -/
def readError? : Outcome → Option Error
  | bytes (.error error) => some error
  | byte (.error error) => some error
  | transferred (.error error) _ => some error
  | _ => none

end Outcome

/-- Performs an operation. -/
def perform (w : Window) : Operation → Query (Outcome × Window)
  | .read count => do
      let (answer, moved) ← w.read count
      return (.bytes answer, moved)
  | .readByte => do
      let (answer, moved) ← w.readByte
      return (.byte answer, moved)
  | .skip count =>
      let (skipped, moved) := w.skip count
      return (.skipped skipped, moved)
  | .seek position =>
      let (answer, moved) := w.seek position
      return (.sought answer, moved)
  | .seekFrom origin distance =>
      let (answer, moved) := w.seekFrom origin distance
      return (.moved answer, moved)
  | .reset => return (.reset, w.reset)
  | .transfer => do
      let ended ← w.transfer (.empty none)
      let answer := ended.outcome.map fun () => ended.sink.held.length
      return (.transferred answer ended.sink.held, ended.window)
  | .readRemaining => do
      let (answer, moved) ← w.readRemaining
      return (.bytes answer, moved)

/-- Performs operations one after another and tells the position after each. -/
def performAll (w : Window) : List Operation → Query (List (Outcome × Nat) × Window)
  | [] => return ([], w)
  | operation :: operations => do
      let (outcome, moved) ← w.perform operation
      let (later, last) ← moved.performAll operations
      return ((outcome, moved.position) :: later, last)

end Window
end Optical
