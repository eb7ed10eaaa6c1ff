import Optical.Error
import Optical.Extent

/-!
# Windows

A window is a run of bytes of a medium with a position inside it. Reads move the position, never
past the end of the window, and a read that fails leaves it where the last byte was taken.

This module has the operations that only move the position: seek, seekFrom, skip and reset. Every
operation that may fail gives its answer together with the window that it leaves.
-/

namespace Optical

/-- A run of bytes of a medium and a position in it. -/
structure Window where
  /-- The offset of the first byte. -/
  start : Nat
  /-- The number of bytes. -/
  length : Nat
  /-- The number of bytes before the next read. -/
  position : Nat
deriving DecidableEq, Repr

/-- Where a seek counts from. -/
inductive Origin where
  | start
  | current
  | finish
deriving DecidableEq, Repr

namespace Window

/-- The answer of an operation and the window that it leaves. -/
abbrev Answer (α : Type) := Except Error α × Window

/-- The window over a run of bytes, at its first byte. -/
def ofRange (start length : Nat) : Window := ⟨start, length, 0⟩

/-- The window over an extent. -/
def ofExtent (extent : Extent) : Window := ofRange extent.byteOffset extent.length

/-- The number of bytes from the position to the end. -/
def available (w : Window) : Nat := w.length - w.position

/-- The window has no bytes. -/
def isEmpty (w : Window) : Bool := w.length == 0

/-- The position is at the end. -/
def atEnd (w : Window) : Bool := w.length ≤ w.position

/-- The position after a count of bytes. -/
def advance (w : Window) (count : Nat) : Window := { w with position := w.position + count }

/-- Moves to the first byte. -/
def reset (w : Window) : Window := { w with position := 0 }

/-- Moves over a count of bytes, or to the end, and tells how many they were. -/
def skip (w : Window) (count : Nat) : Nat × Window :=
  let skipped := min count w.available
  (skipped, w.advance skipped)

/-- Moves to a position, which may be the end but not lie after it. -/
def seek (w : Window) (position : Nat) : Answer Unit :=
  if w.length < position then (.error (.seekOutOfRange position w.length), w)
  else (.ok (), { w with position })

/-- The position that an origin stands for. -/
def originOf (w : Window) : Origin → Nat
  | .start => 0
  | .current => w.position
  | .finish => w.length

/--
Moves by a signed distance from an origin and tells the new position.
A position must be a 64-bit number before it is compared with the window.
-/
def seekFrom (w : Window) (origin : Origin) (distance : Int) : Except MediumFault Nat × Window :=
  let target := (w.originOf origin : Int) + distance
  if target < 0 ∨ (offsetBound : Int) ≤ target then (.error .unreachablePosition, w)
  else
    match w.seek target.toNat with
    | (.ok (), moved) => (.ok target.toNat, moved)
    | (.error error, same) => (.error error.toFault, same)

end Window
end Optical
