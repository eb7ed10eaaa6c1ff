import Optical.Source.Memory

/-!
# Media that give their bytes in small portions

A call to a medium may be interrupted, may give fewer bytes than it was asked for, or may fail.
A read repeats the call until it has all bytes, the medium gives none, or a call fails; an
interrupted call is made again.

The turns say what happens to the next calls, one turn for each; after the last turn every call
gives all that it is asked for.
-/

namespace Optical

/-- What happens to one call. -/
inductive Turn where
  /-- The call is interrupted before it gives a byte. -/
  | interrupted
  /-- The call gives at most so many bytes, and at least one if there is one. -/
  | gives (most : Nat)
  /-- The call fails. -/
  | fails (fault : MediumFault)

/-- The bytes given so far in front of those of a later call. -/
def Turn.prepend (got : Bytes) : Except Error Bytes × List Turn → Except Error Bytes × List Turn
  | (.ok more, turns) => (.ok (got ++ more), turns)
  | (.error error, turns) => (.error error, turns)

namespace WornImage

/-- The bytes at an offset, taken call by call, and the turns that are left. -/
def fill (worn : WornImage) : List Turn → (offset count : Nat) → Except Error Bytes × List Turn
  | [], offset, count => (worn.source.read offset count, [])
  | turn :: turns, offset, count =>
      if count = 0 then (.ok [], turn :: turns)
      else
        match turn with
        | .interrupted => worn.fill turns offset count
        | .fails fault => (.error (.medium fault), turns)
        | .gives most =>
            match (worn.source.read offset (min (max 1 most) count) : Except Error Bytes) with
            | .error error => (.error error, turns)
            | .ok [] => (.ok [], turns)
            | .ok got =>
                Turn.prepend got (worn.fill turns (offset + got.length) (count - got.length))

/-- A worn image whose calls take their turns from the state. -/
def pacedSource (worn : WornImage) : Source (StateM (List Turn)) where
  size := pure (.ok worn.bytes.size)
  read offset count := fun turns => worn.fill turns offset count

end WornImage
end Optical
