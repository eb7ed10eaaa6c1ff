import Optical.Source.Query

/-!
# Visits of directories

A walk through the directories of a volume keeps the set of those that it is in, told by the sectors
at which they begin. A directory joins the set before it is read, and it leaves the set when all that
lies in it has been read. A directory that is in the set already lies in itself: this is a cycle.

A walk that fails is over, and its set is given up.
-/

namespace Optical

/-- A walk through directories, with the sectors of those that it is in. -/
abbrev VisitM := StateT (List Nat) ReadM

namespace VisitM

variable {α : Type}

/-- Visits the directory at a sector: what is done inside is done while it is in the set. -/
def visit (sector : Nat) (inside : VisitM α) : VisitM α := do
  if sector ∈ (← get) then throw (.directoryCycle sector)
  else
    modify (sector :: ·)
    let value ← inside
    modify (·.erase sector)
    return value

/-- What a walk gives that begins outside all directories. -/
def start (walk : VisitM α) : ReadM α :=
  walk.run' []

end VisitM
end Optical
