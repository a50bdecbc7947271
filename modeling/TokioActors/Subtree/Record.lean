/-
# The abort record of an incarnation

One record per incarnation holds the instant of the first abort issued against
its task and the mark that an abort is owed to it. The instant is written and the
mark taken in one critical section, and nothing is owed once the actor ended.
-/

import TokioActors.Subtree.Rules

namespace TokioActors.Subtree

/-- What the lock of an abort record guards. -/
structure Owed where
  /-- The instant of the first abort issued, written once. -/
  abortedAt : Option Nat := none
  mark : Bool := false
  /-- The actor ended: nothing is owed to it any more. -/
  ended : Bool := false
  deriving DecidableEq, Repr

namespace Owed

/-- An abort is owed from now on, unless one was issued or marked or the actor
ended. -/
def owe (owed : Owed) : Owed :=
  if owed.ended || owed.mark || owed.abortedAt.isSome then owed else { owed with mark := true }

/-- The first abort is recorded; a record already written stands. -/
def record (owed : Owed) (now : Nat) : Owed :=
  if owed.abortedAt.isSome then owed else { owed with abortedAt := some now, mark := false }

/-- The actor ended, and no mark is taken again. -/
def release (owed : Owed) : Owed := { owed with ended := true, mark := false }

/-- The first abort's instant, and whether one is owed. -/
def view (owed : Owed) : Option Nat × Bool := (owed.abortedAt, owed.mark)

end Owed

end TokioActors.Subtree
