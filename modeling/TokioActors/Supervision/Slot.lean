/-
# Slots

A slot belongs to one incarnation. Its command half is written by the
supervisor (the one stop order, the one more ask, the cancel of an attempt that
has spawned nothing); its cell half is written by the executor that owns the
incarnation (the fate, the verdict, the published lane and status plane). Both
halves are shared, so the slots of all incarnations form one memory, keyed by
the incarnation's token.
-/

import TokioActors.StopLane
import TokioActors.Supervision.ManualRules

namespace TokioActors

/-- A supervisor's stop order. -/
structure StopOrder where
  policy : Shutdown
  issuedAt : Nat
  initialRaised : Bool
  deriving DecidableEq, Repr

/-- One incarnation's slot, with the planes it publishes. -/
structure Slot where
  /-- The child the incarnation belongs to. -/
  owner : ActorId := 0
  stop : Option StopOrder := none
  reasked : Bool := false
  cancel : Bool := false
  fate : Option StopReason := none
  unresponsive : Bool := false
  cancelled : Bool := false
  /-- The incarnation was spawned and its lane, status plane and subtree are
  published in the cell. -/
  published : Bool := false
  lane : LaneState := {}
  /-- The status plane reads something other than `Initializing`. -/
  pastInit : Bool := false
  /-- The reason the status plane carries. -/
  planeReason : Option StopReason := none
  /-- The status plane is terminal: `Stopped`, or closed. -/
  ended : Bool := false
  /-- The executor's half of the cell is gone. -/
  closed : Bool := false
  /-- The verdict flag shared with every watcher of the incarnation. -/
  lost : Bool := false
  /-- The incarnation and every actor below it have ended. -/
  gone : Bool := false
  deriving DecidableEq, Repr

namespace Slot

variable (slot : Slot)

/-- The first signal of a shutdown policy. -/
def initialSignal : Shutdown → StopReason
  | .kill => .kill
  | .timeout _ => .parentRequest
  | .infinity => .parentRequest

def vetoable : StopReason → Bool
  | .graceful => true
  | .parentRequest => true
  | _ => false

def hasOrder : Bool := slot.stop.isSome

def isUnresponsive : Bool := slot.unresponsive || slot.lost

def laneVetoable : Bool :=
  slot.published && (slot.lane.reason.map vetoable).getD false

/-- The reason a reader takes from the terminal status plane. -/
def reasonOrKill : StopReason := slot.planeReason.getD .kill

def statusEnded : Bool := if slot.published then slot.ended else slot.closed

def taskState : TaskState :=
  if slot.fate.isSome then .ended
  else if !slot.closed then .live
  else if slot.published then (if slot.ended then .ended else .runnerLost)
  else .ended

def endReason : StopReason :=
  slot.fate.getD (if slot.published then slot.reasonOrKill else .kill)

/-- Raises the policy's first signal on the published lane; the answer is
whether there was one. -/
def raiseFirst (policy : Shutdown) : Slot × Bool :=
  if slot.published then
    ({ slot with lane := slot.lane.raise (initialSignal policy) slot.ended }, true)
  else (slot, false)

/-- Writes the stop order; the first one written stays. -/
def writeOrder (policy : Shutdown) (initialRaised : Bool) (now : Nat) : Slot :=
  if slot.stop.isNone then { slot with stop := some ⟨policy, now, initialRaised⟩ } else slot

def orderStop (policy : Shutdown) (raise : Bool) (now : Nat) : Slot :=
  if slot.hasOrder then slot
  else if raise then
    let raised := slot.raiseFirst policy
    raised.1.writeOrder policy raised.2 now
  else slot.writeOrder policy false now

def cancelUnspawned : Slot := { slot with cancel := true }

def askAgain : Slot :=
  if slot.published then { slot with lane := slot.lane.raise .parentRequest slot.ended }
  else slot

def markReasked : Slot := { slot with reasked := true }

end Slot

/-- How a wait on a slot's cell settles. -/
inductive CellOutcome
  | fate (reason : StopReason)
  | unresponsive
  | cancelled
  | noIncarnation
  deriving DecidableEq, Repr

/-- What a wait on the cell reads, once it can settle: `await_cell`, and
`closed_cell` when the executor is gone. A closed cell whose plane is not
terminal settles when the verdict flag is set, which the wait's own bound does. -/
def awaitCell (slot : Slot) : Option CellOutcome :=
  match slot.fate with
  | some reason => some (.fate reason)
  | none =>
    if slot.unresponsive then some .unresponsive
    else if slot.cancelled then some .cancelled
    else if !slot.closed then none
    else if !slot.published then some .noIncarnation
    else if slot.ended then some (.fate slot.reasonOrKill)
    else if slot.lost then some .unresponsive
    else none

end TokioActors
