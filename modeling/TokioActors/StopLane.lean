/-
# The stop lane

One cell per incarnation carries the stop and kill requests raised on it. A
request is recorded, superseded by a stronger one already stored, or refused
once the lane is closed to it. `Kill` is the strongest request and is never
replaced by another one.
-/

import TokioActors.Types

namespace TokioActors

/-- How strongly a stop request binds: asked, forced, killed. -/
inductive StopSeverity
  | requested
  | forced
  | kill
  deriving DecidableEq, Repr

namespace StopSeverity

def ofReason : StopReason → StopSeverity
  | .graceful => .requested
  | .parentRequest => .requested
  | .failure _ => .forced
  | .parentKilled => .forced
  | .cancelled => .forced
  | .kill => .kill

/-- The position of a severity in the order of the source's derived `Ord`. -/
def level : StopSeverity → Nat
  | requested => 0
  | forced => 1
  | kill => 2

/-- The rank among requests of one severity. -/
def rank : StopReason → Nat
  | .graceful => 0
  | .cancelled => 0
  | .kill => 0
  | .parentRequest => 1
  | .parentKilled => 1
  | .failure _ => 2

end StopSeverity

/-- The state of a stop lane. -/
structure LaneState where
  reason : Option StopReason := none
  generation : Nat := 0
  killOnly : Bool := false
  sealed : Bool := false
  deriving DecidableEq, Repr

/-- What a raiser is told. -/
inductive RaiseResult
  | recorded
  | superseded
  | refused
  deriving DecidableEq, Repr

/-- What the lane does with a request: the answer, whether it replaces the
stored reason, and whether the generation moves. -/
def laneAccept (state : LaneState) (new : StopReason) (receiverGone : Bool) :
    RaiseResult × Bool × Bool :=
  let killOnlyRefuses := state.killOnly && new != .kill
  if receiverGone || state.sealed || killOnlyRefuses then (.refused, false, false)
  else
    match state.reason with
    | none => (.recorded, true, true)
    | some stored =>
      let newLevel := (StopSeverity.ofReason new).level
      let storedLevel := (StopSeverity.ofReason stored).level
      if newLevel < storedLevel then (.superseded, false, false)
      else
        (.recorded,
          decide (newLevel > storedLevel) ||
            decide (StopSeverity.rank new ≥ StopSeverity.rank stored),
          true)

namespace LaneState

/-- Raises a request on the lane. -/
def raise (state : LaneState) (new : StopReason) (receiverGone : Bool) : LaneState :=
  let decision := laneAccept state new receiverGone
  if decision.2.2 then
    { state with
      generation := state.generation + 1
      reason := if decision.2.1 then some new else state.reason }
  else state

/-- The answer the raiser of a request reads. -/
def raiseResult (state : LaneState) (new : StopReason) (receiverGone : Bool) : RaiseResult :=
  (laneAccept state new receiverGone).1

/-- From here on the lane takes nothing but `Kill`. -/
def closeToNonKill (state : LaneState) : LaneState := { state with killOnly := true }

/-- From here on the lane takes nothing. -/
def sealLane (state : LaneState) : LaneState := { state with sealed := true }

theorem reason_raise_of_kill {state : LaneState} (new : StopReason) (receiverGone : Bool)
    (hheld : state.reason = some .kill) : (state.raise new receiverGone).reason = some .kill := by
  unfold raise laneAccept
  cases new <;> cases receiverGone <;> cases state.sealed <;> cases state.killOnly <;>
    simp [hheld, StopSeverity.ofReason, StopSeverity.level, StopSeverity.rank]

theorem reason_raise_kill {state : LaneState} {receiverGone : Bool}
    (haccepted : state.raiseResult .kill receiverGone ≠ .refused) :
    (state.raise .kill receiverGone).reason = some .kill := by
  unfold raiseResult laneAccept at haccepted
  unfold raise laneAccept
  simp only [bne_self_eq_false, Bool.and_false, Bool.or_false] at haccepted ⊢
  split at haccepted
  · exact absurd rfl haccepted
  · rename_i hopen
    cases hreason : state.reason with
    | none => simp [hopen]
    | some stored =>
      simp only [hopen]
      cases stored <;> simp [StopSeverity.ofReason, StopSeverity.level, StopSeverity.rank]

end LaneState

end TokioActors
