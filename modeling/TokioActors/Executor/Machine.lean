/-
# The executors of an incarnation

A restart attempt waits for its predecessor's subtree, checks its command cell,
calls the factory, and then waits for the init acknowledgment, honoring a stop
order at every moment. An acknowledged incarnation is handed over to a runner,
which runs the stop ladder until the task has ended. Both poll the branches of a
biased select in order; between two accesses to the command cell, the lane or the
task, any other party may act.

The other parties are the supervisor, which writes the command cell, the
predecessor's subtree, whoever raises a request on the lane, and the incarnation's
own task.
-/

import TokioActors.Executor.Ladder
import TokioActors.Lib.Reach
import TokioActors.Supervision.State

namespace TokioActors.Executor

/-! ## The decision procedure of an attempt -/

inductive AttemptStage
  | factory
  | init
  | inTransit
  deriving DecidableEq, Repr

/-- What an attempt's executor observed. -/
inductive AttemptEvent
  | begin (ordered : Bool)
  | order
  | ack (ordered ended : Bool)
  | initEnded
  | startTimeout
  | ladderSpent
  | ended (ordered timeoutRaised : Bool)
  deriving DecidableEq, Repr

/-- What an attempt's executor knows besides the event. -/
structure AttemptView where
  ladder : AttemptLadder
  killStored : Bool
  acked : Bool
  deriving DecidableEq, Repr

/-- How an attempt reports the end of its incarnation. -/
inductive AttemptReport
  | stopped
  | startTimeout
  | failed
  deriving DecidableEq, Repr

inductive AttemptAction
  | none
  | cancel
  | spawn
  | armLadder
  | adopt
  | killPath (raise : Bool)
  | writeVerdict
  | report (report : AttemptReport)
  deriving DecidableEq, Repr

/-- The decision procedure of a restart attempt's executor. -/
def attemptStep (stage : AttemptStage) (event : AttemptEvent) (view : AttemptView) :
    AttemptAction :=
  match stage, event with
  | .factory, .begin true => .cancel
  | .factory, .begin false => .spawn
  | .init, .order => .armLadder
  | .init, .ack ordered _ => if !ordered && view.ladder == .off then .adopt else .none
  | .init, .initEnded => if view.ladder = .off then .killPath (!view.killStored) else .none
  | .init, .startTimeout =>
    if !view.acked && (view.ladder == .off || view.ladder == .window) then
      .killPath (!view.killStored)
    else .none
  | .init, .ladderSpent => .writeVerdict
  | .init, .ended ordered timeoutRaised =>
    .report (if timeoutRaised then .startTimeout else if ordered then .stopped else .failed)
  | _, _ => .none

inductive WaitAction
  | cancel
  | proceed
  | escalate
  | keep
  deriving DecidableEq, Repr

/-- The decision of an attempt that waits for its predecessor's subtree. -/
def successorWaitStep (gone order expired : Bool) : WaitAction :=
  if order then .cancel
  else if gone then .proceed
  else if expired then .escalate
  else .keep

/-! ## What the parties share -/

/-- Who raised a `Kill`. -/
inductive Killer
  | startTimeout
  | initEnded
  | ladder
  | other
  deriving DecidableEq, Repr

/-- What is fixed for an attempt. -/
structure Setup where
  /-- There is a predecessor whose subtree the attempt waits for. -/
  predecessor : Bool
  startTimeout : Option Nat
  grace : Nat

/-- The slot, the incarnation, and the record of what was done. -/
structure World where
  now : Nat := 0
  stop : Option StopOrder := none
  cancel : Bool := false
  reasked : Bool := false
  /-- The command cell holds a write its reader has not seen. -/
  unseen : Bool := false
  /-- The supervisor's half of the slot is gone. -/
  closed : Bool := false
  subtreeGone : Bool := false
  subtreeExpired : Bool := false
  spawned : Bool := false
  lane : LaneState := {}
  /-- The run loop's half of the lane is gone. -/
  laneGone : Bool := false
  /-- The init acknowledgment: `false` for an error or a closed channel. -/
  ack : Option Bool := none
  /-- How the task ended. -/
  ended : Option StopReason := none
  fate : Option StopReason := none
  unresponsive : Bool := false
  cancelled : Bool := false
  /-- The outcomes the attempt returned. -/
  outcomes : List RestartOutcome := []
  /-- What the check before the factory read. -/
  checked : Option Bool := none
  /-- The last read of the command cell showed an order. -/
  readOrder : Bool := false
  /-- The order the ladder was started from. -/
  armed : Option StopOrder := none
  /-- What the ladders did. -/
  trail : Trail := []
  /-- The `Kill`s the lane took, oldest first. -/
  kills : List Killer := []

namespace World

/-- A read of the command cell that marks it seen. -/
def update (w : World) : World := { w with unseen := false, readOrder := w.stop.isSome }

/-- A read of the command cell that does not. -/
def borrow (w : World) : World := { w with readOrder := w.stop.isSome }

/-- The command cell holds an order or the cancel flag. -/
def cancelOrOrder (w : World) : Bool := w.stop.isSome || w.cancel

/-- A raise on the incarnation's lane. -/
def raise (w : World) (reason : StopReason) (killer : Killer) : World :=
  { w with
    lane := w.lane.raise reason w.laneGone
    kills :=
      if reason = .kill ∧ w.lane.raiseResult reason w.laneGone = .recorded then w.kills ++ [killer]
      else w.kills }

/-- The lane holds a `Kill`. -/
def killStored (w : World) : Bool := w.lane.reason == some .kill

/-- Performs what the ladder names. An abort ends the task once it yields. -/
def perform (w : World) : LadderAction → World
  | .none => w
  | .raise signal => w.raise signal.reason .ladder
  | .abort => w
  | .writeVerdict => { w with unresponsive := true }
  | .releaseMark => w

/-- One step of a ladder: asks the decision procedure and performs what it names. -/
def advance (w : World) (grace : Nat) (step : LadderStep) (event : LadderEvent) :
    World × LadderStep :=
  let next := ladderStep step event w.now grace
  ({ w.perform next.2 with trail := w.trail.add w.now next.2 }, next.1)

/-- An order is read: the ladder starts from it, unless it has started. -/
def start (w : World) (grace : Nat) (step : LadderStep) (order : StopOrder) : World × LadderStep :=
  let next := w.advance grace step (.order order)
  ({ next.1 with armed := if step = .idle then some order else w.armed }, next.2)

/-- The attempt returns. -/
def return_ (w : World) (outcome : RestartOutcome) : World :=
  { w with outcomes := w.outcomes ++ [outcome] }

end World

/-! ## The places of the executors -/

/-- The locals of `run_attempt`. -/
structure Attempt where
  step : LadderStep := .idle
  ordered : Bool := false
  acked : Bool := false
  /-- The acknowledgment was not read yet. -/
  ackOpen : Bool := true
  commandsOpen : Bool := true
  timeoutRaised : Bool := false
  timerPending : Bool
  startDeadline : Option Nat

/-- The branch of its select an executor polls next. -/
inductive Branch
  | changed
  | ack
  | join
  | deadline
  | timer
  deriving DecidableEq, Repr

/-- Where the executor of an incarnation is. -/
inductive Place
  | waiting
  | checking
  | building
  | starting
  | init (attempt : Attempt) (branch : Branch)
  /-- The acknowledgment was read, and the command cell once more. -/
  | acked (attempt : Attempt)
  /-- A kill path was decided on, from a read of the lane. -/
  | killPath (attempt : Attempt) (cause : Killer) (raise : Bool)
  /-- The attempt returned the incarnation: the supervisor has it. -/
  | handed
  | runnerStart
  | runner (step : LadderStep) (commandsOpen : Bool) (branch : Branch)
  | finished

structure State where
  world : World
  place : Place

/-- What drives the executor and the parties around it. -/
inductive Input
  | tick (elapsed : Nat)
  | writeOrder (policy : Shutdown) (issuedAt : Nat) (initialRaised : Bool)
  | cancelUnspawned
  | markReasked
  | closeCommands
  | subtreeEnds
  | subtreeExpires
  | raise (reason : StopReason)
  | closeToNonKill
  | sealLane
  | dropLane
  | acknowledge (ok : Bool)
  | endTask (reason : StopReason)
  /-- The executor's next access. -/
  | go
  /-- The factory returned and the incarnation was spawned. -/
  | built
  | buildFails (reason : StopReason)
  | specGone (dropPanic : Option String)
  /-- The supervisor starts the runner of an incarnation it adopted. -/
  | adopt

/-- A step of another party. -/
def World.other (w : World) : Input → Option World
  | .tick elapsed => some { w with now := w.now + elapsed }
  | .writeOrder policy issuedAt initialRaised =>
    if w.closed ∨ w.now < issuedAt then none
    else if w.stop.isNone then
      some { w with stop := some ⟨policy, issuedAt, initialRaised⟩, unseen := true }
    else some w
  | .cancelUnspawned =>
    if w.closed then none else some { w with unseen := w.unseen || !w.cancel, cancel := true }
  | .markReasked =>
    if w.closed then none else some { w with unseen := w.unseen || !w.reasked, reasked := true }
  | .closeCommands => some { w with closed := true }
  | .subtreeEnds => some { w with subtreeGone := true }
  | .subtreeExpires => some { w with subtreeExpired := true }
  | .raise reason => if w.spawned then some (w.raise reason .other) else none
  | .closeToNonKill => if w.spawned then some { w with lane := w.lane.closeToNonKill } else none
  | .sealLane => if w.spawned then some { w with lane := w.lane.sealLane } else none
  | .dropLane => if w.spawned then some { w with laneGone := true } else none
  | .acknowledge ok =>
    if w.spawned ∧ w.ack.isNone then some { w with ack := some ok } else none
  | .endTask reason =>
    if w.spawned ∧ w.ended.isNone then some { w with ended := some reason } else none
  | _ => none

/-! ## The attempt -/

namespace Attempt

def view (attempt : Attempt) (w : World) : AttemptView :=
  ⟨attempt.step.position, w.killStored, attempt.acked⟩

/-- An order is read while the incarnation initializes. -/
def readOrder (attempt : Attempt) (setup : Setup) (w : World) (order : StopOrder) :
    World × Attempt :=
  let attempt := { attempt with ordered := true }
  if attemptStep .init .order (attempt.view w) = .armLadder then
    let next := w.start setup.grace attempt.step order
    (next.1, { attempt with step := next.2 })
  else (w, attempt)

/-- A read of the command cell, and of the order it may hold. -/
def readCommands (attempt : Attempt) (setup : Setup) (w : World) : World × Attempt :=
  match w.stop with
  | some order => attempt.readOrder setup w.update order
  | none => (w.update, attempt)

/-- The outcome the attempt reports once the task has ended. -/
def outcome (attempt : Attempt) (w : World) (reason : StopReason) : RestartOutcome :=
  match attemptStep .init (.ended (attempt.ordered || w.stop.isSome) attempt.timeoutRaised)
      (attempt.view w) with
  | .report .stopped => .stopped reason
  | .report .startTimeout => .failed (.failure (.spawn .startTimeout))
  | _ => .failed reason

/-- The kill path of an ended init or an expired start timeout, when there is one. -/
def decideKill (attempt : Attempt) (event : AttemptEvent) (cause : Killer) (w : World) : Place :=
  match attemptStep .init event (attempt.view w) with
  | .killPath raise =>
    .killPath (if cause = .startTimeout then { attempt with timeoutRaised := raise } else attempt)
      cause raise
  | _ => .init attempt .changed

/-- One poll of the attempt's select. -/
def poll (attempt : Attempt) (setup : Setup) (w : World) : Branch → World × Place
  | .changed =>
    if attempt.commandsOpen && !attempt.ordered then
      if w.unseen then
        let next := attempt.readCommands setup w
        (next.1, .init next.2 .changed)
      else if w.closed then (w, .init { attempt with commandsOpen := false } .changed)
      else (w, .init attempt .ack)
    else (w, .init attempt .ack)
  | .ack =>
    if attempt.ackOpen then
      match w.ack with
      | none => (w, .init attempt .join)
      | some true =>
        let attempt := { attempt with ackOpen := false, acked := true }
        if attempt.ordered then (w, .acked attempt)
        else
          let next := attempt.readCommands setup w
          (next.1, .acked next.2)
      | some false =>
        let attempt := { attempt with ackOpen := false }
        (w, attempt.decideKill .initEnded .initEnded w)
    else (w, .init attempt .join)
  | .join =>
    match w.ended with
    | none => (w, .init attempt .deadline)
    | some reason =>
      let ended := (w.advance setup.grace attempt.step .taskEnded).1
      ({ (ended.borrow.return_ (attempt.outcome w reason)) with fate := some reason }, .finished)
  | .deadline =>
    match attempt.step.deadline with
    | some deadline =>
      if deadline ≤ w.now then
        let next := w.advance setup.grace attempt.step .deadlineReached
        (next.1, .init { attempt with step := next.2 } .changed)
      else (w, .init attempt .timer)
    | none => (w, .init attempt .timer)
  | .timer =>
    match attempt.startDeadline with
    | some deadline =>
      if attempt.timerPending && decide (deadline ≤ w.now) then
        let attempt := { attempt with timerPending := false }
        (w, attempt.decideKill .startTimeout .startTimeout w)
      else (w, .init attempt .changed)
    | none => (w, .init attempt .changed)

end Attempt

/-! ## The runner -/

/-- A read of the command cell by the runner. -/
def readRunner (setup : Setup) (w : World) (step : LadderStep) : World × LadderStep :=
  match w.stop with
  | some order => w.update.start setup.grace step order
  | none => (w.update, step)

/-- One poll of the runner's select. -/
def pollRunner (setup : Setup) (w : World) (step : LadderStep) (commandsOpen : Bool) :
    Branch → World × Place
  | .join =>
    match w.ended with
    | none => (w, .runner step commandsOpen .changed)
    | some reason =>
      ({ (w.advance setup.grace step .taskEnded).1 with fate := some reason }, .finished)
  | .changed =>
    if commandsOpen && step == .idle then
      if w.unseen then
        let next := readRunner setup w step
        (next.1, .runner next.2 commandsOpen .join)
      else if w.closed then (w, .runner step false .join)
      else (w, .runner step commandsOpen .deadline)
    else (w, .runner step commandsOpen .deadline)
  | _ =>
    match step.deadline with
    | some deadline =>
      if deadline ≤ w.now then
        let next := w.advance setup.grace step .deadlineReached
        (next.1, .runner next.2 commandsOpen .join)
      else (w, .runner step commandsOpen .join)
    | none => (w, .runner step commandsOpen .join)

/-! ## The machine -/

/-- The next access of the executor. -/
def go (setup : Setup) (w : World) : Place → Option (World × Place)
  | .waiting =>
    if !setup.predecessor then some (w, .checking)
    else
      match successorWaitStep w.subtreeGone w.cancelOrOrder w.subtreeExpired with
      | .cancel => some ({ w.update.return_ (.cancelled none) with cancelled := true }, .finished)
      | .proceed => some (w.update, .checking)
      | .escalate => some (w.update.return_ .predecessorUnresponsive, .finished)
      | .keep => some (w.update, .waiting)
  | .checking =>
    let read := { w.update with checked := some w.cancelOrOrder }
    if attemptStep .factory (.begin w.cancelOrOrder) ⟨.off, false, false⟩ = .cancel then
      some ({ read.return_ (.cancelled none) with cancelled := true }, .finished)
    else some (read, .building)
  | .starting =>
    let deadline := setup.startTimeout.map (saturatingDeadline w.now)
    let attempt : Attempt := { timerPending := deadline.isSome, startDeadline := deadline }
    let next := attempt.readCommands setup w
    some (next.1, .init next.2 .changed)
  | .init attempt branch => some (attempt.poll setup w branch)
  | .acked attempt =>
    let read := w.borrow
    if attemptStep .init (.ack (attempt.ordered || w.stop.isSome) w.ended.isSome)
        (attempt.view w) = .adopt then
      some (read.return_ .adopted, .handed)
    else some (read, .init attempt .changed)
  | .killPath attempt cause raise =>
    some (if raise then w.raise .kill cause else w,
      .init { attempt with step := killGraceFrom w.now setup.grace } .changed)
  | .runnerStart =>
    let next := readRunner setup w .idle
    some (next.1, .runner next.2 true .join)
  | .runner step commandsOpen branch => some (pollRunner setup w step commandsOpen branch)
  | .building => none
  | .handed => none
  | .finished => none

/-- One step of the executor or of a party around it. -/
def step (setup : Setup) (s : State) : Input → Option State
  | .go => (go setup s.world s.place).map fun next => ⟨next.1, next.2⟩
  | .built =>
    match s.place with
    | .building => some ⟨{ s.world with spawned := true }, .starting⟩
    | _ => none
  | .buildFails reason =>
    match s.place with
    | .building => some ⟨s.world.return_ (.failed reason), .finished⟩
    | _ => none
  | .specGone dropPanic =>
    match s.place with
    | .building =>
      some ⟨{ s.world.return_ (.cancelled dropPanic) with cancelled := true }, .finished⟩
    | _ => none
  | .adopt =>
    match s.place with
    | .handed => some ⟨s.world, .runnerStart⟩
    | _ => none
  | input => (s.world.other input).map fun world => ⟨world, s.place⟩

/-- A restart attempt that begins. -/
def init : State := ⟨{}, .waiting⟩

/-- The states a restart attempt reaches by steps that all meet the condition. -/
def Reaches (setup : Setup) (allowed : State → Input → Prop) (state : State) : Prop :=
  Machine.Reaches (step setup) allowed init state

end TokioActors.Executor
