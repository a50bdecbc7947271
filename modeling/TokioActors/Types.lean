/-
# Reasons, statuses and the configuration of a supervisor

The vocabulary the rest of the development is written in: why an actor ended,
what its status plane carries, how a supervisor is configured, and the event a
supervisor's `on_child_stopped` receives. Each type follows the source's own.

An actor id is only ever compared for equality, so it is a number here, and an
incarnation is named by the token the system's counter issued for it. Instants
and durations are numbers of nanoseconds.
-/

import Mathlib.Data.Finmap

namespace TokioActors

/-- The id of an actor. Nothing depends on what it spells. -/
abbrev ActorId := Nat

/-- The token of one incarnation, drawn from the system's counter. -/
abbrev Token := Nat

/-- The longest wait a timer is set to. -/
def farFuture : Nat := 86400 * 365 * 30 * 10 ^ 9

/-- The longest duration there is. -/
def durationMax : Nat := (2 ^ 64 - 1) * 10 ^ 9 + 999999999

/-- A deadline counted from an instant. -/
def saturatingDeadline (base dur : Nat) : Nat := base + min dur farFuture

/-- The time a task is given to end after its abort. -/
def abortSettle : Nat := 100 * 10 ^ 6

inductive TimerError
  | notFound
  | zeroInterval
  deriving DecidableEq, Repr

inductive StreamError
  | notFound
  deriving DecidableEq, Repr

inductive SupervisionError
  | childNotFound (child : ActorId)
  | budgetExhausted
  | factoryFailed (message : String)
  | notASupervisor
  | childRunning (child : ActorId)
  | childRestarting (child : ActorId)
  | childUnresponsive (child : ActorId)
  | supervisorStopping
  deriving DecidableEq, Repr

mutual

/-- An error an actor ends with or a call answers with. -/
inductive ActorError
  | user (message : String)
  | panic (message : String)
  | spawn (error : SpawnError)
  | timer (error : TimerError)
  | stream (error : StreamError)
  | supervision (error : SupervisionError)
  deriving DecidableEq, Repr

/-- Why a spawn was refused or failed. -/
inductive SpawnError
  | missingRuntime
  | zeroMailboxCapacity
  | duplicateChild (child : ActorId)
  | nameTaken (name system : String)
  | systemNameTaken (name : String)
  | systemShuttingDown (name : String)
  | init (error : ActorError)
  | startTimeout
  | killed
  | notASupervisor
  | supervisorStopping
  | childUnresponsive (child : ActorId)
  deriving DecidableEq, Repr

end

/-- Why an actor stops, or why it ended. -/
inductive StopReason
  | graceful
  | parentRequest
  | failure (error : ActorError)
  | cancelled
  | parentKilled
  | kill
  deriving DecidableEq, Repr

/-- The lifecycle status an actor publishes on its status plane. -/
inductive ActorStatus
  | initializing
  | running
  | stopping
  | stopped
  deriving DecidableEq, Repr

/-- How one failure widens to a supervisor's other children. -/
inductive RestartStrategy
  | oneForOne
  | oneForAll
  | restForOne
  | simpleOneForOne
  deriving DecidableEq, Repr

/-- When a child that ended is restarted. -/
inductive RestartType
  | permanent
  | transient
  | temporary
  deriving DecidableEq, Repr

/-- A child's shutdown policy: killed at once, asked with a window, or asked
with no bound. -/
inductive Shutdown
  | kill
  | timeout (window : Nat)
  | infinity
  deriving DecidableEq, Repr

/-- What a supervisor announces it did about a child's end. -/
inductive SupervisionAction
  | restartInitiated
  | removed
  | notSupervised
  | budgetExhausted
  | supervisorStopping
  deriving DecidableEq, Repr

/-- The event `on_child_stopped` receives. -/
structure ChildEvent where
  childId : ActorId
  childName : Option String
  reason : StopReason
  action : SupervisionAction
  deriving DecidableEq, Repr

/-- The report of one incarnation's end (`ChildStoppedInternal`), as a runner
or a restart attempt hands it to the supervisor. -/
structure Report where
  childId : ActorId
  reason : StopReason
  incarnation : Token
  deriving DecidableEq, Repr

end TokioActors
