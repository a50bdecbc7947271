/-
# The state of an actor system

A system holds the registry of its actors, by id and by name, the gate that
orders registrations against shutdowns, and the one deadline its final sweeps
share. Every registration draws a sequence number of its own, so the number
names one incarnation: its status plane, its stop lane and its task. A handle
that a caller took earlier still means that incarnation, whatever the registry
holds under its id or its name by now.

Instants and durations are numbers of nanoseconds since the system's epoch.
-/

import TokioActors.Lib.Keyed
import TokioActors.Lib.Pool
import TokioActors.StopLane

namespace TokioActors.System

/-- The sequence number of one registration. -/
abbrev Seq := Nat

abbrev Instant := Nat

inductive SystemPhase
  | active
  | shuttingDown
  | defunct
  deriving DecidableEq, Repr

inductive StopOutcome
  | graceful
  | killed
  | aborted
  | unresponsive
  deriving DecidableEq, Repr

structure StopReport where
  outcome : StopOutcome
  reason : Option StopReason
  deriving DecidableEq, Repr

/-- The report of an actor that reached no terminal status in time. -/
def unresponsive : StopReport := ⟨.unresponsive, none⟩

/-- One incarnation, as the system's parties see it: its stop lane and its
status plane. -/
structure Incarnation where
  id : ActorId := 0
  name : Option String := none
  isRoot : Bool := false
  killGrace : Nat := 0
  lane : LaneState := {}
  /-- The run loop's half of the lane is gone. -/
  laneGone : Bool := false
  status : ActorStatus := .initializing
  reason : Option StopReason := none
  /-- When the reason was written. -/
  finalAt : Option Instant := none
  /-- The task was aborted: no `Stopped` follows. -/
  aborted : Bool := false
  /-- Every sender of the plane is gone. -/
  closed : Bool := false
  deriving DecidableEq, Repr

namespace Incarnation

/-- The plane is read as terminal: `Stopped` was published, or nobody can write it. -/
def terminal (inc : Incarnation) : Bool := inc.closed || inc.status == .stopped

/-- The outcome of a terminal plane, for a call that asked for `requested`. -/
def terminalOutcome (inc : Incarnation) (requested : StopOutcome) : StopOutcome :=
  if inc.status = .stopped then requested else .aborted

def terminalReason (inc : Incarnation) : StopReason := inc.reason.getD .kill

def terminalReport (inc : Incarnation) (requested : StopOutcome) : StopReport :=
  ⟨inc.terminalOutcome requested, some inc.terminalReason⟩

/-- The end became final at or after the deadline, or carries no instant. -/
def late (inc : Incarnation) (deadline : Instant) : Bool :=
  match inc.finalAt with
  | some finalAt => decide (deadline ≤ finalAt)
  | none => true

/-- The outcome of a final sweep's leftover whose plane is terminal. -/
def leftoverOutcome (inc : Incarnation) (raised : Bool) (deadline : Instant) : StopOutcome :=
  if inc.status ≠ .stopped then .aborted
  else if raised || inc.late deadline then .killed
  else .graceful

def leftoverReport (inc : Incarnation) (raised : Bool) (deadline : Instant) : StopReport :=
  ⟨inc.leftoverOutcome raised deadline, some inc.terminalReason⟩

/-- A raise on the incarnation's lane. -/
def raise (inc : Incarnation) (reason : StopReason) : Incarnation :=
  { inc with lane := inc.lane.raise reason inc.laneGone }

def raiseResult (inc : Incarnation) (reason : StopReason) : RaiseResult :=
  inc.lane.raiseResult reason inc.laneGone

end Incarnation

/-- A registry entry, by id or by name. -/
structure Entry (κ : Type) where
  key : κ
  seq : Seq
  /-- The task's abort handle is attached. -/
  abort : Bool := false
  /-- The earliest deadline a `Kill` declared, zero when none did. -/
  killDue : Instant := 0
  deriving DecidableEq, Repr

/-- Keeps the earlier of the recorded deadline and the declared one. -/
def Entry.declareKill {κ : Type} (entry : Entry κ) (due : Instant) : Entry κ :=
  if entry.killDue = 0 ∨ due < entry.killDue then { entry with killDue := due } else entry

/-- An abort scheduled on a reaper: the incarnation whose task it aborts, the one
the scheduling party meant, when it is due, when it was scheduled, and the clock
reading from which the party counted. -/
structure Arm where
  seq : Seq
  wanted : Seq
  deadline : Instant
  armedAt : Instant
  since : Instant
  deriving DecidableEq, Repr

/-- The entry a `Kill` raiser targets. -/
inductive KillKey
  | id (id : ActorId)
  | name (name : String)

/-- The accesses of `raise_kill_declared`. -/
inductive RaiserStage
  | clock
  | declare
  | raise
  | read
  | arm (handle : Seq) (grace : Nat)
  | done

/-- A raiser: the key it found its target by, the incarnation it found, its
window, and how far it is. -/
structure Raiser where
  key : KillKey
  seq : Seq
  window : Option Nat
  stage : RaiserStage := .clock
  /-- The clock as it read it for its declaration. -/
  clockAt : Instant := 0
  result : Option RaiseResult := none
  /-- The abort handle the registry held after the raise. -/
  abort : Bool := false

/-- What the parties of a system share. -/
structure Shared where
  systemName : String
  /-- The maps' number of shards, and the hash that spreads the ids over them. -/
  shards : Nat
  shards_pos : 0 < shards
  hash : ActorId → Nat
  now : Instant := 0
  phase : SystemPhase := .active
  /-- The shutdowns in flight, counted by the gate. -/
  inFlight : ℤ := 0
  /-- The registrations that hold the gate's shared side. -/
  registering : ℤ := 0
  completedSinceActive : Bool := false
  sweepDeadline : Option Instant := none
  registrationSeq : Seq := 0
  byName : List (Entry String) := []
  byId : List (Entry ActorId) := []
  incarnations : Seq → Incarnation := fun _ => {}
  armed : List Arm := []
  /-- The incarnations a `Kill` deadline was declared on, each with the one meant. -/
  declared : List (Seq × Seq) := []
  /-- The raisers that returned. -/
  raises : List Raiser := []
  /-- How often the system was reactivated. -/
  era : Nat := 0
  /-- How often the last shutdown in flight ended. -/
  flight : Nat := 0

namespace Shared

/-- The shard of the id's entry. -/
def shard (s : Shared) (id : ActorId) : Nat := s.hash id % s.shards

def onIncarnation (s : Shared) (seq : Seq) (f : Incarnation → Incarnation) : Shared :=
  { s with incarnations := Function.update s.incarnations seq (f (s.incarnations seq)) }

/-- The id's entry, when it is the incarnation's. -/
def idEntry (s : Shared) (id : ActorId) (seq : Seq) : Option (Entry ActorId) :=
  (Keyed.find Entry.key id s.byId).filter fun entry => entry.seq == seq

/-- The name's entry, when it is the incarnation's. -/
def nameEntry (s : Shared) (name : String) (seq : Seq) : Option (Entry String) :=
  (Keyed.find Entry.key name s.byName).filter fun entry => entry.seq == seq

/-- Changes the id's entry, when it is the incarnation's. -/
def onIdEntry (s : Shared) (id : ActorId) (seq : Seq) (f : Entry ActorId → Entry ActorId) :
    Shared :=
  { s with
    byId := Keyed.update Entry.key id (fun entry => if entry.seq = seq then f entry else entry)
      s.byId }

def onNameEntry (s : Shared) (name : String) (seq : Seq) (f : Entry String → Entry String) :
    Shared :=
  { s with
    byName :=
      Keyed.update Entry.key name (fun entry => if entry.seq = seq then f entry else entry)
        s.byName }

/-- The id's entry is removed, when it is the registration's. -/
def unregisterById (s : Shared) (id : ActorId) (seq : Seq) : Shared :=
  { s with byId := s.byId.filter fun entry => !(entry.key == id && entry.seq == seq) }

def unregisterByName (s : Shared) (name : String) (seq : Seq) : Shared :=
  { s with byName := s.byName.filter fun entry => !(entry.key == name && entry.seq == seq) }

/-- Nanoseconds since the epoch, at least one. -/
def killClock (s : Shared) : Instant := max s.now 1

/-- Schedules the abort of the task whose handle the party holds after the grace. -/
def armKillBackstop (s : Shared) (handle wanted : Seq) (grace : Nat) (since : Instant) : Shared :=
  { s with armed := s.armed ++ [⟨handle, wanted, saturatingDeadline s.now grace, s.now, since⟩] }

/-- The system's sweep deadline as it stands, or the sweep's own when none is held. -/
def currentSweepDeadline (s : Shared) (own : Instant) : Instant :=
  match s.sweepDeadline with
  | some held => min held own
  | none => own

end Shared

end TokioActors.System
