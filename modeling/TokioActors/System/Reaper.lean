/-
# The reaper

A reaper is a task that aborts other tasks at a deadline. Its entries have one
stage, the abort, or two: a `Kill` and, a grace later, the abort. An entry is
built by whoever owes a task its abort, travels through a feed into the reaper's
heap, and is fired by the reaper when it is due. Each of these places may be
dropped, and an entry dropped before its abort was issued issues it then.

The machine has any number of senders with an entry in hand and any number of
reapers. Every entry is in one of their containers until it ends, and a log says
what was done for it and when.
-/

import Mathlib.Data.List.Perm.Basic
import TokioActors.Lib.Reach
import TokioActors.Types

namespace TokioActors

/-- One target's entry. The number names the entry; it has no part in what the
reaper does. -/
structure ReaperEntry where
  id : Nat
  /-- The first stage while it is pending: the instant to raise `Kill`, and the
  grace the abort follows it by. -/
  killAt : Option (Nat × Nat) := none
  deadline : Nat
  task : Nat
  fired : Bool := false
  deriving DecidableEq, Repr

namespace ReaperEntry

/-- An entry whose first stage is a `Kill`. -/
def twoStage (id task killAt deadline : Nat) : ReaperEntry :=
  { id := id, task := task, killAt := some (killAt, deadline - killAt), deadline := deadline }

/-- The instant the reaper acts on the entry next. -/
def due (entry : ReaperEntry) : Nat := (entry.killAt.map Prod.fst).getD entry.deadline

/-- Reversed, so that the heap's greatest entry is the one that is due first. -/
def cmp (entry other : ReaperEntry) : Ordering := compare other.due entry.due

end ReaperEntry

/-- What was done for an entry, and when. -/
inductive ReaperEvent
  | built (entry : ReaperEntry)
  | raised (id instant : Nat)
  /-- The abort of an entry that was due. -/
  | fired (id task instant : Nat)
  /-- The abort of an entry that was dropped. -/
  | dropped (id task instant : Nat)
  /-- The entry ended and found its task finished. -/
  | released (id task instant : Nat)
  deriving DecidableEq, Repr

/-- Where the task of a reaper is. -/
inductive ReaperStage
  /-- At the top of the loop, or not polled yet. -/
  | looks
  /-- Waiting for the feed, if it is open, and for the instant, if there is one. -/
  | waits (due : Option Nat)
  /-- The `Kill` of the entry is raised; the abort is still to be moved to the
  grace from now. -/
  | raised (entry : ReaperEntry) (grace : Nat)
  /-- The state is being dropped, with these entries left. -/
  | drops (rest : List ReaperEntry)
  deriving DecidableEq, Repr

structure Reaper where
  feed : List ReaperEntry := []
  /-- Every sending half of the feed is gone. -/
  hungUp : Bool := false
  heap : List ReaperEntry := []
  channelOpen : Bool := true
  stage : ReaperStage := .looks
  deriving DecidableEq, Repr

inductive ReaperAction
  | look
  | recv
  /-- The sleep is over, and the heap gives the entry at the position. -/
  | timer (pick : Nat)
  | rearm
  /-- The wakes of the `Kill` just raised unwind: the entry drops first. -/
  | unwind
  /-- The task is dropped: its runtime shuts down, or it is aborted. -/
  | drop
  | dropNext
  deriving DecidableEq, Repr

/-- The reapers, the senders with an entry in hand and how often each may still
try, and the tasks that finished. -/
structure Reapers where
  now : Nat := 0
  finished : List Nat := []
  senders : List (ReaperEntry × Nat) := []
  reapers : List Reaper := []
  /-- The number of entries built so far. -/
  count : Nat := 0
  log : List ReaperEvent := []
  deriving DecidableEq, Repr

inductive ReapersAction
  | tick (nanos : Nat)
  | finish (task : Nat)
  /-- A one-stage entry is built. A link guard tries its own feed before it asks
  for the reaper of the runtime. -/
  | build (task deadline : Nat) (guard : Bool)
  /-- A two-stage entry is built, its abort a grace after its `Kill`. -/
  | buildTwoStage (task killAt grace : Nat) (guard : Bool)
  /-- The runtime's reaper is asked for and a fresh one is spawned. -/
  | spawn
  | send (sender reaper : Nat)
  /-- The sender unwinds with the entry in hand. -/
  | unwind (sender : Nat)
  | hangUp (reaper : Nat)
  | reaper (reaper : Nat) (action : ReaperAction)
  deriving DecidableEq, Repr

namespace Reapers

/-- How often a sender tries: `feed_reaper` twice, a guard once more before that. -/
def tries (guard : Bool) : Nat := if guard then 3 else 2

/-- The record's abort: the task is aborted unless it finished. -/
def abort (world : Reapers) (entry : ReaperEntry) (event : Nat → Nat → Nat → ReaperEvent) :
    Reapers :=
  if entry.task ∈ world.finished then
    { world with log := .released entry.id entry.task world.now :: world.log }
  else { world with log := event entry.id entry.task world.now :: world.log }

/-- The drop of an entry. -/
def drop (world : Reapers) (entry : ReaperEntry) : Reapers :=
  if entry.fired then world else world.abort entry .dropped

/-- The entry is due. A pending first stage whose task has not finished raises
`Kill` and hands the entry back with its grace; anything else ends the entry, and
its drop at the end finds it fired. -/
def fire (world : Reapers) (entry : ReaperEntry) : Reapers × Option (ReaperEntry × Nat) :=
  match entry.killAt with
  | some (_, grace) =>
    if entry.task ∈ world.finished then
      ((world.abort entry .fired).drop { entry with fired := true }, none)
    else
      ({ world with log := .raised entry.id world.now :: world.log },
        some ({ entry with killAt := none }, grace))
  | none => ((world.abort entry .fired).drop { entry with fired := true }, none)

/-- A fresh entry in the hand of its sender. -/
def build (world : Reapers) (entry : ReaperEntry) (guard : Bool) : Reapers :=
  { world with
    senders := (entry, tries guard) :: world.senders
    count := world.count + 1
    log := .built entry :: world.log }

end Reapers

namespace Reaper

/-- The instant the heap's first entry is due. -/
def peekDue (heap : List ReaperEntry) : Option Nat := (heap.map ReaperEntry.due).min?

/-- Nothing in the heap comes before the entry. -/
def isTop (heap : List ReaperEntry) (entry : ReaperEntry) : Bool :=
  heap.all fun other => other.cmp entry != .gt

/-- The feed takes an entry as long as its receiving half is there. -/
def receives (reaper : Reaper) : Bool :=
  match reaper.stage with
  | .drops _ => false
  | _ => true

/-- The whole state is dropped: what waits in the feed, then the heap. -/
def dropped (reaper : Reaper) : Reaper :=
  { reaper with feed := [], heap := [], stage := .drops (reaper.feed ++ reaper.heap) }

/-- One step of a reaper. -/
def step (world : Reapers) (reaper : Reaper) : ReaperAction → Option (Reapers × Reaper)
  | .look =>
    match reaper.stage, peekDue reaper.heap with
    | .looks, some due => some (world, { reaper with stage := .waits (some due) })
    | .looks, none =>
      if reaper.channelOpen then some (world, { reaper with stage := .waits none })
      else some (world, reaper.dropped)
    | _, _ => none
  | .recv =>
    match reaper.stage, reaper.feed with
    | .waits _, entry :: rest =>
      if reaper.channelOpen then
        some (world, { reaper with feed := rest, heap := entry :: reaper.heap, stage := .looks })
      else none
    | .waits _, [] =>
      if reaper.channelOpen && reaper.hungUp then
        some (world, { reaper with channelOpen := false, stage := .looks })
      else none
    | _, _ => none
  | .timer pick =>
    match reaper.stage with
    | .waits (some due) =>
      if due ≤ world.now then
        match reaper.heap[pick]? with
        | some entry =>
          if isTop reaper.heap entry then
            match world.fire entry with
            | (after, some (rest, grace)) =>
              some (after, { reaper with
                heap := reaper.heap.eraseIdx pick, stage := .raised rest grace })
            | (after, none) =>
              some (after, { reaper with
                heap := reaper.heap.eraseIdx pick, stage := .looks })
          else none
        | none =>
          if reaper.heap = [] then some (world, { reaper with stage := .looks }) else none
      else none
    | _ => none
  | .rearm =>
    match reaper.stage with
    | .raised entry grace =>
      some (world, { reaper with
        heap := { entry with
          deadline := max entry.deadline (saturatingDeadline world.now grace) } :: reaper.heap
        stage := .looks })
    | _ => none
  | .unwind =>
    match reaper.stage with
    | .raised entry _ => some (world.drop entry, reaper.dropped)
    | _ => none
  | .drop =>
    match reaper.stage with
    | .looks | .waits _ => some (world, reaper.dropped)
    | _ => none
  | .dropNext =>
    match reaper.stage with
    | .drops (entry :: rest) => some (world.drop entry, { reaper with stage := .drops rest })
    | _ => none

end Reaper

namespace Reapers

/-- One step of the whole. -/
def step (world : Reapers) : ReapersAction → Option Reapers
  | .tick nanos => some { world with now := world.now + nanos }
  | .finish task => some { world with finished := task :: world.finished }
  | .build task deadline guard =>
    some (world.build { id := world.count, task := task, deadline := deadline } guard)
  | .buildTwoStage task killAt grace guard =>
    some (world.build
      (.twoStage world.count task killAt (saturatingDeadline killAt grace)) guard)
  | .spawn => some { world with reapers := world.reapers ++ [{}] }
  | .send sender reaper =>
    match world.senders[sender]?, world.reapers[reaper]? with
    | some (entry, left), some target =>
      if target.receives then
        some { world with
          senders := world.senders.eraseIdx sender
          reapers := world.reapers.set reaper { target with feed := target.feed ++ [entry] } }
      else if left ≤ 1 then
        -- The last feed refused the entry: its drop aborts the task.
        some ({ world with senders := world.senders.eraseIdx sender }.drop entry)
      else some { world with senders := world.senders.set sender (entry, left - 1) }
    | _, _ => none
  | .unwind sender =>
    world.senders[sender]?.map fun pair =>
      { world with senders := world.senders.eraseIdx sender }.drop pair.1
  | .hangUp reaper =>
    world.reapers[reaper]?.map fun target =>
      { world with reapers := world.reapers.set reaper { target with hungUp := true } }
  | .reaper reaper action =>
    world.reapers[reaper]?.bind fun target =>
      (target.step world action).map fun after =>
        { after.1 with reapers := after.1.reapers.set reaper after.2 }

end Reapers

end TokioActors
