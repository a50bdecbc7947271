/-
# The shutdown walk

A shutdown enters, snapshots the roots, stops them one at a time through the
sequential ladder, hands the rest to one concurrent force sweep once the global
deadline cuts a ladder, looks for late roots, folds its deadline into the
system's, waits on every leftover at once, classifies the ended ones, forces the
others, and leaves. The tasks a sweep spawns run beside the walk and may fail.

The maps are read shard by shard, so entries may leave while a snapshot is taken.
-/

import Mathlib.Data.List.Sort
import TokioActors.System.Registry

namespace TokioActors.System

/-! ## What a walk holds -/

/-- An incarnation as a snapshot keeps it. -/
structure Snapshot where
  id : ActorId
  seq : Seq
  killGrace : Nat
  deriving DecidableEq, Repr

/-- A target of a force sweep, and whether this shutdown had raised `Kill` on it. -/
structure Target where
  snapshot : Snapshot
  killRaised : Bool
  deriving DecidableEq, Repr

/-- One line of a shutdown report, with the incarnation it is about. -/
structure Outcome where
  seq : Seq
  id : ActorId
  report : StopReport
  /-- The sequential ladder produced it. -/
  byLadder : Bool

inductive Signal
  | stop
  | kill
  | abort
  /-- The two-stage entry of a leftover: `Kill` at the deadline, then the abort. -/
  | twoStage
  deriving DecidableEq

/-- A signal the walk issued: on which incarnation, and which one it meant. -/
structure Issued where
  signal : Signal
  target : Seq
  wanted : Seq

/-- The data of one shutdown walk. -/
structure Walk where
  perActorTimeout : Nat
  deadline : Instant
  /-- How often the system had been reactivated when the walk entered. -/
  era : Nat := 0
  /-- How often a last shutdown in flight had ended when the walk entered. -/
  flight : Nat := 0
  /-- The first snapshot of the roots, once it is taken. -/
  first : Option (List Snapshot) := none
  reported : List Seq := []
  outcomes : List Outcome := []
  /-- The deadline the sweep arms and waits by. -/
  folded : Instant := 0
  leftover : List Snapshot := []
  swept : List Outcome := []
  issued : List Issued := []

/-! ## The places of a walk -/

/-- The sequential ladder of one root. -/
inductive Ladder
  | stop
  | stopRaise (lane : Seq)
  | stopTimer
  | stopWait (end_ : Instant)
  | stopCut
  | kill
  | killRaise (raiser : Raiser)
  | killTimer (raised : Bool)
  | killWait (raised : Bool) (end_ : Instant)
  | killCut (raised : Bool)
  | abort (raised : Bool)
  | abortTimer (raised : Bool)
  | abortWait (raised : Bool) (end_ : Instant)

inductive ForceStage
  | timer
  | wait (end_ : Instant)
  | abort
  | settleTimer
  | settle (end_ : Instant)
  | ended (report : StopReport)
  | failed

/-- The task that forces one target. -/
structure Force where
  target : Snapshot
  requested : StopOutcome
  raised : Bool
  /-- The incarnation of the abort handle it holds. -/
  abort : Option Seq
  stage : ForceStage := .timer

inductive WaitStage
  | held
  | status
  | select
  | last
  | ended (ended : Bool)
  | failed

/-- The task that waits on one leftover. -/
structure Wait where
  index : Nat
  target : Snapshot
  deadline : Instant
  stage : WaitStage := .held

/-- Where a walk is. A force sweep of leftovers carries the sweep's deadline, one
of roots does not. -/
inductive Stage
  | enter
  | snapshot (shard : Nat) (found : List Snapshot)
  | ladder (root : Snapshot) (rest : List Snapshot) (at_ : Ladder)
  | launch (sweep : Option Instant) (targets : List Target) (tasks : List Force)
  | launchRaise (sweep : Option Instant) (target : Target) (rest : List Target)
      (tasks : List Force) (raiser : Raiser)
  | launchAbort (sweep : Option Instant) (target : Target) (rest : List Target)
      (tasks : List Force)
  | join (sweep : Option Instant) (tasks : List Force)
  | late (shard : Nat) (found : List Snapshot)
  | foldRead
  | foldStore (floor : Instant)
  | list (shard : Nat) (found : List Snapshot)
  | waits (tasks : List Wait) (waited : List (Nat × Snapshot × Bool))
  | classify (waited : List (Snapshot × Bool)) (stragglers : List Target)
  | leave
  | finished
  | cutShort

/-- What drives a walk: its next access, a timer that fires, a step or the end of
one of its tasks, or the drop of its future. -/
inductive WalkInput
  | go
  | timeout
  | task (k : Nat)
  | taskTimeout (k : Nat)
  | taskFails (k : Nat)
  | join (k : Nat)
  | cut

/-! ## Snapshots -/

namespace Shared

/-- The entries of one shard, as snapshots. -/
def snapshots (s : Shared) (shard : Nat) (keep : Entry ActorId → Bool) : List Snapshot :=
  (s.byId.filter fun entry => s.shard entry.key == shard && keep entry).map fun entry =>
    ⟨entry.key, entry.seq, (s.incarnations entry.seq).killGrace⟩

/-- The entry is a root's. -/
def isRoot (s : Shared) (entry : Entry ActorId) : Bool := (s.incarnations entry.seq).isRoot

end Shared

/-- The order in which a shutdown stops roots: the most recently registered first. -/
def newestFirst (roots : List Snapshot) : List Snapshot :=
  roots.insertionSort fun first second => second.seq ≤ first.seq

namespace Walk

variable (walk : Walk) (s : Shared)

/-- Time left before the global deadline. -/
def timeLeft : Nat := walk.deadline - s.now

def issue (signal : Signal) (target wanted : Seq) : Walk :=
  { walk with issued := walk.issued ++ [⟨signal, target, wanted⟩] }

/-- Takes on the next root, or looks for late roots. -/
def nextRoot : List Snapshot → Stage
  | [] => .late 0 []
  | root :: rest => .ladder root rest .stop

/-- The ladder's verdict on a root. -/
def ladderReport (root : Snapshot) (report : StopReport) : Walk :=
  { walk with outcomes := walk.outcomes ++ [⟨root.seq, root.id, report, true⟩] }

/-- The deadline cut a ladder: the root and every one after it go to one sweep. -/
def cutLadder (root : Snapshot) (rest : List Snapshot) (raised : Bool) : Stage :=
  .launch none (⟨root, raised⟩ :: rest.map fun root => ⟨root, false⟩) []

/-- The outcome a call asks for. -/
def requested (raised : Bool) : StopOutcome := if raised then .killed else .graceful

/-! ## The sequential ladder -/

/-- One access of the sequential ladder. -/
def ladderStep (root : Snapshot) (rest : List Snapshot) :
    Ladder → WalkInput → Option (Shared × Walk × Stage)
  | .stop, .go =>
    match s.idEntry root.id root.seq with
    | some entry =>
      some (s, walk.issue .stop entry.seq root.seq, .ladder root rest (.stopRaise entry.seq))
    | none => some (s, walk, .ladder root rest .stopTimer)
  | .stopRaise lane, .go =>
    some (s.onIncarnation lane fun inc => inc.raise .parentRequest, walk,
      .ladder root rest .stopTimer)
  | .stopTimer, .go =>
    some (s, walk, .ladder root rest
      (.stopWait (saturatingDeadline s.now (min (walk.timeLeft s) walk.perActorTimeout))))
  | .stopWait _, .go =>
    let inc := s.incarnations root.seq
    if inc.terminal then
      some (s, walk.ladderReport root (inc.terminalReport .graceful), nextRoot rest)
    else none
  | .stopWait end_, .timeout =>
    if end_ ≤ s.now ∧ !(s.incarnations root.seq).terminal then
      some (s, walk, .ladder root rest .stopCut)
    else none
  | .stopCut, .go =>
    if walk.deadline ≤ s.now then some (s, walk, cutLadder root rest false)
    else some (s, walk, .ladder root rest .kill)
  | .kill, .go =>
    match s.idEntry root.id root.seq with
    | some entry =>
      some (s, walk.issue .kill entry.seq root.seq,
        .ladder root rest (.killRaise ⟨.id root.id, entry.seq, none, .clock, 0, none, false⟩))
    | none => some (s, walk, .ladder root rest (.killTimer false))
  | .killRaise raiser, .go =>
    match raiser.step s with
    | some (after, raiser) => some (after, walk, .ladder root rest (.killRaise raiser))
    | none => some (s, walk, .ladder root rest (.killTimer raiser.accepted))
  | .killTimer raised, .go =>
    some (s, walk, .ladder root rest
      (.killWait raised (saturatingDeadline s.now (min (walk.timeLeft s) root.killGrace))))
  | .killWait raised _, .go =>
    let inc := s.incarnations root.seq
    if inc.terminal then
      some (s, walk.ladderReport root (inc.terminalReport (requested raised)), nextRoot rest)
    else none
  | .killWait raised end_, .timeout =>
    if end_ ≤ s.now ∧ !(s.incarnations root.seq).terminal then
      some (s, walk, .ladder root rest (.killCut raised))
    else none
  | .killCut raised, .go =>
    if walk.deadline ≤ s.now then some (s, walk, cutLadder root rest raised)
    else some (s, walk, .ladder root rest (.abort raised))
  | .abort raised, .go =>
    match s.idEntry root.id root.seq with
    | some entry =>
      some (s, if entry.abort then walk.issue .abort entry.seq root.seq else walk,
        .ladder root rest (.abortTimer raised))
    | none => some (s, walk, .ladder root rest (.abortTimer raised))
  | .abortTimer raised, .go =>
    some (s, walk, .ladder root rest
      (.abortWait raised (saturatingDeadline s.now (min (walk.timeLeft s) abortSettle))))
  | .abortWait raised _, .go =>
    let inc := s.incarnations root.seq
    if inc.terminal then
      some (s, walk.ladderReport root (inc.terminalReport (requested raised)), nextRoot rest)
    else none
  | .abortWait _ end_, .timeout =>
    if end_ ≤ s.now ∧ !(s.incarnations root.seq).terminal then
      some (s, walk.ladderReport root unresponsive, nextRoot rest)
    else none
  | _, _ => none

end Walk

/-! ## The force tasks -/

namespace Force

/-- The report a task that ended returned. -/
def report? (task : Force) : Option StopReport :=
  match task.stage with
  | .ended report => some report
  | _ => none

/-- The task is over, with its report or without. -/
def isOver (task : Force) : Bool :=
  match task.stage with
  | .ended _ => true
  | .failed => true
  | _ => false

/-- One access of `force_stop`. -/
def step (task : Force) (s : Shared) (fired : Bool) : Option Force :=
  let inc := s.incarnations task.target.seq
  match task.stage with
  | .timer =>
    if fired then none
    else some { task with stage := .wait (saturatingDeadline s.now task.target.killGrace) }
  | .wait end_ =>
    if !fired && inc.terminal then
      some { task with stage := .ended (inc.terminalReport task.requested) }
    else if fired && decide (end_ ≤ s.now) && !inc.terminal then some { task with stage := .abort }
    else none
  | .abort => if fired then none else some { task with stage := .settleTimer }
  | .settleTimer =>
    if fired then none
    else some { task with stage := .settle (saturatingDeadline s.now abortSettle) }
  | .settle end_ =>
    if !fired && inc.terminal then
      some { task with stage := .ended (inc.terminalReport task.requested) }
    else if fired && decide (end_ ≤ s.now) then
      some { task with
        stage := .ended (if inc.terminal then inc.terminalReport task.requested else unresponsive) }
    else none
  | .ended _ => none
  | .failed => none

/-- The report a joined task's target gets: a task that failed has its target
reported from the target's plane, and a terminal leftover goes through the one
classifier of leftovers. -/
def joinReport (task : Force) (s : Shared) (sweep : Option Instant) : StopReport :=
  let inc := s.incarnations task.target.seq
  let terminal :=
    match task.report? with
    | some report => report.outcome != .unresponsive
    | none => inc.terminal
  if !terminal then task.report?.getD unresponsive
  else
    match sweep with
    | some deadline => inc.leftoverReport task.raised (s.currentSweepDeadline deadline)
    | none => task.report?.getD (inc.terminalReport task.requested)

end Force

namespace Wait

/-- One access of `wait_end_by_the_system_deadline`. -/
def step (task : Wait) (s : Shared) (fired : Bool) : Option Wait :=
  let inc := s.incarnations task.target.seq
  match task.stage with
  | .held =>
    if fired then none
    else
      some { task with
        deadline := s.currentSweepDeadline task.deadline
        stage := .status }
  | .status =>
    if fired then none
    else some { task with stage := if inc.terminal then .ended true else .select }
  | .select =>
    if fired then if task.deadline ≤ s.now then some { task with stage := .last } else none
    else some { task with stage := if inc.closed then .ended true else .held }
  | .last => if fired then none else some { task with stage := .ended inc.terminal }
  | .ended _ => none
  | .failed => none

end Wait

/-! ## The sweeps -/

namespace Walk

variable (walk : Walk) (s : Shared)

/-- The result of one joined task of a force sweep. -/
def joined (sweep : Option Instant) (task : Force) (report : StopReport) : Walk :=
  let outcome : Outcome := ⟨task.target.seq, task.target.id, report, false⟩
  match sweep with
  | some _ => { walk with swept := walk.swept ++ [outcome] }
  | none => { walk with outcomes := walk.outcomes ++ [outcome] }

/-- One access of a force sweep that launches its tasks. -/
def launchStep (sweep : Option Instant) : List Target → List Force → Shared × Walk × Stage
  | [], tasks => (s, walk, .join sweep tasks)
  | target :: rest, tasks =>
    match s.idEntry target.snapshot.id target.snapshot.seq with
    | none =>
      (s, walk, .launch sweep rest
        (tasks ++ [⟨target.snapshot, requested target.killRaised, target.killRaised, none,
          .timer⟩]))
    | some entry =>
      (s, walk.issue .kill entry.seq target.snapshot.seq,
        .launchRaise sweep target rest tasks
          ⟨.id target.snapshot.id, entry.seq, none, .clock, 0, none, false⟩)

/-- The raiser of a launched target has returned: the task is spawned with the
abort handle the raiser read, or with the one read now when the lane refused. -/
def launchRaised (sweep : Option Instant) (target : Target)
    (rest : List Target) (tasks : List Force) (raiser : Raiser) : Shared × Walk × Stage :=
  if raiser.accepted then
    (s, walk, .launch sweep rest (tasks ++
      [⟨target.snapshot, requested true, true,
        if raiser.abort then some raiser.seq else none, .timer⟩]))
  else (s, walk, .launchAbort sweep target rest tasks)

def launchAborted (sweep : Option Instant) (target : Target)
    (rest : List Target) (tasks : List Force) : Shared × Walk × Stage :=
  let handle :=
    match s.idEntry target.snapshot.id target.snapshot.seq with
    | some entry => if entry.abort then some entry.seq else none
    | none => none
  (s, walk, .launch sweep rest (tasks ++
    [⟨target.snapshot, requested target.killRaised, target.killRaised, handle, .timer⟩]))

/-- A step of the `k`-th force task. Its abort is a signal of the walk. -/
def forceStep (sweep : Option Instant) (tasks : List Force) (k : Nat)
    (fired : Bool) : Option (Shared × Walk × Stage) :=
  tasks[k]?.bind fun task => (task.step s fired).map fun next =>
    let walk :=
      match task.stage, task.abort with
      | .abort, some handle => walk.issue .abort handle task.target.seq
      | _, _ => walk
    (s, walk, .join sweep (tasks.set k next))

/-- The wait tasks of the leftovers. -/
def startWaits : List Wait :=
  walk.leftover.zipIdx.map fun (target, index) => ⟨index, target, walk.folded, .held⟩

/-- The joined waits in the order of the listing. -/
def inOrder (waited : List (Nat × Snapshot × Bool)) : List (Snapshot × Bool) :=
  (waited.insertionSort fun first second => first.1 ≤ second.1).map Prod.snd

/-- One access of a walk outside the ladder and the tasks. -/
def go : Stage → Option (Shared × Walk × Stage)
  | .enter =>
    -- The gate's exclusive side: no registration is under way.
    if s.registering = 0 then
      some (s.enter, { walk with era := s.era, flight := s.flight }, .snapshot 0 [])
    else none
  | .snapshot shard found =>
    if shard < s.shards then
      some (s, walk, .snapshot (shard + 1) (found ++ s.snapshots shard s.isRoot))
    else
      let roots := newestFirst found
      some (s, { walk with first := some roots, reported := roots.map Snapshot.seq },
        nextRoot roots)
  | .ladder root rest at_ => walk.ladderStep s root rest at_ .go
  | .launch sweep targets tasks => some (walk.launchStep s sweep targets tasks)
  | .launchRaise sweep target rest tasks raiser =>
    match raiser.step s with
    | some (after, raiser) => some (after, walk, .launchRaise sweep target rest tasks raiser)
    | none => some (walk.launchRaised s sweep target rest tasks raiser)
  | .launchAbort sweep target rest tasks => some (walk.launchAborted s sweep target rest tasks)
  | .join sweep [] => some (s, walk, if sweep.isSome then .leave else .late 0 [])
  | .join _ (_ :: _) => none
  | .late shard found =>
    if shard < s.shards then
      some (s, walk, .late (shard + 1) (found ++ s.snapshots shard s.isRoot))
    else
      let late := newestFirst (found.filter fun root => !walk.reported.contains root.seq)
      if late = [] then some (s, walk, .foldRead)
      else
        some (s, { walk with reported := walk.reported ++ late.map Snapshot.seq }, nextRoot late)
  | .foldRead => some (s, walk, .foldStore (max walk.deadline (saturatingDeadline s.now 1)))
  | .foldStore floor =>
    let folded := s.currentSweepDeadline floor
    some ({ s with sweepDeadline := some folded }, { walk with folded := folded }, .list 0 [])
  | .list shard found =>
    if shard < s.shards then
      let fresh := s.snapshots shard fun entry => !walk.reported.contains entry.seq
      let armed := s.byId.filter fun entry =>
        s.shard entry.key == shard && !walk.reported.contains entry.seq && entry.abort
      some (s, { walk with
          issued := walk.issued ++ armed.map fun entry => ⟨.twoStage, entry.seq, entry.seq⟩ },
        .list (shard + 1) (found ++ fresh))
    else
      let walk := { walk with leftover := found }
      some (s, walk, .waits walk.startWaits [])
  | .waits [] waited => some (s, walk, .classify (inOrder waited) [])
  | .waits (_ :: _) _ => none
  | .classify ((target, true) :: rest) stragglers =>
    let report := (s.incarnations target.seq).leftoverReport false
      (s.currentSweepDeadline walk.folded)
    some (s, { walk with swept := walk.swept ++ [⟨target.seq, target.id, report, false⟩] },
      .classify rest stragglers)
  | .classify ((target, false) :: rest) stragglers =>
    some (s, walk, .classify rest (stragglers ++ [⟨target, false⟩]))
  | .classify [] stragglers =>
    some (s, walk, if stragglers = [] then .leave else .launch (some walk.folded) stragglers [])
  | .leave => if s.registering = 0 then some (s.leave true, walk, .finished) else none
  | .finished => none
  | .cutShort => none

/-- One step of a walk. -/
def step (stage : Stage) (input : WalkInput) : Option (Shared × Walk × Stage) :=
  match input with
  | .go => walk.go s stage
  | .timeout =>
    match stage with
    | .ladder root rest at_ => walk.ladderStep s root rest at_ .timeout
    | _ => none
  | .task k =>
    match stage with
    | .join sweep tasks => walk.forceStep s sweep tasks k false
    | .waits tasks waited =>
      tasks[k]?.bind fun task => (task.step s false).map fun next =>
        (s, walk, .waits (tasks.set k next) waited)
    | _ => none
  | .taskTimeout k =>
    match stage with
    | .join sweep tasks => walk.forceStep s sweep tasks k true
    | .waits tasks waited =>
      tasks[k]?.bind fun task => (task.step s true).map fun next =>
        (s, walk, .waits (tasks.set k next) waited)
    | _ => none
  | .taskFails k =>
    match stage with
    | .join sweep tasks =>
      tasks[k]?.bind fun task =>
        if task.isOver then none
        else some (s, walk, .join sweep (tasks.set k { task with stage := .failed }))
    | .waits tasks waited =>
      tasks[k]?.bind fun task =>
        match task.stage with
        | .ended _ => none
        | .failed => none
        | _ => some (s, walk, .waits (tasks.set k { task with stage := .failed }) waited)
    | _ => none
  | .join k =>
    match stage with
    | .join sweep tasks =>
      tasks[k]?.bind fun task =>
        if task.isOver then
          some (s, walk.joined sweep task (task.joinReport s sweep),
            .join sweep (tasks.eraseIdx k))
        else none
    | .waits tasks waited =>
      tasks[k]?.bind fun task =>
        match task.stage with
        | .ended ended =>
          some (s, walk,
            .waits (tasks.eraseIdx k) (waited ++ [(task.index, task.target, ended)]))
        | .failed =>
          some (s, walk,
            .waits (tasks.eraseIdx k) (waited ++ [(task.index, task.target, false)]))
        | _ => none
    | _ => none
  | .cut =>
    match stage with
    | .enter => none
    | .finished => none
    | .cutShort => none
    | _ => if s.registering = 0 then some (s.leave false, walk, .cutShort) else none

end Walk

/-! ## The steps of a walk, one by one -/

namespace Ladder

/-- How far the ladder of a root is: before its stop request, before its `Kill`, past it. -/
def pursued : Ladder → Nat
  | stop => 0
  | stopRaise _ => 1
  | stopTimer => 1
  | stopWait _ => 1
  | stopCut => 1
  | kill => 1
  | _ => 2

/-- The ladder begins, or a request of it is under way. -/
def acts : Ladder → Bool
  | stop => true
  | stopRaise _ => true
  | killRaise _ => true
  | _ => false

end Ladder

/-- The walk has entered and has not ended. -/
def Stage.inFlight : Stage → Bool
  | enter => false
  | finished => false
  | cutShort => false
  | _ => true

/-- The roots of a snapshot that were not reported yet. -/
def Walk.lateRoots (walk : Walk) (found : List Snapshot) : List Snapshot :=
  newestFirst (found.filter fun root => !walk.reported.contains root.seq)

set_option autoImplicit true in
open Walk in
/-- What one step of a walk does, and what made it possible. -/
inductive Walked (walk : Walk) (s : Shared) : Stage → WalkInput → Shared → Walk → Stage → Prop
  | enter (empty : s.registering = 0) : Walked walk s .enter .go s.enter
      { walk with era := s.era, flight := s.flight } (.snapshot 0 [])
  | visit : Walked walk s (.snapshot shard found) .go s walk
      (.snapshot (shard + 1) (found ++ s.snapshots shard s.isRoot))
  | board (all : s.shards ≤ shard) : Walked walk s (.snapshot shard found) .go s
      { walk with
        first := some (newestFirst found)
        reported := (newestFirst found).map Snapshot.seq } (nextRoot (newestFirst found))
  /-- A rung that touches nothing, as it has nothing to raise or the root's entry has left. -/
  | rung (step : ladder'.pursued = ladder.pursued ∨ s.idEntry root.id root.seq = none)
      (plain : ladder'.acts = false) :
      Walked walk s (.ladder root rest ladder) input s walk (.ladder root rest ladder')
  | stop (found : s.idEntry root.id root.seq = some entry) :
      Walked walk s (.ladder root rest .stop) .go s (walk.issue .stop entry.seq root.seq)
        (.ladder root rest (.stopRaise entry.seq))
  | ask : Walked walk s (.ladder root rest (.stopRaise lane)) .go
      (s.onIncarnation lane fun inc => inc.raise .parentRequest) walk (.ladder root rest .stopTimer)
  | kill (found : s.idEntry root.id root.seq = some entry) :
      Walked walk s (.ladder root rest .kill) .go s (walk.issue .kill entry.seq root.seq)
        (.ladder root rest (.killRaise ⟨.id root.id, entry.seq, none, .clock, 0, none, false⟩))
  | raise (taken : raiser.step s = some (s', raiser')) :
      Walked walk s (.ladder root rest (.killRaise raiser)) .go s' walk
        (.ladder root rest (.killRaise raiser'))
  | abort (found : s.idEntry root.id root.seq = some entry) :
      Walked walk s (.ladder root rest (.abort raised)) .go s
        (walk.issue .abort entry.seq root.seq) (.ladder root rest (.abortTimer raised))
  | report (seen : ladder.pursued ≠ 0 ∧ (s.incarnations root.seq).terminal = true ∨
        ladder.pursued = 2 ∧ report = unresponsive) :
      Walked walk s (.ladder root rest ladder) input s (walk.ladderReport root report)
        (nextRoot rest)
  | cutLadder : Walked walk s (.ladder root rest ladder) .go s walk (cutLadder root rest raised)
  | launched : Walked walk s (.launch sweep [] tasks) .go s walk (.join sweep tasks)
  /-- The target's entry has left: its task is spawned without a request. -/
  | spawn : Walked walk s (.launch sweep (target :: rest) tasks) .go s walk
      (.launch sweep rest (tasks ++
        [⟨target.snapshot, requested target.killRaised, target.killRaised, none, .timer⟩]))
  | sight (found : s.idEntry target.snapshot.id target.snapshot.seq = some entry) :
      Walked walk s (.launch sweep (target :: rest) tasks) .go s
        (walk.issue .kill entry.seq target.snapshot.seq) (.launchRaise sweep target rest tasks
          ⟨.id target.snapshot.id, entry.seq, none, .clock, 0, none, false⟩)
  | press (taken : raiser.step s = some (s', raiser')) :
      Walked walk s (.launchRaise sweep target rest tasks raiser) .go s' walk
        (.launchRaise sweep target rest tasks raiser')
  | accept (accepted : raiser.accepted = true) :
      Walked walk s (.launchRaise sweep target rest tasks raiser) .go s walk
        (.launch sweep rest (tasks ++ [⟨target.snapshot, requested true, true,
          if raiser.abort then some raiser.seq else none, .timer⟩]))
  | refuse : Walked walk s (.launchRaise sweep target rest tasks raiser) .go s walk
      (.launchAbort sweep target rest tasks)
  | fetch (own : ∀ seq, handle = some seq → seq = target.snapshot.seq) :
      Walked walk s (.launchAbort sweep target rest tasks) .go s walk (.launch sweep rest (tasks ++
        [⟨target.snapshot, requested target.killRaised, target.killRaised, handle, .timer⟩]))
  | force (found : tasks[k]? = some task) (taken : task.step s fired = some task') :
      Walked walk s (.join sweep tasks) input s walk (.join sweep (tasks.set k task'))
  | forceAbort (found : tasks[k]? = some task) (taken : task.step s fired = some task')
      (held : task.abort = some handle) :
      Walked walk s (.join sweep tasks) input s (walk.issue .abort handle task.target.seq)
        (.join sweep (tasks.set k task'))
  | forceFails (found : tasks[k]? = some task) : Walked walk s (.join sweep tasks) (.taskFails k) s
      walk (.join sweep (tasks.set k { task with stage := .failed }))
  | join (found : tasks[k]? = some task) : Walked walk s (.join sweep tasks) (.join k) s
      (walk.joined sweep task (task.joinReport s sweep)) (.join sweep (tasks.eraseIdx k))
  | rooted : Walked walk s (.join none []) .go s walk (.late 0 [])
  | forced : Walked walk s (.join (some due) []) .go s walk .leave
  | look : Walked walk s (.late shard found) .go s walk
      (.late (shard + 1) (found ++ s.snapshots shard s.isRoot))
  | noneLate : Walked walk s (.late shard found) .go s walk .foldRead
  | late (some_ : walk.lateRoots found ≠ []) : Walked walk s (.late shard found) .go s
      { walk with reported := walk.reported ++ (walk.lateRoots found).map Snapshot.seq }
      (nextRoot (walk.lateRoots found))
  | foldRead : Walked walk s .foldRead .go s walk
      (.foldStore (max walk.deadline (saturatingDeadline s.now 1)))
  | foldStore : Walked walk s (.foldStore floor) .go
      { s with sweepDeadline := some (s.currentSweepDeadline floor) }
      { walk with folded := s.currentSweepDeadline floor } (.list 0 [])
  | list : Walked walk s (.list shard found) .go s
      { walk with
        issued := walk.issued ++ (s.byId.filter fun entry => s.shard entry.key == shard &&
          !walk.reported.contains entry.seq && entry.abort).map
            fun entry => ⟨.twoStage, entry.seq, entry.seq⟩ }
      (.list (shard + 1) (found ++ s.snapshots shard
        fun entry => !walk.reported.contains entry.seq))
  | listed (all : s.shards ≤ shard) : Walked walk s (.list shard found) .go s
      { walk with leftover := found }
        (.waits ({ walk with leftover := found } : Walk).startWaits [])
  | wait (found : tasks[k]? = some task) (taken : Wait.step task s fired = some task') :
      Walked walk s (.waits tasks waited) input s walk (.waits (tasks.set k task') waited)
  | waitFails (found : tasks[k]? = some task) : Walked walk s (.waits tasks waited) (.taskFails k) s
      walk (.waits (tasks.set k { task with stage := .failed }) waited)
  | waited (found : tasks[k]? = some task)
      (ends : task.stage = .ended ended ∨ task.stage = .failed) :
      Walked walk s (.waits tasks waited) (.join k) s walk
        (.waits (tasks.eraseIdx k) (waited ++ [(task.index, task.target, ended)]))
  | sort : Walked walk s (.waits [] waited) .go s walk (.classify (inOrder waited) [])
  | ended : Walked walk s (.classify ((target, true) :: rest) stragglers) .go s
      { walk with
        swept := walk.swept ++ [⟨target.seq, target.id, (s.incarnations target.seq).leftoverReport
          false (s.currentSweepDeadline walk.folded), false⟩] } (.classify rest stragglers)
  | straggler : Walked walk s (.classify ((target, false) :: rest) stragglers) .go s walk
      (.classify rest (stragglers ++ [⟨target, false⟩]))
  | classified : Walked walk s (.classify [] []) .go s walk .leave
  | forceOn (some_ : stragglers ≠ []) : Walked walk s (.classify [] stragglers) .go s walk
      (.launch (some walk.folded) stragglers [])
  | leave (empty : s.registering = 0) : Walked walk s .leave .go (s.leave true) walk .finished
  | cut (empty : s.registering = 0) (flying : stage.inFlight = true) :
      Walked walk s stage .cut (s.leave false) walk .cutShort

theorem Shared.seq_of_idEntry {s : Shared} {id : ActorId} {seq : Seq} {entry : Entry ActorId}
    (hentry : s.idEntry id seq = some entry) : entry.seq = seq := by
  simpa using (Option.filter_eq_some_iff.mp hentry).2

namespace Walk

variable {walk walk' : Walk} {s s' : Shared} {stage stage' : Stage} {input : WalkInput}

theorem walked_ladder {root : Snapshot} {rest : List Snapshot} {ladder : Ladder}
    (htaken : walk.ladderStep s root rest ladder input = some (s', walk', stage')) :
    Walked walk s (.ladder root rest ladder) input s' walk' stage' := by
  unfold ladderStep at htaken
  split at htaken
  all_goals try dsimp only at htaken
  all_goals try split at htaken
  all_goals cases htaken
  all_goals first
    | exact .rung (.inl rfl) rfl
    | exact .rung (.inr ‹_›) rfl
    | exact .stop ‹_›
    | exact .ask
    | exact .kill ‹_›
    | exact .raise ‹_›
    | exact .report (.inl ⟨nofun, ‹_›⟩)
    | exact .report (.inr ⟨rfl, rfl⟩)
    | exact .cutLadder
    | (split <;> first | exact .abort ‹_› | exact .rung (.inl rfl) rfl)

theorem walked_go (htaken : walk.go s stage = some (s', walk', stage')) :
    Walked walk s stage .go s' walk' stage' := by
  cases stage with
  | ladder => exact walked_ladder htaken
  | launch sweep targets =>
    cases targets with
    | nil =>
      cases htaken
      exact .launched
    | cons =>
      simp only [go, launchStep, Option.some.injEq] at htaken
      split at htaken <;> cases htaken
      · exact .spawn
      · exact .sight ‹_›
  | launchAbort =>
    cases htaken
    refine .fetch fun seq hhandle => ?_
    split at hhandle
    · split at hhandle <;> cases hhandle
      exact Shared.seq_of_idEntry ‹_›
    · cases hhandle
  | join sweep tasks =>
    cases tasks <;> cases htaken
    cases sweep <;> constructor
  | waits tasks =>
    cases tasks <;> cases htaken
    constructor
  | classify waited stragglers =>
    rcases waited with _ | ⟨⟨target, _ | _⟩, rest⟩ <;> cases htaken
    · cases stragglers
      · exact .classified
      · exact .forceOn nofun
    · exact .straggler
    · exact .ended
  | finished | cutShort => cases htaken
  | _ =>
    simp only [go, launchRaised] at htaken
    try split at htaken
    all_goals try split at htaken
    all_goals cases htaken
    all_goals first
      | exact .enter ‹_›
      | exact .leave ‹_›
      | exact .board (Nat.le_of_not_lt ‹_›)
      | exact .listed (Nat.le_of_not_lt ‹_›)
      | exact .press ‹_›
      | exact .accept ‹_›
      | exact .late ‹_›
      | constructor

/-- A step of a walk is one of these. -/
theorem walked (htaken : walk.step s stage input = some (s', walk', stage')) :
    Walked walk s stage input s' walk' stage' := by
  cases input with
  | go => exact walked_go htaken
  | timeout =>
    cases stage with
    | ladder => exact walked_ladder htaken
    | _ => cases htaken
  | task | taskTimeout =>
    cases stage with
    | join | waits =>
      obtain ⟨task, hfound, hmap⟩ := Option.bind_eq_some_iff.mp htaken
      obtain ⟨task', hstep, heq⟩ := Option.map_eq_some_iff.mp hmap
      cases heq
      first
        | exact .wait hfound hstep
        | (split <;> first | exact .forceAbort hfound hstep ‹_› | exact .force hfound hstep)
    | _ => cases htaken
  | taskFails | join =>
    cases stage with
    | join | waits =>
      obtain ⟨task, hfound, hrest⟩ := Option.bind_eq_some_iff.mp htaken
      split at hrest <;> cases hrest
      all_goals first
        | exact .forceFails hfound
        | exact .waitFails hfound
        | exact .join hfound
        | exact .waited hfound (.inl ‹_›)
        | exact .waited hfound (.inr ‹_›)
    | _ => cases htaken
  | cut =>
    simp only [step] at htaken
    split at htaken
    any_goals cases htaken
    split at htaken <;> cases htaken
    refine .cut ‹_› ?_
    cases stage <;> first | rfl | contradiction

end Walk

end TokioActors.System
