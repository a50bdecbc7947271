/-
# The supervisor as a machine

A supervisor's run, from its start hooks through its message loop, the final
collection and deliveries, `on_stopped` and the teardown of its children. The
state says where the run is and which manual call a callback waits in; a label
says what the machine does not decide itself: which event happens next, what a
callback does, how user code answers.

A manual call borrows the supervisor's context, so nothing of the loop runs
while a call waits; the planes go on.
-/

import TokioActors.Lib.Reach
import TokioActors.Supervision.Planes

namespace TokioActors

open SupervisionState (Delivery StopProgress)

/-- A manual call that waits. -/
inductive Call
  /-- A manual stop waits for the end of the incarnation; `asked` is the call's
  own kind and `kind` the one it acts with. -/
  | joining (id : ActorId) (n : Token) (asked kind : ManualStop)
  /-- A terminate waits for the subtree of the child. -/
  | subtree (id : ActorId) (predecessor : Token) (asked : ManualStop)
  /-- A spawn waits for the subtree of a removed child. -/
  | spawning (id : ActorId) (name : Option String) (restartType : RestartType)
      (shutdown : Shutdown) (predecessor : Token)
  deriving DecidableEq, Repr

/-- A collected report, with the name its delivery carries. -/
structure Collected where
  report : Report
  name : Option String
  deriving DecidableEq, Repr

/-- Where the final collection is. -/
inductive CollectStage
  | runners
  | attempts
  | restartPlane
  | deathPlane
  deriving DecidableEq, Repr

/-- The final collection: the tasks it awaits, and what it collected. -/
structure Collect where
  stage : CollectStage := .runners
  runners : List Token
  attempts : List Token
  adopted : List Token := []
  out : List Collected := []
  deriving DecidableEq, Repr

/-- One stop the teardown waits for. -/
structure StopWait where
  id : ActorId
  token : Token
  attempt : Bool
  deriving DecidableEq, Repr

/-- Where the supervisor's run is. -/
inductive Phase
  /-- A start hook runs. -/
  | starting
  /-- The message loop waits for its next event. -/
  | select
  /-- A message handler runs. -/
  | turn
  /-- The worklist holds the reports. -/
  | work (reports : List Report)
  /-- `on_child_stopped` runs for the end of `n`. -/
  | deliver (event : ChildEvent) (n : Token) (cont : Cont)
  | collect (collect : Collect)
  /-- Between two final deliveries. -/
  | final (rest : List Collected)
  /-- `on_child_stopped` runs for a collected report. -/
  | finalDeliver (rest : List Collected)
  /-- `on_stopped` runs. -/
  | hook
  /-- The teardown has still to reach the ids and waits for the stops. -/
  | teardown (order : List ActorId) (waits : List StopWait)
  | stopped (byKill : Bool)
  deriving DecidableEq, Repr

/-- Whether user code runs that can make a manual call. -/
def Phase.callback : Phase → Bool
  | .starting => true
  | .turn => true
  | .deliver _ _ _ => true
  | .finalDeliver _ => true
  | .hook => true
  | _ => false

structure Sys where
  sup : SupervisionState
  phase : Phase := .starting
  call : Option Call := none
  /-- A `Kill` is stored on the supervisor's own lane. -/
  killed : Bool := false

/-- A manual call, or what becomes of one that waits. -/
inductive CallAction
  | stopChild (id : ActorId)
  | terminateChild (id : ActorId)
  | restartChild (id : ActorId)
  | deleteChild (id : ActorId)
  /-- `spawn_child` under a name; `built` is whether the spawn succeeds. -/
  | spawnNamed (id : ActorId) (name : String) (restartType : RestartType) (shutdown : Shutdown)
      (built : Bool)
  /-- `spawn_child` without a name, under a fresh id. -/
  | spawnUnnamed (id : ActorId) (restartType : RestartType) (shutdown : Shutdown)
  /-- The wait of the pending call settles. -/
  | resume (built : Bool)
  /-- The wait for a subtree outlives its bound. -/
  | escalate
  /-- The callback drops the pending call. -/
  | abandon
  deriving DecidableEq, Repr

inductive LoopAction
  /-- The loop drains the restart plane's task of the incarnation. -/
  | pollRestart (n : Token)
  | pollDeath (n : Token)
  | pollVerdict
  | pollForwarder
  | beginTurn
  /-- One turn of the worklist; `drop` is the panic of a removed factory. -/
  | work (drop : Option String)
  /-- The callback that runs returns. -/
  | return (error : Option ActorError)
  /-- The loop ends for a reason of its own: a stop request, a closed mailbox. -/
  | leave
  deriving DecidableEq, Repr

inductive EndAction
  | collectDeath (n : Token)
  | collectRestart (n : Token)
  | collectNext
  | deliverFinal
  | teardownNext
  | teardownRestart (n : Token)
  /-- The run reads the `Kill` on its lane. -/
  | observeKill
  deriving DecidableEq, Repr

inductive Action
  | env (action : EnvAction)
  | kill
  | call (action : CallAction)
  | loop (action : LoopAction)
  | finish (action : EndAction)
  deriving DecidableEq, Repr

namespace Sys

variable (s : Sys) (sup : SupervisionState) (id : ActorId) (n : Token)

/-! ## Manual calls -/

/-- A manual stop whose wait is over: one that acts as a terminate goes on to
wait for the child's subtree. -/
def afterStop (asked kind : ManualStop) : Sys :=
  let returned :=
    if asked = .terminate then { s with sup := s.sup.note (.terminated id), call := none }
    else { s with call := none }
  if kind = .terminate then
    match s.sup.predecessorOf id with
    | some p =>
      if (s.sup.slots p).gone then returned else { s with call := some (.subtree id p asked) }
    | none => returned
  else returned

/-- `stop_child` or `terminate_child`. -/
def manualStop (asked : ManualStop) : Sys :=
  if s.sup.finalDelivery then s
  else
    let decided := s.sup.manualStopDecided id asked
    let acted := { s with sup := decided.1.1 }
    match decided.1.2 with
    | .answered .ok => acted.afterStop id asked decided.2
    | .answered _ => acted
    | .joining n => { acted with call := some (.joining id n asked decided.2) }

/-- An id no incarnation was ever spawned under. -/
def unusedId : Bool :=
  (sup.registry.get id).isNone &&
    (List.range sup.nextIncarnation).all fun n =>
      !(sup.slots n).published || (sup.slots n).owner != id

/-- `spawn_child` under a name. -/
def spawnNamed (name : String) (restartType : RestartType)
    (shutdown : Shutdown) (built : Bool) : Sys :=
  if s.sup.finalDelivery ∨ (s.sup.registry.get id).isSome then s
  else
    match s.sup.retiredSubtree id with
    | some p => { s with call := some (.spawning id (some name) restartType shutdown p) }
    | none =>
      if built then
        { s with sup := s.sup.spawnChildInternal id (some name) restartType shutdown }
      else s

/-- The wait of the pending call settles. -/
def resumeCall (built : Bool) : Call → Option Sys
  | .joining id n asked kind =>
    match awaitCell (s.sup.slots n) with
    | some (.fate reason) =>
      some ({ s with sup := s.sup.finishManualStop id n kind reason }.afterStop id asked kind)
    | some .unresponsive => some { s with call := none }
    | some .cancelled => some (s.afterStop id asked kind)
    | some .noIncarnation => some (s.afterStop id asked kind)
    | none => none
  | .subtree id p asked =>
    if (s.sup.slots p).gone then
      some { s with
        sup := if asked = .terminate then s.sup.note (.terminated id) else s.sup
        call := none }
    else none
  | .spawning id name restartType shutdown p =>
    if (s.sup.slots p).gone then
      some { s with
        sup :=
          if built ∧ (s.sup.registry.get id).isNone then
            s.sup.spawnChildInternal id name restartType shutdown
          else s.sup
        call := none }
    else none

/-- The bound of a subtree wait passes: the call fails, and the verdict is set. -/
def escalateCall : Call → Option Sys
  | .joining _ _ _ _ => none
  | .subtree _ p _ =>
    some { s with
      sup := (s.sup.updateSlot p fun slot => { slot with lost := true }).note (.unresponsive p)
      call := none }
  | .spawning _ _ _ _ p =>
    some { s with
      sup := (s.sup.updateSlot p fun slot => { slot with lost := true }).note (.unresponsive p)
      call := none }

/-- A manual call of the running callback, or an event of the one that waits. -/
def callStep (action : CallAction) : Option Sys :=
  if s.phase.callback then
    match s.call, action with
    | none, .stopChild id => some (s.manualStop id .bounce)
    | none, .terminateChild id => some (s.manualStop id .terminate)
    | none, .restartChild id =>
      some (if s.sup.finalDelivery then s else { s with sup := (s.sup.restartChild id).1 })
    | none, .deleteChild id =>
      some (if s.sup.finalDelivery then s else { s with sup := (s.sup.deleteChild id).1 })
    | none, .spawnNamed id name restartType shutdown built =>
      some (s.spawnNamed id name restartType shutdown built)
    | none, .spawnUnnamed id restartType shutdown =>
      if s.sup.finalDelivery = false ∧ unusedId s.sup id then
        some { s with sup := s.sup.spawnChildInternal id none restartType shutdown }
      else none
    | some call, .resume built => s.resumeCall built call
    | some call, .escalate => s.escalateCall call
    | some _, .abandon => some { s with call := none }
    | _, _ => none
  else none

/-! ## The end of the loop -/

/-- The tasks the final collection awaits: runners of incarnations that ended or
that the ledger moved past, and attempts whose incarnation ended. -/
def awaitedRunner (task : DeathTask) : Bool :=
  match sup.registry.get task.childId with
  | some child =>
    if child.lifecycle.occupant = some task.incarnation then
      (sup.slots child.ctl).statusEnded
    else true
  | none => true

def awaitedAttempt (task : RestartTask) : Bool :=
  match sup.registry.get task.childId with
  | some child =>
    child.lifecycle.isRestarting && child.lifecycle.heldToken == task.incarnation &&
      (sup.slots child.ctl).statusEnded
  | none => false

/-- The loop ends: what its worklist still holds stays owed, and the final
collection begins. -/
def endLoop (work : List Report) : Sys :=
  { s with
    sup := { s.sup with owed := s.sup.owed ++ work, log := .loopEnded :: s.sup.log }
    phase := .collect
      { runners := (s.sup.deathSet.filter (awaitedRunner s.sup)).map DeathTask.incarnation
        attempts := (s.sup.restartSet.filter (awaitedAttempt s.sup)).map
          RestartTask.incarnation } }

/-- How a turn of the worklist goes on. -/
def proceed : SupervisionState × Next → Sys
  | (sup, .loop work) => { s with sup := sup, phase := .work work }
  | (sup, .deliver event n cont) =>
    { s with
      sup := sup.note (.delivered event n (sup.restartStands event.childId n))
      phase := .deliver event n cont }
  | (sup, .halt _ work) => { s with sup := sup }.endLoop work

/-! ## Outcomes of the planes -/

/-- Puts the entry of an attempt that ended with nothing to report down. -/
def recordCancelled : SupervisionState :=
  match sup.registry.life id with
  | some (.restarting _ next) =>
    (if next = n then sup.transition id (.down n .none) else sup).note (.cancelled id n)
  | _ => sup.note (.cancelled id n)

/-- The ledger holds the attempt. -/
def accepts : Bool :=
  match sup.registry.life id with
  | some (.restarting _ next) => next == n
  | _ => false

/-- Makes an adopted attempt the running incarnation, with its runner. -/
def recordAdopted : SupervisionState :=
  let running : SupervisionState :=
    { sup with deathSet := sup.deathSet ++ [⟨id, n, .runner, none⟩] }
  ((running.transition id (.running n)).noteSubtree id).note (.adopted id n)

/-- Adopts an attempt in the loop: a stop phase that restarts the member keeps
waiting for it, and a chain whose front it is goes on. -/
def adoptRestart : SupervisionState × List Report :=
  if accepts sup id n then
    let adopted := recordAdopted sup id n
    match adopted.pendingGroup with
    | some (.stopping group) =>
      if id ∈ group.restartOrder then
        (adopted.withStopping { group with awaiting := group.awaiting.insert id n }, [])
      else (adopted, [])
    | some (.restarting chain) =>
      if chain.queue.head? = some id then adopted.advanceAndInitiate [] else (adopted, [])
    | none => (adopted, [])
  else (sup, [])

/-- The barrier and the chain after an attempt that was cancelled. -/
def cancelAttempt : SupervisionState × List Report :=
  let settled := (recordCancelled sup id n).settleBarrier id n
  let advanced := if settled.2 then settled.1.advanceGroupStop else (settled.1, none)
  match advanced.2 with
  | some start => advanced.1.startRestartChain start []
  | none => (advanced.1, [])

/-- The loop handles the outcome of an attempt. -/
def handleRestartOutcome : RestartOutcome → Sys
  | .adopted =>
    let adopted := adoptRestart s.sup id n
    { s with sup := adopted.1, phase := .work adopted.2 }
  | .failed reason => { s with sup := s.sup.note (.taken id n), phase := .work [⟨id, reason, n⟩] }
  | .stopped reason => { s with sup := s.sup.note (.taken id n), phase := .work [⟨id, reason, n⟩] }
  | .cancelled dropPanic =>
    let cancelled := cancelAttempt s.sup id n
    match dropPanic with
    | some _ => { s with sup := cancelled.1 }.endLoop cancelled.2
    | none => { s with sup := cancelled.1, phase := .work cancelled.2 }
  | .predecessorUnresponsive => { s with sup := recordCancelled s.sup id n }.endLoop []

/-- A pending group that can go on only through unresponsive members ends the
loop. -/
def checkVerdicts : Option ActorId :=
  match sup.pendingGroup with
  | none => none
  | some (.stopping group) =>
    barrierBlockedOnlyByVerdicts (sup.registry.filterMap fun child =>
      match group.awaiting.lookup child.id with
      | some awaited =>
        some (child.id, child.ctl == awaited && (sup.slots child.ctl).isUnresponsive)
      | none => none).reverse
  | some (.restarting chain) =>
    match chain.queue.head? with
    | none => none
    | some front =>
      match sup.registry.get front with
      | none => none
      | some child =>
        if child.lifecycle.isRestarting ∧
            chain.started.lookup front = some child.lifecycle.heldToken then
          barrierBlockedOnlyByVerdicts [(front, (sup.slots child.ctl).isUnresponsive)]
        else none

/-- The loop drains a finished restart-plane task. -/
def pollRestart : Option Sys :=
  match s.sup.restartTask n with
  | none => none
  | some task =>
    match task.result with
    | none => none
    | some (.returned outcome) =>
      some ({ s with sup := s.sup.dropAttempt task }
        |>.handleRestartOutcome task.childId n outcome)
    | some (.failed panic) =>
      let lost := s.sup.lostRestartTask task panic
      match lost.2 with
      | some outcome => some ({ s with sup := lost.1 }.handleRestartOutcome task.childId n outcome)
      | none => some { s with sup := lost.1, phase := .work [] }

/-- The loop drains a finished death-plane task. -/
def pollDeath : Option Sys :=
  match s.sup.deathTask n with
  | none => none
  | some task =>
    match task.result with
    | none => none
    | some (.returned reason) =>
      some { s with
        sup := { s.sup with deathSet := s.sup.deathSet.erase task }.note
          (.taken task.childId n)
        phase := .work [⟨task.childId, reason, n⟩] }
    | some (.failed panic) =>
      some { s with sup := s.sup.lostDeathTask task panic, phase := .work [] }

/-- How the loop goes on after `on_child_stopped` returned. -/
def afterDelivery (error : Option ActorError) : Cont → Sys
  | .next work =>
    match error with
    | none => { s with phase := .work work }
    | some _ => s.endLoop work
  | .exhausted work => s.endLoop work
  | .absorbed rest trigger name commit work =>
    match error with
    | none => s.proceed (s.sup.deliverAbsorbed rest trigger name commit work)
    | some _ =>
      let owing := s.sup.oweDeliveries rest
      { s with sup := { owing with owed := trigger :: owing.owed } }.endLoop work
  | .retried rest work =>
    match error with
    | none => s.proceed (s.sup.deliverRetried rest work)
    | some _ => { s with sup := s.sup.oweDeliveries rest }.endLoop work

/-- The teardown begins: the factories go, and nothing of a group is left. -/
def beginTeardown : Sys :=
  { s with
    sup := { s.sup with restartFns := ∅, pendingGroup := none, queuedTriggers := [] }
    phase := .teardown s.sup.registry.ids.reverse [] }

/-- The callback that runs returns. -/
def returnStep (error : Option ActorError) : Option Sys :=
  match s.phase with
  | .starting =>
    match error with
    | none => some { s with phase := .select }
    | some _ => some s.beginTeardown
  | .turn =>
    match error with
    | none => some { s with phase := .select }
    | some _ => some (s.endLoop [])
  | .deliver _ _ cont => some (s.afterDelivery error cont)
  | .finalDeliver rest =>
    some { s with sup := { s.sup with finalDelivery := false }, phase := .final rest }
  | .hook => if s.killed then some { s with phase := .stopped true } else some s.beginTeardown
  | _ => none

/-- One step of the message loop. -/
def loopStep : LoopAction → Option Sys
  | .pollRestart n => if s.phase = .select then s.pollRestart n else none
  | .pollDeath n => if s.phase = .select then s.pollDeath n else none
  | .pollVerdict =>
    if s.phase = .select then some { s with sup := s.sup.advanceStopQueue, phase := .work [] }
    else none
  | .pollForwarder => if s.phase = .select then some { s with phase := .work [] } else none
  | .beginTurn => if s.phase = .select then some { s with phase := .turn } else none
  | .work drop =>
    match s.phase with
    | .work [] =>
      match checkVerdicts s.sup with
      | some _ => some (s.endLoop [])
      | none => some { s with phase := .select }
    | .work (ev :: work) => some (s.proceed (s.sup.handleReport ev work drop))
    | _ => none
  | .return error => if s.call = none then s.returnStep error else none
  | .leave => if s.phase = .select then some (s.endLoop []) else none

/-! ## The final collection, the final deliveries and the teardown -/

/-- Records, with no delivery, that an end was collected. -/
def recordCollectedEnd : SupervisionState :=
  let recorded :=
    if (sup.registry.life id).map ChildLifecycle.heldToken = some n then
      sup.transition id (.down n .none)
    else sup
  ({ recorded with
    pendingManualEvents := recorded.pendingManualEvents.erase (id, n) }.settleBarrier id n).1

/-- The name a collected report is delivered with. -/
def collectedName (report : Report) : Option String :=
  let key := (report.childId, report.incarnation)
  (sup.nameOf report.childId).or
    (((sup.pendingManualEvents.lookup key).bind ChildEvent.childName).or
      (sup.owedNames.lookup key))

/-- Collects a report. -/
def collectReport (out : List Collected) (report : Report) : SupervisionState × List Collected :=
  (recordCollectedEnd sup report.childId report.incarnation,
    out ++ [⟨report, collectedName sup report⟩])

/-- Collects the reports in order. -/
def collectReports (out : List Collected) (reports : List Report) :
    SupervisionState × List Collected :=
  reports.foldl (fun acc report => collectReport acc.1 acc.2 report) (sup, out)

/-- Takes a report in the final collection. -/
def takeFinal (c : Collect) (report : Report) : Sys :=
  let collected := collectReport (s.sup.note (.taken report.childId report.incarnation)) c.out
    report
  { s with sup := collected.1, phase := .collect { c with out := collected.2 } }

/-- The collection drains a finished death-plane task. -/
def collectDeath (c : Collect) (n : Token) : Option Sys :=
  match s.sup.deathTask n with
  | none => none
  | some task =>
    match task.result with
    | none => none
    | some (.returned reason) =>
      some ({ s with sup := { s.sup with deathSet := s.sup.deathSet.erase task } }.takeFinal
        { c with runners := c.runners.erase n, adopted := c.adopted.erase n }
        ⟨task.childId, reason, n⟩)
    | some (.failed panic) =>
      let awaits := s.sup.awaitsReplacement task.childId n
      let again (awaited : List Token) : List Token :=
        if awaits then awaited.erase n ++ [n] else awaited.erase n
      some { s with
        sup := s.sup.lostDeathTask task panic
        phase := .collect
          (if c.stage = .runners then { c with runners := again c.runners }
          else { c with adopted := again c.adopted }) }

/-- The collection takes the outcome of an attempt. -/
def collectRestartOutcome (c : Collect) (id : ActorId) (n : Token) : RestartOutcome → Sys
  | .adopted =>
    if accepts s.sup id n then
      let adopted := recordAdopted s.sup id n
      { s with
        sup := adopted
        phase := .collect
          (if (adopted.slots n).statusEnded then { c with adopted := c.adopted ++ [n] } else c) }
    else { s with phase := .collect c }
  | .failed reason => s.takeFinal c ⟨id, reason, n⟩
  | .stopped reason => s.takeFinal c ⟨id, reason, n⟩
  | .cancelled _ => { s with sup := recordCancelled s.sup id n, phase := .collect c }
  | .predecessorUnresponsive => { s with sup := recordCancelled s.sup id n, phase := .collect c }

/-- The collection drains a finished restart-plane task. -/
def collectRestart (c : Collect) (n : Token) : Option Sys :=
  match s.sup.restartTask n with
  | none => none
  | some task =>
    let awaiting := { c with attempts := c.attempts.erase n }
    match task.result with
    | none => none
    | some (.returned outcome) =>
      some ({ s with sup := s.sup.dropAttempt task }
        |>.collectRestartOutcome awaiting task.childId n outcome)
    | some (.failed panic) =>
      let lost := s.sup.lostRestartTask task panic
      match lost.2 with
      | some outcome =>
        some ({ s with sup := lost.1 }.collectRestartOutcome awaiting task.childId n outcome)
      | none =>
        some { s with
          sup := lost.1
          phase := .collect
            (if s.sup.awaitsReplacement task.childId n then
              { awaiting with adopted := awaiting.adopted ++ [n] }
            else awaiting) }

/-- The collection goes on to its next stage: after the tasks it awaits, it takes
what the loop left, then what the planes hold. -/
def collectNext (c : Collect) : Option Sys :=
  match c.stage with
  | .runners =>
    if c.runners = [] ∨ s.sup.deathSet = [] then
      some { s with phase := .collect { c with stage := .attempts } }
    else none
  | .attempts =>
    if c.attempts = [] ∨ s.sup.restartSet = [] then
      let collected := collectReports { s.sup with owed := [], queuedTriggers := [] } c.out
        (s.sup.owed ++ s.sup.queuedTriggers)
      some { s with
        sup := collected.1
        phase := .collect { c with stage := .restartPlane, out := collected.2 } }
    else none
  | .restartPlane =>
    if s.sup.restartSet.all fun task => task.result.isNone then
      some { s with phase := .collect { c with stage := .deathPlane } }
    else none
  | .deathPlane =>
    if (c.adopted = [] ∨ s.sup.deathSet = []) ∧
        s.sup.deathSet.all (fun task => task.result.isNone) then
      some { s with sup := { s.sup with pendingGroup := none }, phase := .final c.out }
    else none

/-- The next final delivery, or `on_stopped` after the last one. Each is preceded
by a read of the supervisor's own lane. -/
def deliverFinal : List Collected → Sys
  | [] => if s.killed then { s with phase := .stopped true } else { s with phase := .hook }
  | ⟨report, name⟩ :: rest =>
    if s.killed then { s with phase := .stopped true }
    else
      { s with
        sup := { s.sup with finalDelivery := true }.note
          (.delivered ⟨report.childId, name, report.reason, .supervisorStopping⟩
            report.incarnation (s.sup.restartStands report.childId report.incarnation))
        phase := .finalDeliver rest }

/-- Orders one child to stop in the teardown; the answer is the wait for it. -/
def beginChildStop : SupervisionState × Option StopWait :=
  match sup.registry.get id with
  | none => (sup, none)
  | some child =>
    let slot := sup.slots child.ctl
    let ask := child.shutdown == .infinity && slot.laneVetoable && slot.taskState != .ended
    let asked (sup : SupervisionState) (ask : Bool) : SupervisionState :=
      if ask then sup.updateSlot child.ctl Slot.askAgain else sup
    match child.lifecycle with
    | .running n =>
      if slot.hasOrder then (asked sup ask, some ⟨id, n, false⟩)
      else
        (sup.updateSlot child.ctl fun slot => slot.orderStop child.shutdown true sup.now,
          some ⟨id, n, false⟩)
    | .stopping n _ => (asked sup ask, some ⟨id, n, false⟩)
    | .restarting _ next =>
      (asked (sup.updateSlot child.ctl fun slot => slot.orderStop child.shutdown false sup.now)
        (slot.hasOrder && (slot.published && slot.pastInit) && ask), some ⟨id, next, true⟩)
    | .down _ _ => (sup, none)

/-- The stop the teardown waits for is over. -/
def stopSettled (wait : StopWait) : Bool :=
  match awaitCell (sup.slots wait.token) with
  | none => false
  | some outcome =>
    !wait.attempt || outcome == .unresponsive ||
      !sup.restartSet.any fun task =>
        task.childId == wait.id && task.incarnation == wait.token

/-- Orders the children of a pool to stop, all at once. -/
def beginPoolStop (order : List ActorId) : SupervisionState × List StopWait :=
  order.foldl
    (fun acc id =>
      let begun := beginChildStop acc.1 id
      (begun.1, acc.2 ++ begun.2.toList))
    (sup, [])

/-- The teardown goes on once the stops it waits for are over: a pool's children
all at once, any other supervisor's one at a time, newest first. -/
def teardownNext (order : List ActorId) (waits : List StopWait) : Option Sys :=
  if waits.all (stopSettled s.sup) then
    match order with
    | [] => some { s with phase := .stopped s.killed }
    | id :: rest =>
      if s.sup.pool then
        let begun := beginPoolStop s.sup (id :: rest)
        some { s with sup := begun.1, phase := .teardown [] begun.2 }
      else
        let begun := beginChildStop s.sup id
        some { s with sup := begun.1, phase := .teardown rest begun.2.toList }
  else none

/-- Records an attempt's outcome in the teardown: nothing is delivered. -/
def teardownOutcome : RestartOutcome → SupervisionState
  | .adopted => if accepts sup id n then recordAdopted sup id n else sup
  | .failed _ => recordCollectedEnd sup id n
  | .stopped _ => recordCollectedEnd sup id n
  | .cancelled _ => recordCancelled sup id n
  | .predecessorUnresponsive => recordCancelled sup id n

/-- The teardown drains a finished restart-plane task. -/
def teardownRestart (order : List ActorId) (waits : List StopWait) (n : Token) : Option Sys :=
  match s.sup.restartTask n with
  | none => none
  | some task =>
    -- The wait for an attempt that was drained goes on for its cell alone.
    let drained : Phase := .teardown order (waits.map fun wait =>
      if wait.id = task.childId ∧ wait.token = n then { wait with attempt := false } else wait)
    match task.result with
    | none => none
    | some (.returned outcome) =>
      some { s with
        sup := teardownOutcome (s.sup.dropAttempt task)
          task.childId n outcome
        phase := drained }
    | some (.failed panic) =>
      let lost := s.sup.lostRestartTask task panic
      match lost.2 with
      | some outcome =>
        some { s with
          sup := teardownOutcome lost.1 task.childId n outcome
          phase := drained }
      | none => some { s with sup := lost.1, phase := drained }

/-- One step of the end of the run. -/
def endStep : EndAction → Option Sys
  | .collectDeath n =>
    match s.phase with
    | .collect c => if c.stage = .runners ∨ c.stage = .deathPlane then s.collectDeath c n else none
    | _ => none
  | .collectRestart n =>
    match s.phase with
    | .collect c =>
      if c.stage = .attempts ∨ c.stage = .restartPlane then s.collectRestart c n else none
    | _ => none
  | .collectNext =>
    match s.phase with
    | .collect c => s.collectNext c
    | _ => none
  | .deliverFinal =>
    match s.phase with
    | .final rest => some (s.deliverFinal rest)
    | _ => none
  | .teardownNext =>
    match s.phase with
    | .teardown order waits => s.teardownNext order waits
    | _ => none
  | .teardownRestart n =>
    match s.phase with
    | .teardown order waits => s.teardownRestart order waits n
    | _ => none
  | .observeKill =>
    if s.killed then
      match s.phase with
      | .select => some { s with phase := .stopped true }
      | .starting => some { s with phase := .stopped true }
      | .teardown _ _ => some { s with phase := .stopped true }
      | _ => none
    else none

/-- One step of the machine. -/
def step : Action → Option Sys
  | .env action => (s.sup.envStep action).map fun sup => { s with sup := sup }
  | .kill => some { s with killed := true }
  | .call action => s.callStep action
  | .loop action => s.loopStep action
  | .finish action => s.endStep action

end Sys

/-- A supervisor that has spawned nothing yet. -/
def Sys.init (strategy : RestartStrategy) (maxRestarts restartWindow : Nat) : Sys :=
  { sup := { strategy := strategy
             budget := { maxRestarts := maxRestarts, restartWindow := restartWindow } } }

/-- The states a supervisor reaches by steps that all meet the condition. -/
def Sys.Reaches (allowed : Sys → Action → Prop) (strategy : RestartStrategy)
    (maxRestarts restartWindow : Nat) (s : Sys) : Prop :=
  Machine.Reaches Sys.step allowed (Sys.init strategy maxRestarts restartWindow) s

end TokioActors
