/-
# The manual calls

`stop_child`, `terminate_child`, `restart_child`, `delete_child` and
`spawn_child` as they act on the supervision state. A manual stop commits and
carries out its effects at once, up to the point where it waits for the
incarnation's end; the classification of that end follows when the wait settles.
-/

import TokioActors.Supervision.Group

namespace TokioActors

namespace SupervisionState

variable (sup : SupervisionState) (id : ActorId)

/-- The facts a manual call reads. -/
def manualFacts : ManualFacts :=
  let membership := sup.groupMembership id
  let restarted :=
    match sup.pendingGroup with
    | some phase => decide (id ∈ phase.scope.restarted)
    | none => false
  match sup.registry.get id with
  | some child =>
    let slot := sup.slots child.ctl
    { life := some child.lifecycle
      task := slot.taskState
      membership := membership
      restartType := child.restartType
      pool := sup.pool
      restarted := restarted
      inKeepScope := sup.inKeepScope id
      policy := child.shutdown
      laneVetoable := slot.laneVetoable
      reasked := slot.reasked
      hasOrder := slot.hasOrder }
  | none =>
    { life := none
      task := .ended
      membership := membership
      restartType := .permanent
      pool := sup.pool
      restarted := restarted
      inKeepScope := sup.inKeepScope id
      policy := .timeout (5 * 10 ^ 9)
      laneVetoable := false
      reasked := false
      hasOrder := false }

/-- The reason a dismissed end is recorded with: the queued report's, else what
the slot tells. -/
def dismissedReason (child : Child) (n : Token) : StopReason :=
  match sup.queuedTriggers.find? (isReportOf child.id n) with
  | some report => report.reason
  | none => (sup.slots child.ctl).endReason

/-- Records an end that owes its decision as stopped for good. -/
def dismissOwedEvaluation : SupervisionState :=
  match sup.registry.get id with
  | none => sup
  | some child =>
    match child.lifecycle with
    | .down n .evaluate =>
      let event : ChildEvent := ⟨id, child.name, sup.dismissedReason child n, .removed⟩
      let recorded := sup.keepSnapshot id n event
      if sup.pool || child.restartType == .temporary then recorded.removeSpec id
      else recorded.transition id (.down n .snapshot)
    | _ => sup

/-- A released member's pending snapshot no longer announces a restart. -/
def rewriteRestartSnapshot : SupervisionState :=
  match sup.registry.life id with
  | some life => sup.rewriteSnapshot id life.heldToken .restartInitiated .removed
  | none => sup

/-- Records the decision of a completed manual stop. -/
def classifyManualCompletion (n : Token)
    (kind : ManualStop) (reason : StopReason) : SupervisionState :=
  match sup.registry.get id with
  | none => sup
  | some child =>
    let outcome := classifyManual kind reason child.restartType sup.pool (sup.inRestartSet id)
    let recorded :=
      if outcome.remove then sup.removeSpec id
      else sup.transition id (.down n outcome.pending)
    match outcome.action with
    | none => recorded
    | some action =>
      let kept := recorded.keepSnapshot id n ⟨id, child.name, reason, action⟩
      if outcome.initiate then kept.initiateRestart id .bounce else kept

/-- Whether the classification of a manual stop removes the child's factory. -/
def classificationRemoves (kind : ManualStop) (reason : StopReason) : Bool :=
  match sup.registry.get id with
  | none => false
  | some child =>
    (classifyManual kind reason child.restartType sup.pool (sup.inRestartSet id)).remove &&
      decide (id ∈ sup.restartFns)

/-- Classifies the end a manual stop waited for, when the ledger still holds the
stop: a stop in progress keeps the kind it was committed with. -/
def finishManualStop (n : Token) (kind : ManualStop) (reason : StopReason) : SupervisionState :=
  match sup.registry.life id with
  | some (.stopping m inFlight) =>
    if m = n then sup.classifyManualCompletion id n inFlight reason else sup
  | some (.running m) =>
    if m = n then sup.classifyManualCompletion id n kind reason else sup
  | _ => sup

/-- How a manual stop goes on after its effects: it answers, or waits for the
incarnation's end. -/
inductive StopProgress
  | answered (reply : ManualReply)
  | joining (n : Token)
  deriving DecidableEq, Repr

/-- Changes the slot of the child under the id. -/
def updateCtl (f : Slot → Slot) : SupervisionState :=
  match sup.registry.get id with
  | some child => sup.updateSlot child.ctl f
  | none => sup

/-- The slot of the child under the id. -/
def ctlSlot : Slot :=
  match sup.registry.get id with
  | some child => sup.slots child.ctl
  | none => {}

/-- Carries out a commit's effects in order. -/
def runEffects (id : ActorId) (policy : Shutdown) (n : Token) (kind : ManualStop) :
    SupervisionState → Bool → List CommitEffect → SupervisionState × StopProgress
  | sup, _, [] => (sup, .answered .ok)
  | sup, raised, effect :: rest =>
    match effect with
    | .raiseFirst =>
      runEffects id policy n kind (sup.updateCtl id fun slot => (slot.raiseFirst policy).1)
        ((sup.ctlSlot id).raiseFirst policy).2 rest
    | .writeOrder =>
      runEffects id policy n kind
        (sup.updateCtl id fun slot => slot.writeOrder policy raised sup.now) raised rest
    | .recordOverride => runEffects id policy n kind (sup.recordOverride id) raised rest
    | .leaveRestartOrder => runEffects id policy n kind (sup.leaveRestartSet id) raised rest
    | .reask => runEffects id policy n kind (sup.updateCtl id Slot.askAgain) raised rest
    | .reaskOnce =>
      runEffects id policy n kind (sup.updateCtl id fun slot => slot.askAgain.markReasked)
        raised rest
    | .dismiss => runEffects id policy n kind (sup.dismissOwedEvaluation id) raised rest
    | .rewriteSnapshot =>
      runEffects id policy n kind (sup.rewriteRestartSnapshot id) raised rest
    | .classify =>
      runEffects id policy n kind
        (sup.finishManualStop id n kind (sup.ctlSlot id).endReason) raised rest
    | .join => (sup, .joining n)
    | .answer reply => (sup, .answered reply)

/-- Moves the ledger entry a commit moves. -/
def applyMove : Option ChildLifecycle → SupervisionState
  | some target => sup.transition id target
  | none => sup

/-- A manual stop up to its wait or its answer, with the kind it acts with. -/
def manualStopDecided (kind : ManualStop) : (SupervisionState × StopProgress) × ManualStop :=
  let facts := sup.manualFacts id
  let n := (facts.life.bind ChildLifecycle.occupant).getD 0
  let commit := manualCommit kind facts
  let effective := effectiveKind kind facts
  (runEffects id facts.policy n effective (sup.applyMove id commit.moveTo) false commit.effects,
    effective)

/-- `restart_child`: the call draws its token before it is answered. -/
def restartChild : SupervisionState × ManualReply :=
  let drawn := { sup with nextIncarnation := sup.nextIncarnation + 1 }
  let reply := manualAnswer .restartChild (sup.manualFacts id)
  if reply = .ok then (drawn.initiate id sup.nextIncarnation .manual, reply) else (drawn, reply)

/-- `delete_child`. -/
def deleteChild : SupervisionState × ManualReply :=
  let reply := manualAnswer .deleteChild (sup.manualFacts id)
  if reply = .ok then (sup.removeSpec id, reply) else (sup, reply)

/-- The subtree a start under the id waits for. -/
def predecessorOf : Option Token :=
  match sup.registry.get id with
  | some child => child.predecessor
  | none => sup.retiredSubtree id

/-- `spawn_child_internal` once nothing refuses the spawn: the incarnation is
spawned, published and registered with its runner. -/
def spawnChildInternal (name : Option String)
    (restartType : RestartType) (shutdown : Shutdown) : SupervisionState :=
  let n := sup.nextIncarnation
  { sup with
    nextIncarnation := n + 1
    slots := Function.update sup.slots n { owner := id, published := true }
    deathSet := sup.deathSet ++ [⟨id, n, .runner, none⟩]
    registry := sup.registry ++ [⟨id, name, restartType, shutdown, .running n, .initial, some n⟩]
    restartFns := insert id sup.restartFns
    log := .spawned id n :: sup.log }

end SupervisionState

end TokioActors
