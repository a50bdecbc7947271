/-
# The group restart

The functions that lay a group restart out, stop its members one at a time and
restart them in a chain: the evaluation of the strategy, the absorption of owed
ends, the stop queue, the barrier and the chain.
-/

import TokioActors.Supervision.Ops

namespace TokioActors

/-- What the strategy decides about an end. -/
inductive StrategyOutcome
  | restartOne
  | restartGroup (commit : List Committed)
  | remove
  | budgetExhausted
  deriving DecidableEq, Repr

/-- What the chain does next. -/
inductive ChainStep
  | initiate (id : ActorId)
  | hold
  | done
  deriving DecidableEq, Repr

/-- What a finished stop phase hands to the chain. -/
structure ChainStart where
  order : List ActorId
  overrides : TokenMap
  scope : GroupScope

namespace SupervisionState

variable (sup : SupervisionState) (id : ActorId)

/-! ## Evaluating the strategy -/

/-- Whether a child of the restart type is restarted after the reason. -/
def shouldRestart : RestartType → StopReason → Bool
  | .permanent, _ => true
  | .transient, .graceful => false
  | .transient, .parentRequest => false
  | .transient, .parentKilled => false
  | .transient, _ => true
  | .temporary, _ => false

/-- Charges the restart budget on behalf of an end. -/
def charge (n : Token) : SupervisionState × Bool :=
  let charged := sup.budget.checkAndRecord sup.now
  ({ sup with budget := charged.1, log := .charged id n sup.now charged.2 :: sup.log }, charged.2)

/-- The group's view of the registry. -/
def groupMembers : List GroupMember :=
  sup.registry.map Child.groupMember

/-- Evaluates the strategy for the end of incarnation `n`. -/
def evaluateStrategy (n : Token) (reason : StopReason) : SupervisionState × StrategyOutcome :=
  match sup.registry.get id with
  | none => (sup.note (.evaluated id n .remove), .remove)
  | some child =>
    if shouldRestart child.restartType reason then
      let charged := sup.charge id n
      if charged.2 then
        match sup.strategy with
        | .oneForOne => (charged.1.note (.evaluated id n .restartOne), .restartOne)
        | .simpleOneForOne => (charged.1.note (.evaluated id n .restartOne), .restartOne)
        | strategy =>
          let commit := groupCommit strategy sup.groupMembers id
          ((charged.1.note (.evaluated id n .restartGroup)).note (.planned commit),
            .restartGroup commit)
      else (charged.1.note (.evaluated id n .budgetExhausted), .budgetExhausted)
    else (sup.note (.evaluated id n .remove), .remove)

/-- The ids whose released incarnation the ledger still holds. -/
def namedOverrides (overrides : TokenMap) : List ActorId :=
  sup.registry.ids.filter fun id =>
    match overrides.lookup id, sup.registry.life id with
    | some token, some life => life.heldToken == token
    | _, _ => false

/-- The plan of a retry of the pending group. -/
def planRetry (failed : ActorId) : RetryPlan :=
  let released :=
    match sup.pendingGroup with
    | some phase => sup.namedOverrides phase.overrides
    | none => []
  TokioActors.retryPlan sup.strategy sup.groupMembers released failed

/-! ## Absorbing owed ends -/

/-- Whether the child's spec goes when its end is a group member's. -/
def pruned : Bool :=
  match sup.registry.get id with
  | some child => groupMemberEnd child.restartType == .pruneAndRemove
  | none => false

/-- A report of the given end. -/
def isReportOf (n : Token) (report : Report) : Bool :=
  report.childId == id && report.incarnation == n

/-- An end waiting for its `on_child_stopped`, with its incarnation. -/
abbrev Delivery := ChildEvent × Token

/-- The state an absorption goes through: the supervision state, the worklist,
the deliveries it collects, and whether it removed a factory. -/
structure Absorbing where
  sup : SupervisionState
  work : List Report
  deliveries : List Delivery := []
  removed : Bool := false

/-- Keeps the event an end is to be delivered with. -/
abbrev keepSnapshot (n : Token) (event : ChildEvent) : SupervisionState :=
  { sup with pendingManualEvents := sup.pendingManualEvents.insert (id, n) event }

/-- Rewrites a pending snapshot's action. -/
def rewriteSnapshot (n : Token) (old new : SupervisionAction) : SupervisionState :=
  { sup with
    pendingManualEvents :=
      match sup.pendingManualEvents.lookup (id, n) with
      | some event =>
        if event.action = old then
          sup.pendingManualEvents.insert (id, n) { event with action := new }
        else sup.pendingManualEvents
      | none => sup.pendingManualEvents }

/-- The action of an absorbed end. -/
def absorbedAction (prune : Bool) : SupervisionAction :=
  if prune then .removed else .restartInitiated

/-- Removes the spec when the absorption prunes the member. -/
def removeIf (prune : Bool) (id : ActorId) : SupervisionState :=
  if prune then sup.removeSpec id else sup

/-- Takes the report of an absorbed end out of the queued triggers or the
worklist: what is left of both, and the report's reason. -/
def takeReport (work : List Report) (id : ActorId) (n : Token) :
    Option (SupervisionState × List Report × StopReason) :=
  match sup.queuedTriggers.find? (isReportOf id n) with
  | some report =>
    some ({ sup with queuedTriggers := sup.queuedTriggers.eraseP (isReportOf id n) }, work,
      report.reason)
  | none =>
    match work.find? (isReportOf id n) with
    | some report => some (sup, work.eraseP (isReportOf id n), report.reason)
    | none => none

/-- Where the report of an owed end is. -/
def reportPlace (work : List Report) (id : ActorId) (n : Token) : ReportPlace :=
  if (sup.queuedTriggers.find? (isReportOf id n)).isSome then .queued
  else if (work.find? (isReportOf id n)).isSome then .worklist
  else .deathPlane

/-- Absorbs what one committed member still owes. -/
def absorbMember (acc : Absorbing) (member : Committed) : Absorbing :=
  match acc.sup.registry.get member.id with
  | none => acc
  | some child =>
    match child.lifecycle with
    | .down n _ =>
      let prune := acc.sup.pruned member.id
      let place := acc.sup.reportPlace acc.work member.id n
      match absorbable place true (some child.lifecycle) with
      | .keep =>
        if member.action.restarts then
          { acc with
            sup := acc.sup.rewriteSnapshot member.id n .removed .restartInitiated }
        else acc
      | .deliver =>
        match acc.sup.takeReport acc.work member.id n with
        | some (sup, work, reason) =>
          { sup := (sup.transition member.id (.down n .none)).removeIf prune member.id
            work := work
            deliveries := acc.deliveries ++
              [(⟨member.id, child.name, reason, absorbedAction prune⟩, n)]
            removed := acc.removed || (prune && decide (member.id ∈ sup.restartFns)) }
        | none => acc
      | .snapshot =>
        let reason := (acc.sup.slots child.ctl).endReason
        let recorded := (acc.sup.transition member.id (.down n .snapshot)).removeIf prune member.id
        { acc with
          sup := recorded.keepSnapshot member.id n
            ⟨member.id, child.name, reason, absorbedAction prune⟩
          removed := acc.removed || (prune && decide (member.id ∈ acc.sup.restartFns)) }
    | _ => acc

/-- Absorbs what the committed members still owe, in start order. -/
def absorbRecords (work : List Report) (commit : List Committed) : Absorbing :=
  commit.foldl absorbMember { sup := sup, work := work }

/-! ## The stop queue and the barrier -/

/-- The barrier of a plan: the held members, on the incarnations they were
committed on. -/
def awaitingOf (commit : List Committed) : TokenMap :=
  ((commit.filter fun member => member.action.held).map fun member =>
    (⟨member.id, member.token⟩ : Sigma fun _ : ActorId => Token)).toFinmap

/-- The stop queue of a plan: the held members, newest first. -/
def stopQueueOf (commit : List Committed) : List ActorId :=
  (commit.reverse.filter fun member => member.action.held).map Committed.id

/-- Cancels the attempts a plan commits that have spawned nothing. -/
def cancelAttempts (commit : List Committed) : SupervisionState :=
  commit.foldl
    (fun sup member =>
      if member.action.cancel then
        match sup.registry.get member.id with
        | some child => sup.updateSlot child.ctl Slot.cancelUnspawned
        | none => sup
      else sup)
    sup

/-- What the stop queue reads about its head. -/
def queueHead (group : GroupRestart) (id : ActorId) : QueueHead :=
  match group.awaiting.lookup id with
  | none => ⟨false, false, group.headReached, false, none, false, false, false, false, true⟩
  | some token =>
    let handled := (sup.pendingManualEvents.lookup (id, token)).isSome
    match sup.registry.get id with
    | none => ⟨true, false, group.headReached, handled, none, false, false, false, false, true⟩
    | some child =>
      if child.ctl = token then
        let slot := sup.slots child.ctl
        let attempt := child.lifecycle.isRestarting
        { awaited := true
          verdict := slot.isUnresponsive
          signalled := group.headReached
          handled := handled
          life := some child.lifecycle
          hasOrder := slot.hasOrder
          askPossible := child.shutdown == .infinity && slot.laneVetoable &&
            slot.taskState != .ended
          reasked := slot.reasked
          attemptPastInit := attempt && slot.published && slot.pastInit
          attemptSpawned := !attempt || slot.published }
      else ⟨true, false, group.headReached, handled, none, false, false, false, false, true⟩

/-- Carries out the stop queue's step on its head's slot. -/
def applyQueueStep (step : QueueStep) : SupervisionState :=
  match sup.registry.get id with
  | none => sup
  | some child =>
    let order (raise : Bool) : SupervisionState :=
      (sup.updateSlot child.ctl fun slot => slot.orderStop child.shutdown raise sup.now).note
        (.ordered id child.ctl)
    let askOnce (sup : SupervisionState) : SupervisionState :=
      sup.updateSlot child.ctl fun slot => slot.askAgain.markReasked
    match step with
    | .order => order true
    | .orderUnpublished => order false
    | .orderAttempt ask => if ask then askOnce (order true) else order true
    | .join ask => if ask then askOnce sup else sup
    | .pop => sup
    | .wait => sup
    | .await => sup

/-- Installs the stop phase. -/
def withStopping (group : GroupRestart) : SupervisionState :=
  { sup with pendingGroup := some (.stopping group) }

/-- Goes down the stop queue: pops what is settled, and acts on the first head
that is not. A head that was signalled is waited for at its next read. -/
def stopQueueLoop (sup : SupervisionState) (group : GroupRestart) : List ActorId → SupervisionState
  | [] => sup.withStopping { group with stopQueue := [] }
  | head :: rest =>
    match stopQueueNext (sup.queueHead group head) with
    | .pop => stopQueueLoop sup { group with headReached := false } rest
    | .wait => sup.withStopping { group with stopQueue := head :: rest }
    | step =>
      (sup.applyQueueStep head step).withStopping
        { group with
          stopQueue := head :: rest
          headReached := queueHeadReachedAfter step group.headReached }

def advanceStopQueue : SupervisionState :=
  match sup.pendingGroup with
  | some (.stopping group) => sup.stopQueueLoop group group.stopQueue
  | _ => sup

/-- Releases the barrier entry of an end; the answer is whether there was one. -/
def settleBarrier (n : Token) : SupervisionState × Bool :=
  match sup.pendingGroup with
  | some (.stopping group) =>
    if group.awaiting.lookup id = some n then
      (sup.withStopping { group with awaiting := group.awaiting.erase id }, true)
    else (sup, false)
  | _ => (sup, false)

/-- Advances the stop queue, and takes the chain's order out of a stop phase
that is finished. -/
def advanceGroupStop : SupervisionState × Option ChainStart :=
  let advanced := sup.advanceStopQueue
  match advanced.pendingGroup with
  | some (.stopping group) =>
    if group.stopQueue = [] ∧ group.awaiting = ∅ then
      ({ advanced with pendingGroup := none },
        some ⟨group.restartOrder.filter fun id => (group.manualOverrides.lookup id).isNone,
          group.manualOverrides, group.scope⟩)
    else (advanced, none)
  | _ => (advanced, none)

/-! ## The restart chain -/

/-- Installs the chain. -/
def withChain (chain : RestartChain) : SupervisionState :=
  { sup with pendingGroup := some (.restarting chain) }

/-- Goes down the chain's queue: pops members whose spec is gone and members that
run on the incarnation the chain started, and acts on the first other one. The
last one popped completes the group, which releases the queued triggers. -/
def chainLoop (sup : SupervisionState) (work : List Report) (chain : RestartChain) :
    List ActorId → (SupervisionState × List Report) × ChainStep
  | [] =>
    (({ sup with
        pendingGroup := none
        queuedTriggers := []
        log := .groupCompleted :: sup.log }, work ++ sup.queuedTriggers), .done)
  | id :: rest =>
    match sup.registry.get id with
    | none => chainLoop sup work chain rest
    | some child =>
      match chainFront child.lifecycle (chain.started.lookup id) with
      | .fresh =>
        chainLoop sup work
          { chain with
            scope := { chain.scope with restarted := insert id chain.scope.restarted } }
          rest
      | .initiate => ((sup.withChain { chain with queue := id :: rest }, work), .initiate id)
      | .stopThenInitiate =>
        ((((sup.updateSlot child.ctl fun slot =>
            slot.orderStop child.shutdown true sup.now).note (.foreignFront id)).withChain
          { chain with queue := id :: rest }, work), .hold)
      | .hold =>
        let held := sup.withChain { chain with queue := id :: rest }
        if chain.started.lookup id ≠ some child.lifecycle.heldToken then
          ((held.note (.foreignFront id), work), .hold)
        else ((held, work), .hold)

def advanceRestartChain (work : List Report) : (SupervisionState × List Report) × ChainStep :=
  match sup.pendingGroup with
  | some (.restarting chain) => sup.chainLoop work chain chain.queue
  | _ => ((sup, work), .done)

/-- Advances the chain and starts the member it names. -/
def advanceAndInitiate (work : List Report) : SupervisionState × List Report :=
  match sup.advanceRestartChain work with
  | ((sup, work), .initiate front) => (sup.initiateRestart front .chain, work)
  | ((sup, work), _) => (sup, work)

/-- Starts the chain of a finished stop phase. -/
def startRestartChain (start : ChainStart) (work : List Report) : SupervisionState × List Report :=
  (sup.withChain ⟨start.order, start.overrides, ∅, start.scope⟩).advanceAndInitiate work

/-- Installs a plan: its stop phase, or its chain when nothing is left to stop. -/
def installGroup (commit : List Committed) (order : List ActorId)
    (overrides : TokenMap) (scope : GroupScope) (work : List Report) :
    SupervisionState × List Report :=
  let planned := sup.cancelAttempts commit
  if awaitingOf commit = ∅ then planned.startRestartChain ⟨order, overrides, scope⟩ work
  else
    ((planned.withStopping
      ⟨awaitingOf commit, stopQueueOf commit, false, order, overrides, scope⟩).advanceStopQueue,
      work)

end SupervisionState

end TokioActors
