/-
# Handling reports

One turn of the supervisor's worklist: a report is delivered from a snapshot,
completes an abandoned manual stop, is dropped as stale, or is routed: to the
pending group, behind it, to a retry of it, or to the strategy. A turn ends with
the callback it has to run, with the next turn, or with the end of the loop.

Where the source runs user code the turn stops: the drop of a removed factory
may panic, which is the turn's argument `drop`, and `on_child_stopped` runs
between two turns.
-/

import TokioActors.Supervision.Manual

namespace TokioActors

/-- What follows a callback. -/
inductive Cont
  /-- The rest of the worklist. -/
  | next (work : List Report)
  /-- The loop ends: the budget is exhausted. -/
  | exhausted (work : List Report)
  /-- The other absorbed ends of a first evaluation, then the group it lays out,
  then the trigger's own delivery. -/
  | absorbed (rest : List SupervisionState.Delivery) (trigger : Report) (name : Option String)
      (commit : List Committed) (work : List Report)
  /-- The other deliveries of a retry. -/
  | retried (rest : List SupervisionState.Delivery) (work : List Report)
  deriving DecidableEq, Repr

/-- How a turn of the worklist ends. -/
inductive Next
  | loop (work : List Report)
  | deliver (event : ChildEvent) (n : Token) (cont : Cont)
  | halt (reason : StopReason) (work : List Report)
  deriving DecidableEq, Repr

/-- Where a report goes. -/
inductive Routed
  | queued
  | deliver (action : SupervisionAction)
  | chainRetry
  | evaluate
  deriving DecidableEq, Repr

/-- What the group does with the report, besides the routing. -/
structure GroupSteps where
  beginChain : Option ChainStart := none
  advanceChain : Bool := false
  manualOverride : Bool := false

namespace SupervisionState

variable (sup : SupervisionState) (ev : Report)

/-- The chain's front is the child; then, the incarnation the chain started. -/
def chainFrontOf (id : ActorId) : Option (Option Token) :=
  match sup.pendingGroup with
  | some (.restarting chain) =>
    if chain.queue.head? = some id then some (chain.started.lookup id) else none
  | _ => none

/-- Puts an end in the queue behind the pending group, owing its decision. -/
def queueTrigger : SupervisionState :=
  let recorded := sup.transition ev.childId (.down ev.incarnation .evaluate)
  { recorded with queuedTriggers := recorded.queuedTriggers ++ [ev] }

/-- Routes the failure of the attempt the ledger holds. -/
def routeAttempt (origin : Origin) : SupervisionState × Routed × GroupSteps :=
  let id := ev.childId
  let n := ev.incarnation
  let membership := sup.groupMembership id
  let front := sup.chainFrontOf id
  let noted := sup.noteSubtree id
  match attemptFailureRoute (front == some (some n)) membership origin with
  | .chainRetry => (noted.transition id (.down n .none), .chainRetry, {})
  | .member =>
    let settled := (noted.transition id (.down n .none)).settleBarrier id n
    let advanced := if settled.2 then settled.1.advanceGroupStop else (settled.1, none)
    (advanced.1, .deliver .restartInitiated, ⟨advanced.2, front.isSome, sup.pruned id⟩)
  | .removed => (noted.transition id (.down n .none), .deliver .removed, {})
  | .evaluate =>
    if sup.pendingGroup.isSome then (noted.queueTrigger ev, .queued, {})
    else (noted.transition id (.down n .none), .evaluate, {})

/-- Routes the end of the occupant, or of the end whose decision is owed. -/
def routeEnd : SupervisionState × Routed × GroupSteps :=
  let id := ev.childId
  let n := ev.incarnation
  match sup.pendingGroup with
  | none => (sup.transition id (.down n .none), .evaluate, {})
  | some phase =>
    let settled := sup.settleBarrier id n
    if settled.2 then
      let overridden := phase.overrides.lookup id == some n
      let advanced := (settled.1.transition id (.down n .none)).advanceGroupStop
      (advanced.1, .deliver .restartInitiated,
        ⟨advanced.2, false, overridden || sup.pruned id⟩)
    else if sup.groupMembership id = .queued then
      (sup.transition id (.down n .none), .deliver .restartInitiated,
        ⟨none, (sup.chainFrontOf id).isSome, sup.pruned id⟩)
    else (sup.queueTrigger ev, .queued, {})

def routeReport : SupervisionState × Routed × GroupSteps :=
  match sup.registry.get ev.childId with
  | none => (sup, .evaluate, {})
  | some child =>
    if child.lifecycle.isRestarting ∧ child.lifecycle.heldToken = ev.incarnation then
      sup.routeAttempt ev child.origin
    else sup.routeEnd ev

/-- The name of the child under the id. -/
def nameOf (id : ActorId) : Option String := (sup.registry.get id).bind Child.name

/-- Whether a pool or a `Temporary` child's spec goes with its end. -/
def prunes (id : ActorId) : Bool :=
  sup.pool || (match sup.registry.get id with
    | some child => child.restartType == .temporary
    | none => false)

/-- Ends a turn with a delivery, unless a removed factory's drop panicked: then
the report stays owed and the loop ends. -/
def deliverUnlessPanicked (removed : Bool) (drop : Option String)
    (ev : Report) (name : Option String) (action : SupervisionAction) (cont : Cont)
    (work : List Report) : SupervisionState × Next :=
  match removed, drop with
  | true, some message => (sup.owe ev name, .halt (.failure (.panic message)) work)
  | _, _ => (sup, .deliver ⟨ev.childId, name, ev.reason, action⟩ ev.incarnation cont)

/-- Leaves undelivered deliveries owed, in order. -/
def oweDeliveries (deliveries : List Delivery) : SupervisionState :=
  deliveries.foldl
    (fun sup delivery =>
      sup.owe ⟨delivery.1.childId, delivery.1.reason, delivery.2⟩ delivery.1.childName)
    sup

/-- Lays the group of a first evaluation out and delivers its trigger's end. The
restart set is the commit's, the scope is read now. -/
def installFirst (trigger : Report) (name : Option String)
    (commit : List Committed) (work : List Report) : SupervisionState × Next :=
  let installed := sup.installGroup commit (restartIds commit) ∅
    ⟨∅, sup.firstPlanOutside trigger.childId⟩ work
  (installed.1, .deliver ⟨trigger.childId, name, trigger.reason, .restartInitiated⟩
    trigger.incarnation (.next installed.2))

/-- Goes on with the deliveries of a first evaluation. -/
def deliverAbsorbed (deliveries : List Delivery) (trigger : Report)
    (name : Option String) (commit : List Committed) (work : List Report) :
    SupervisionState × Next :=
  match deliveries with
  | (event, n) :: rest => (sup, .deliver event n (.absorbed rest trigger name commit work))
  | [] => sup.installFirst trigger name commit work

/-- Goes on with the deliveries of a retry. -/
def deliverRetried (deliveries : List Delivery) (work : List Report) : SupervisionState × Next :=
  match deliveries with
  | (event, n) :: rest => (sup, .deliver event n (.retried rest work))
  | [] => (sup, .loop work)

/-- The retry of a group whose chain failed to start its front: the members it
covers are absorbed, the plan is made from the ledger they leave and installed,
and the deliveries follow. -/
def retryGroup (work : List Report) (drop : Option String) : SupervisionState × Next :=
  let own : Delivery := (⟨ev.childId, sup.nameOf ev.childId, ev.reason, .restartInitiated⟩,
    ev.incarnation)
  let absorbing := sup.absorbRecords work (sup.planRetry ev.childId).commit
  let plan := absorbing.sup.planRetry ev.childId
  let kept : TokenMap × GroupScope :=
    match absorbing.sup.pendingGroup with
    | some (.restarting chain) => (chain.overrides, chain.scope)
    | _ => (∅, {})
  let installed := (absorbing.sup.note (.planned plan.commit)).installGroup plan.commit
    plan.restartOrder kept.1 kept.2 absorbing.work
  match absorbing.removed, drop with
  | true, some message =>
    (installed.1.oweDeliveries (own :: absorbing.deliveries),
      .halt (.failure (.panic message)) installed.2)
  | _, _ => installed.1.deliverRetried (own :: absorbing.deliveries) installed.2

/-- Evaluates the strategy for a report and acts on its decision. -/
def evaluateReport (work : List Report) (drop : Option String) : SupervisionState × Next :=
  let id := ev.childId
  let name := sup.nameOf id
  match sup.evaluateStrategy id ev.incarnation ev.reason with
  | (sup, .restartOne) =>
    (sup.initiateRestart id .strategy,
      .deliver ⟨id, name, ev.reason, .restartInitiated⟩ ev.incarnation (.next work))
  | (sup, .restartGroup commit) =>
    let absorbing := sup.absorbRecords work commit
    match absorbing.removed, drop with
    | true, some message =>
      let owing := absorbing.sup.oweDeliveries absorbing.deliveries
      ({ owing with owed := ev :: owing.owed }, .halt (.failure (.panic message))
        absorbing.work)
    | _, _ => absorbing.sup.deliverAbsorbed absorbing.deliveries ev name commit absorbing.work
  | (sup, .remove) =>
    let prune := sup.prunes id
    (sup.removeIf prune id).deliverUnlessPanicked (prune && decide (id ∈ sup.restartFns)) drop
      ev name .removed (.next work) work
  | (sup, .budgetExhausted) =>
    (sup, .deliver ⟨id, name, ev.reason, .budgetExhausted⟩ ev.incarnation (.exhausted work))

/-- Takes the snapshot of an end and clears the marker it left. -/
def takeSnapshot : SupervisionState :=
  { sup with
    registry :=
      if sup.registry.life ev.childId = some (.down ev.incarnation .snapshot) then
        sup.registry.transition ev.childId (.down ev.incarnation .none)
      else sup.registry
    pendingManualEvents := sup.pendingManualEvents.erase (ev.childId, ev.incarnation) }

/-- Delivers a snapshot; the group goes on where it waited for this end. -/
def deliverSnapshot (event : ChildEvent) (work : List Report) : SupervisionState × Next :=
  let cleared := sup.takeSnapshot ev
  let settled := cleared.settleBarrier ev.childId ev.incarnation
  let advanced := if settled.2 then settled.1.advanceGroupStop else (settled.1, none)
  let gone :=
    match advanced.2 with
    | some start => advanced.1.startRestartChain start work
    | none =>
      if (advanced.1.chainFrontOf ev.childId).isSome then advanced.1.advanceAndInitiate work
      else (advanced.1, work)
  (gone.1, .deliver event ev.incarnation (.next gone.2))

/-- The snapshot a report is delivered from: the report of the occupant, or of
an end that owes its decision, is never delivered from one. -/
def snapshotOf : Option ChildEvent :=
  match sup.registry.life ev.childId with
  | some life =>
    if reportClass life ev.incarnation = .stale then
      sup.pendingManualEvents.lookup (ev.childId, ev.incarnation)
    else none
  | none => sup.pendingManualEvents.lookup (ev.childId, ev.incarnation)

/-- The manual stop whose caller went away before it saw the end. -/
def uncommittedManual : Option ManualStop :=
  match sup.registry.life ev.childId with
  | some (.stopping n kind) => if n = ev.incarnation then some kind else none
  | _ => none

/-- Acts on a routed report. -/
def handleRouted (work : List Report)
    (drop : Option String) : Routed → GroupSteps → SupervisionState × Next
  | .queued, _ => (sup, .loop work)
  | .deliver action, steps =>
    let gone :=
      match steps.beginChain with
      | some start => sup.startRestartChain start work
      | none => if steps.advanceChain then sup.advanceAndInitiate work else (sup, work)
    let name := gone.1.nameOf ev.childId
    if steps.manualOverride then
      let prune := gone.1.prunes ev.childId
      (gone.1.removeIf prune ev.childId).deliverUnlessPanicked
        (prune && decide (ev.childId ∈ gone.1.restartFns)) drop ev name .removed
        (.next gone.2) gone.2
    else
      (gone.1, .deliver ⟨ev.childId, name, ev.reason, action⟩ ev.incarnation (.next gone.2))
  | .chainRetry, _ =>
    let charged := sup.charge ev.childId ev.incarnation
    if charged.2 then charged.1.retryGroup ev work drop
    else
      (charged.1, .deliver ⟨ev.childId, charged.1.nameOf ev.childId, ev.reason,
        .budgetExhausted⟩ ev.incarnation (.exhausted work))
  | .evaluate, _ => sup.evaluateReport ev work drop

/-- One turn of the worklist, on the report it took. -/
def handleReport (work : List Report) (drop : Option String) : SupervisionState × Next :=
  match sup.snapshotOf ev with
  | some event => sup.deliverSnapshot ev event work
  | none =>
    match sup.uncommittedManual ev with
    | some kind =>
      let classified := sup.classifyManualCompletion ev.childId ev.incarnation kind ev.reason
      match sup.classificationRemoves ev.childId kind ev.reason, drop with
      | true, some message => (classified, .halt (.failure (.panic message)) (ev :: work))
      | _, _ => (classified, .loop (ev :: work))
    | none =>
      let stale : Bool :=
        match sup.registry.life ev.childId with
        | some life => reportClass life ev.incarnation == .stale
        | none => false
      if stale then (sup, .loop work)
      else
        let routed := sup.routeReport ev
        routed.1.handleRouted ev work drop routed.2.1 routed.2.2

end SupervisionState

end TokioActors
