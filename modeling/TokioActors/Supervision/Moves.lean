/-
# The moves of the books

An abstract account of what a supervisor does to its books. A configuration is
the supervision state with the reports in the loop's hands: those still to be
handled, those decided and still to be delivered, and the group restart that is
decided but not laid out yet. A move changes the books in one way the source
knows and carries the facts the source has checked at that point. Every step of
the machine is a sequence of moves, so an invariant of the moves is one of every
run.

What a run may have to avoid for a property to hold is stated as rules: a move
that could break one of them carries the rule as a condition.
-/

import TokioActors.Supervision.Plans

namespace TokioActors

open SupervisionState

/-- A group restart that is decided and not laid out yet; `laid` is whether what
its members still owed was absorbed. -/
structure Plan where
  failed : ActorId
  commit : List Committed
  laid : Bool := false

/-- How far the supervisor's run is. -/
inductive Stage
  | starting
  | looping
  /-- The loop ended and left its reports owed. -/
  | ended
  /-- The owed reports were collected. -/
  | gathered
  /-- The restart plane was drained. -/
  | drained
  /-- The death plane was drained. -/
  | delivering
  | down
  deriving DecidableEq, Repr

/-- The books of a supervisor. -/
structure Config where
  sup : SupervisionState
  /-- The reports the loop has to handle. -/
  work : List Report := []
  /-- The ends that are decided and still to be delivered. -/
  out : List Delivery := []
  plan : Option Plan := none
  stage : Stage := .starting
  /-- A `Kill` is stored on the supervisor's own lane. -/
  killed : Bool := false

/-- What the steps of a run are assumed to keep to. -/
structure Rules where
  /-- No manual call changes the books between the decision for a group restart
  and its layout. -/
  quiet : Prop
  /-- No child is restarted by a call whose incarnation the pending group keeps
  down. -/
  heeded : Prop
  /-- No turn of the worklist is taken. -/
  still : Prop
  /-- No report is let go of. -/
  kept : Prop

/-- Rules that ask for nothing. -/
def Rules.free : Rules := ⟨False, False, False, False⟩

/-- The entry is down and owes no decision. -/
def ChildLifecycle.AtRest (life : ChildLifecycle) : Prop :=
  ∃ n pending, life = .down n pending ∧ pending ≠ .evaluate

/-- The entry keeps the incarnation down for good, or waits with the barrier for
its end. -/
def ChildLifecycle.KeptDown (life : ChildLifecycle) (n : Token) (awaited : Option Token) : Prop :=
  life.heldToken = n ∧
    (life = .stopping n .terminate ∨ life.AtRest ∨ life = .running n ∧ awaited = some n)

namespace SupervisionState

/-- The entry of the child waits for the end of `n`, or owes its decision. -/
def Open (sup : SupervisionState) (id : ActorId) (n : Token) : Prop :=
  ∃ life, sup.registry.life id = some life ∧ reportClass life n ≠ .stale

/-- The pending group neither waits for the child nor restarts it. -/
def Unplanned (sup : SupervisionState) (id : ActorId) : Prop :=
  sup.groupMembership id ≠ .queued ∧ ∀ overridden, sup.groupMembership id ≠ .awaited overridden

/-- The pending group does not keep the incarnation down that the child holds. -/
def Unkept (sup : SupervisionState) (id : ActorId) : Prop :=
  ∀ phase life, sup.pendingGroup = some phase → sup.registry.life id = some life →
    phase.overrides.lookup id ≠ some life.heldToken

/-- A plan as it lies over the registry: what it restarts is there and is awaited
or at rest, and what was released stays down. -/
structure Laid (sup : SupervisionState) (commit : List Committed) (overrides : TokenMap) :
    Prop where
  nodup : (commit.map Committed.id).Nodup
  order : (restartIds commit).Sublist sup.registry.ids
  member : ∀ m ∈ commit, m.action.restarts = true → ∃ child,
    sup.registry.get m.id = some child ∧ child.restartType ≠ .temporary ∧
      overrides.lookup m.id ≠ some child.lifecycle.heldToken ∧
      (m.action.held = true ∧ child.lifecycle.heldToken = m.token ∨
        m.action.held = false ∧ child.lifecycle.AtRest)
  awaited : ∀ m ∈ commit, m.action.held = true → ∀ child, sup.registry.get m.id = some child →
    child.lifecycle.heldToken = m.token → child.restartType ≠ .temporary →
      m.action.restarts = true ∨ overrides.lookup m.id = some m.token
  drawn : ∀ m ∈ commit, m.token < sup.nextIncarnation

end SupervisionState

/-- The phase a plan is laid out in. -/
def layOut (commit : List Committed) (overrides : TokenMap) (scope : GroupScope) : GroupPhase :=
  if SupervisionState.awaitingOf commit = ∅ then
    .restarting ⟨restartIds commit, overrides, ∅, scope⟩
  else
    .stopping ⟨SupervisionState.awaitingOf commit, SupervisionState.stopQueueOf commit, false,
      restartIds commit, overrides, scope⟩

/-- A move of the planes and slots: the ledger and the group stay as they are. -/
inductive PlaneMove : SupervisionState → SupervisionState → Prop
  | env {sup next : SupervisionState} (action : EnvAction)
      (enabled : sup.envStep action = some next) : PlaneMove sup next
  | command {sup : SupervisionState} (n : Token) (f : Slot → Slot) :
      PlaneMove sup (sup.updateSlot n f)
  | condemn {sup : SupervisionState} (n : Token) :
      PlaneMove sup
        ((sup.updateSlot n fun slot => { slot with lost := true }).note (.unresponsive n))
  | replace {sup : SupervisionState} (task : DeathTask) (panic : Option ActorError)
      (found : sup.deathTask task.incarnation = some task) :
      PlaneMove sup (sup.lostDeathTask task panic)
  | follow {sup : SupervisionState} (task : RestartTask) (panic : Option ActorError)
      (found : sup.restartTask task.incarnation = some task) :
      PlaneMove sup { sup with
        restartSet := sup.restartSet.erase task
        deathSet := sup.deathSet ++ [⟨task.childId, task.incarnation, .follow, none⟩] }

/-- A move of the pending group: the ledger stays as it is. -/
inductive GroupMove (sup : SupervisionState) : SupervisionState → Prop
  /-- The stop queue pops its head. -/
  | stopPop (group : GroupRestart) (head : ActorId) (rest : List ActorId)
      (pending : sup.pendingGroup = some (.stopping group))
      (queue : group.stopQueue = head :: rest) :
      GroupMove sup (sup.withStopping { group with stopQueue := rest, headReached := false })
  /-- The stop queue acts on its head. -/
  | stopAct (group : GroupRestart) (head : ActorId) (rest : List ActorId)
      (reached : Bool) (pending : sup.pendingGroup = some (.stopping group))
      (queue : group.stopQueue = head :: rest) :
      GroupMove sup ((sup.applyQueueStep head
        (stopQueueNext (sup.queueHead group head))).withStopping
        { group with headReached := reached })
  /-- The end the barrier waits for was reported, or its attempt cancelled. -/
  | settle (group : GroupRestart) (id : ActorId) (n : Token)
      (pending : sup.pendingGroup = some (.stopping group))
      (awaited : group.awaiting.lookup id = some n)
      (rests : ∀ life, sup.registry.life id = some life → life.heldToken = n → life.AtRest) :
      GroupMove sup (sup.withStopping { group with awaiting := group.awaiting.erase id })
  /-- An adopted member is waited for on. -/
  | awaitAdopted (group : GroupRestart) (id : ActorId) (n : Token)
      (pending : sup.pendingGroup = some (.stopping group)) (member : id ∈ group.restartOrder)
      (running : sup.registry.life id = some (.running n)) :
      GroupMove sup (sup.withStopping { group with awaiting := group.awaiting.insert id n })
  /-- The stop phase is over. -/
  | finish (group : GroupRestart)
      (pending : sup.pendingGroup = some (.stopping group))
      (barrier : group.awaiting = ∅) :
      GroupMove sup (sup.withChain
        ⟨group.restartOrder.filter fun id => (group.manualOverrides.lookup id).isNone,
          group.manualOverrides, ∅, group.scope⟩)
  /-- The chain drops a member whose spec is gone. -/
  | chainGone (chain : RestartChain) (front : ActorId)
      (rest : List ActorId) (pending : sup.pendingGroup = some (.restarting chain))
      (queue : chain.queue = front :: rest) :
      GroupMove sup (sup.withChain { chain with queue := rest })
  /-- The chain is done with a member that runs on the incarnation it started. -/
  | chainFresh (chain : RestartChain) (front : ActorId)
      (rest : List ActorId) (n : Token) (pending : sup.pendingGroup = some (.restarting chain))
      (queue : chain.queue = front :: rest)
      (running : sup.registry.life front = some (.running n)) :
      GroupMove sup (sup.withChain { chain with
        queue := rest
        scope := { chain.scope with restarted := insert front chain.scope.restarted } })
  /-- The chain finds an incarnation it did not start. -/
  | foreign (chain : RestartChain) (front : ActorId)
      (pending : sup.pendingGroup = some (.restarting chain)) :
      GroupMove sup (sup.note (.foreignFront front))
  /-- A terminate keeps a child down that the group does not restart. -/
  | keep (id : ActorId) (life : ChildLifecycle)
      (unplanned : sup.Unplanned id) (entry : sup.registry.life id = some life)
      (kept : life.KeptDown life.heldToken none) :
      GroupMove sup (sup.recordOverride id)
  /-- A terminate that removed its child takes the id out of the restart set. -/
  | leaveGone (id : ActorId) (gone : sup.registry.get id = none) :
      GroupMove sup (sup.leaveRestartSet id)

namespace SupervisionState

/-- The incarnation is the one the chain started for its front, and its attempt
is still in the ledger. -/
def FailedFront (sup : SupervisionState) (id : ActorId) (n : Token) : Prop :=
  ∃ chain p, sup.pendingGroup = some (.restarting chain) ∧ chain.queue.head? = some id ∧
    chain.started.lookup id = some n ∧ sup.registry.life id = some (.restarting p n)

/-- The ledger moved past the report, and nothing was recorded for it. -/
def MovedPast (sup : SupervisionState) (ev : Report) : Prop :=
  ∃ life, sup.registry.life ev.childId = some life ∧ reportClass life ev.incarnation = .stale ∧
    sup.pendingManualEvents.lookup (ev.childId, ev.incarnation) = none

/-- The ledger holds an attempt that a `restart_child` began. -/
def AskedFor (sup : SupervisionState) (id : ActorId) (n : Token) : Prop :=
  ∃ child p, sup.registry.get id = some child ∧ child.lifecycle = .restarting p n ∧
    child.origin = .manual

/-- The strategy restarts the child for the end: no group is pending, no manual
stop is in progress, no call began the attempt, and the child's type asks for a
restart. -/
def FailureDue (sup : SupervisionState) (ev : Report) : Prop :=
  sup.pendingGroup = none ∧ ∃ child, sup.registry.get ev.childId = some child ∧
    shouldRestart child.restartType ev.reason = true ∧
    (child.lifecycle = .running ev.incarnation ∨ child.lifecycle = .down ev.incarnation .evaluate ∨
      ∃ p, child.lifecycle = .restarting p ev.incarnation ∧ child.origin ≠ .manual)

/-- The report is of an end the restart budget is to be charged for. -/
def ChargeDue (sup : SupervisionState) (ev : Report) : Prop :=
  sup.FailedFront ev.childId ev.incarnation ∨ sup.FailureDue ev

end SupervisionState

/-- What handling the end of an incarnation adds to the record, with the budget
it leaves. -/
inductive Judgement (sup : SupervisionState) (ev : Report) : RestartBudget → List Obs → Prop
  | spared (undue : ¬ sup.ChargeDue ev) : Judgement sup ev sup.budget []
  | removed (undue : ¬ sup.ChargeDue ev) :
      Judgement sup ev sup.budget [.evaluated ev.childId ev.incarnation .remove]
  | exhausted (due : sup.ChargeDue ev) (refused : (sup.budget.checkAndRecord sup.now).2 = false) :
      Judgement sup ev (sup.budget.checkAndRecord sup.now).1
        [.evaluated ev.childId ev.incarnation .budgetExhausted,
          .charged ev.childId ev.incarnation sup.now false]
  | restartOne (due : sup.ChargeDue ev) (granted : (sup.budget.checkAndRecord sup.now).2 = true) :
      Judgement sup ev (sup.budget.checkAndRecord sup.now).1
        [.evaluated ev.childId ev.incarnation .restartOne,
          .charged ev.childId ev.incarnation sup.now true]
  | restartGroup (commit : List Committed) (due : sup.ChargeDue ev)
      (granted : (sup.budget.checkAndRecord sup.now).2 = true)
      (covers : commit.map Committed.id = commitIds sup.strategy sup.registry.ids ev.childId)
      (idle : sup.pendingGroup = none) :
      Judgement sup ev (sup.budget.checkAndRecord sup.now).1
        [.planned commit, .evaluated ev.childId ev.incarnation .restartGroup,
          .charged ev.childId ev.incarnation sup.now true]
  | retried (granted : Bool) (due : sup.ChargeDue ev)
      (decided : (sup.budget.checkAndRecord sup.now).2 = granted) :
      Judgement sup ev (sup.budget.checkAndRecord sup.now).1
        [.charged ev.childId ev.incarnation sup.now granted]

/-- The commit of the last group restart that was decided. -/
def currentPlan : List Obs → List Committed
  | [] => []
  | .planned commit :: _ => commit
  | _ :: log => currentPlan log

namespace Config

/-- The configuration with a new supervision state. -/
abbrev withSup (c : Config) (sup : SupervisionState) : Config := { c with sup := sup }

/-- No group restart waits for its layout. -/
def Unlaid (c : Config) : Prop := ∀ plan, c.plan = some plan → plan.laid = false

end Config

/-- A move of the books. -/
inductive Move (rules : Rules) (c : Config) : Config → Prop
  | plane {next : SupervisionState} (move : PlaneMove c.sup next) :
      Move rules c (c.withSup next)
  | group {next : SupervisionState} (move : GroupMove c.sup next) :
      Move rules c (c.withSup next)
  /-- A child is spawned under an id that no subtree is left of. -/
  | spawn (id : ActorId) (name : Option String) (restartType : RestartType)
      (shutdown : Shutdown) (absent : c.sup.registry.get id = none) (up : c.stage ≠ .down) :
      Move rules c (c.withSup (c.sup.spawnChildInternal id name restartType shutdown))
  /-- The subtree of a failed attempt is written down. -/
  | subtree (id : ActorId) :
      Move rules c (c.withSup (c.sup.noteSubtree id))
  /-- A `terminate_child` returns `Ok`. -/
  | terminated (id : ActorId) (quiet : rules.quiet → c.plan = none) :
      Move rules c (c.withSup (c.sup.note (.terminated id)))
  /-- A manual stop is committed in the ledger. -/
  | commit (id : ActorId) (n : Token) (kind : ManualStop) (life : ChildLifecycle)
      (quiet : rules.quiet → c.plan = none) (entry : c.sup.registry.life id = some life)
      (moves : life = .running n ∨ life = .stopping n .bounce ∧ kind = .terminate)
      (planned : c.sup.groupMembership id ≠ .queued)
      (bounced : kind = .bounce → c.sup.Unplanned id) :
      Move rules c (c.withSup (c.sup.transition id (.stopping n kind)))
  /-- A bounce met a crash: the end owes its decision. -/
  | crash (id : ActorId) (n : Token) (life : ChildLifecycle) (reason : StopReason)
      (quiet : rules.quiet → c.plan = none) (entry : c.sup.registry.life id = some life)
      (stopped : life = .stopping n .bounce ∨ life = .running n ∧ c.sup.Unplanned id) :
      Move rules c (c.withSup (c.sup.transition id (.down n .evaluate)))
  /-- A manual stop is completed and its snapshot kept. -/
  | record (id : ActorId) (n : Token) (child : Child) (pending : DownPending)
      (reason : StopReason) (action : SupervisionAction)
      (quiet : rules.quiet → c.plan = none) (entry : c.sup.registry.get id = some child)
      (stopped : child.lifecycle = .running n ∨ ∃ kind, child.lifecycle = .stopping n kind)
      (rests : pending ≠ .evaluate) :
      Move rules c (c.withSup ((c.sup.transition id (.down n pending)).keepSnapshot id n
        ⟨id, child.name, reason, action⟩))
  /-- A bounce is completed: its snapshot is kept and the restart begun. -/
  | rebound (id : ActorId) (n : Token) (child : Child) (reason : StopReason)
      (quiet : rules.quiet → c.plan = none) (entry : c.sup.registry.get id = some child)
      (stopped : child.lifecycle = .stopping n .bounce ∨
        child.lifecycle = .running n ∧ c.sup.Unplanned id)
      (unplanned : c.sup.inRestartSet id = false)
      (up : c.stage ≠ .down) :
      Move rules c (c.withSup (((c.sup.transition id (.down n .snapshot)).keepSnapshot id n
        ⟨id, child.name, reason, .restartInitiated⟩).initiateRestart id .bounce))
  /-- A terminate dismisses the decision an end owes. -/
  | dismiss (id : ActorId) (n : Token) (child : Child)
      (quiet : rules.quiet → c.plan = none) (entry : c.sup.registry.get id = some child)
      (owes : child.lifecycle = .down n .evaluate) :
      Move rules c (c.withSup ((c.sup.transition id (.down n .snapshot)).keepSnapshot id n
        ⟨id, child.name, c.sup.dismissedReason child n, .removed⟩))
  /-- A snapshot's action is rewritten. -/
  | rewrite (id : ActorId) (n : Token) (event : ChildEvent)
      (action : SupervisionAction)
      (found : c.sup.pendingManualEvents.lookup (id, n) = some event) :
      Move rules c (c.withSup (c.sup.keepSnapshot id n { event with action := action }))
  /-- A terminate takes a member out of what the group restarts. -/
  | release (phase : GroupPhase) (id : ActorId) (life : ChildLifecycle)
      (quiet : rules.quiet → c.plan = none)
      (pending : c.sup.pendingGroup = some phase) (entry : c.sup.registry.life id = some life)
      (kept : life.KeptDown life.heldToken (phase.awaiting.lookup id)) :
      Move rules c (c.withSup ((c.sup.recordOverride id).leaveRestartSet id))
  /-- `restart_child` begins an attempt. -/
  | restart (id : ActorId) (n : Token) (pending : DownPending)
      (quiet : rules.quiet → c.plan = none)
      (entry : c.sup.registry.life id = some (.down n pending))
      (unplanned : c.sup.groupMembership id = .none) (heeded : rules.heeded → c.sup.Unkept id)
      (up : c.stage ≠ .down) :
      Move rules c (c.withSup (c.sup.initiateRestart id .manual))
  /-- `delete_child` removes a spec, or the spec goes with the end of its child. -/
  | prune (id : ActorId) (quiet : rules.quiet → c.Unlaid) :
      Move rules c (c.withSup (c.sup.removeSpec id))
  /-- The strategy restarts the child whose end it evaluated. -/
  | begin (id : ActorId) (n : Token) (looping : c.stage = .looping)
      (plan : c.plan = none) (pending : c.sup.pendingGroup = none)
      (entry : c.sup.registry.life id = some (.down n .none)) :
      Move rules c (c.withSup (c.sup.initiateRestart id .strategy))
  /-- The chain starts the member at its front. -/
  | chainBegin (chain : RestartChain) (front : ActorId) (rest : List ActorId)
      (n : Token) (owed : DownPending) (looping : c.stage = .looping) (plan : c.plan = none)
      (pending : c.sup.pendingGroup = some (.restarting chain))
      (queue : chain.queue = front :: rest)
      (entry : c.sup.registry.life front = some (.down n owed)) :
      Move rules c (c.withSup (c.sup.initiateRestart front .chain))
  /-- The chain is through its queue: what waited behind the group is handled. -/
  | complete (chain : RestartChain) (looping : c.stage = .looping)
      (plan : c.plan = none) (pending : c.sup.pendingGroup = some (.restarting chain))
      (queue : chain.queue = []) :
      Move rules c { c with
        sup := { c.sup with
          pendingGroup := none
          queuedTriggers := []
          log := .groupCompleted :: c.sup.log }
        work := c.work ++ c.sup.queuedTriggers }
  /-- A group restart is decided over the commit. -/
  | decide (plan : Plan) (fresh : plan.laid = false) :
      Move rules c { c with plan := some plan }
  /-- What the members of a first group restart owed was absorbed. -/
  | lay (plan : Plan) (planned : c.plan = some plan) (looping : c.stage = .looping)
      (idle : c.sup.pendingGroup = none)
      (current : currentPlan c.sup.log = plan.commit) (laid : c.sup.Laid plan.commit ∅) :
      Move rules c { c with plan := some { plan with laid := true } }
  /-- The group restart that was decided is laid out. -/
  | install (plan : Plan) (planned : c.plan = some plan) (laid : plan.laid = true) :
      Move rules c { c with
        sup := { c.sup with
          pendingGroup := some (layOut plan.commit ∅ ⟨∅, c.sup.firstPlanOutside plan.failed⟩) }
        plan := none }
  /-- The pending group is laid out again, after what its members owed was
  absorbed. -/
  | reinstall (plan : Plan) (chain : RestartChain)
      (pending : c.sup.pendingGroup = some (.restarting chain))
      (front : chain.queue.head? = some plan.failed)
      (absorbed : ∀ m ∈ (c.sup.planRetry plan.failed).commit, ∀ n,
        c.sup.registry.life m.id ≠ some (.down n .evaluate))
      (present : plan.failed ∈ c.sup.registry.ids)
      (rests : ∀ life, c.sup.registry.life plan.failed = some life → life.AtRest) :
      Move rules c { c with
        sup := { c.sup with
          pendingGroup := some (layOut (c.sup.planRetry plan.failed).commit chain.overrides
            chain.scope)
          log := .planned (c.sup.planRetry plan.failed).commit :: c.sup.log }
        plan := none }
  /-- The loop takes the report of a death-plane task. -/
  | takeDeath (task : DeathTask) (reason : StopReason)
      (found : c.sup.deathTask task.incarnation = some task) :
      Move rules c { c with
        sup := { c.sup with
          deathSet := c.sup.deathSet.erase task
          log := .taken task.childId task.incarnation :: c.sup.log }
        work := ⟨task.childId, reason, task.incarnation⟩ :: c.work }
  /-- The loop takes the failure an attempt returned. -/
  | takeRestart (task : RestartTask) (reason : StopReason)
      (found : c.sup.restartTask task.incarnation = some task) :
      Move rules c { c with
        sup := { c.sup with
          restartSet := c.sup.restartSet.erase task
          log := .taken task.childId task.incarnation :: c.sup.log }
        work := ⟨task.childId, reason, task.incarnation⟩ :: c.work }
  /-- The loop reports an attempt that was lost before it spawned anything. -/
  | takeLost (task : RestartTask) (panic : Option ActorError)
      (found : c.sup.restartTask task.incarnation = some task) :
      Move rules c { c with
        sup := { c.sup with
          restartSet := c.sup.restartSet.erase task
          log := .taken task.childId task.incarnation ::
            .reported task.childId task.incarnation (lostAttemptReason panic) :: c.sup.log }
        work := ⟨task.childId, lostAttemptReason panic, task.incarnation⟩ :: c.work }
  /-- An attempt ended with nothing to report. -/
  | cancel (task : RestartTask) (unlaid : c.Unlaid)
      (found : c.sup.restartTask task.incarnation = some task) :
      Move rules c (c.withSup (Sys.recordCancelled
        (c.sup.dropAttempt task) task.childId task.incarnation))
  /-- An attempt is adopted. -/
  | adopt (task : RestartTask) (unlaid : c.Unlaid)
      (found : c.sup.restartTask task.incarnation = some task)
      (accepts : Sys.accepts c.sup task.childId task.incarnation = true) :
      Move rules c (c.withSup (Sys.recordAdopted
        (c.sup.dropAttempt task) task.childId task.incarnation))
  /-- The ledger moved past an attempt that was adopted. -/
  | adoptStale (task : RestartTask)
      (found : c.sup.restartTask task.incarnation = some task) :
      Move rules c (c.withSup (c.sup.dropAttempt task))
  /-- The end of the entry's incarnation is decided. -/
  | close (ev : Report) (work : List Report) (event : ChildEvent)
      (budget : RestartBudget) (obs : List Obs) (looping : c.stage = .looping)
      (unplanned : c.plan = none) (head : c.work = ev :: work)
      (opens : c.sup.Open ev.childId ev.incarnation)
      (judged : Judgement c.sup ev budget obs)
      (subject : event.childId = ev.childId) (loud : ¬ rules.still) :
      Move rules c { c with
        sup := { c.sup.transition ev.childId (.down ev.incarnation .none) with
          budget := budget
          log := obs ++ c.sup.log }
        work := work
        out := (event, ev.incarnation) :: c.out }
  /-- The end of a removed child is decided. -/
  | closeGone (ev : Report) (work : List Report) (event : ChildEvent) (head : c.work = ev :: work)
      (subject : event.childId = ev.childId) :
      Move rules c { c with
        sup := c.sup.note (.evaluated ev.childId ev.incarnation .remove)
        work := work
        out := (event, ev.incarnation) :: c.out }
  /-- The end waits behind the pending group, owing its decision. -/
  | queue (ev : Report) (work : List Report) (phase : GroupPhase)
      (life : ChildLifecycle) (head : c.work = ev :: work)
      (pending : c.sup.pendingGroup = some phase)
      (entry : c.sup.registry.life ev.childId = some life)
      (opens : reportClass life ev.incarnation ≠ .stale)
      (unstopped : ∀ kind, life ≠ .stopping ev.incarnation kind)
      (unawaited : phase.awaiting.lookup ev.childId = some ev.incarnation →
        (c.sup.pendingManualEvents.lookup (ev.childId, ev.incarnation)).isSome)
      (unqueued : ∀ chain, phase = .restarting chain → ev.childId ∉ chain.queue) :
      Move rules c { c with
        sup := { c.sup.transition ev.childId (.down ev.incarnation .evaluate) with
          queuedTriggers := c.sup.queuedTriggers ++ [ev] }
        work := work }
  /-- A report the ledger moved past is dropped. -/
  | drop (ev : Report) (work : List Report) (head : c.work = ev :: work)
      (past : c.sup.MovedPast ev) (lossy : ¬ rules.kept) :
      Move rules c { c with work := work }
  /-- An end is delivered from its snapshot. -/
  | snapshot (ev : Report) (work : List Report) (event : ChildEvent) (unlaid : c.Unlaid)
      (head : c.work = ev :: work)
      (found : c.sup.pendingManualEvents.lookup (ev.childId, ev.incarnation) = some event) :
      Move rules c { c with
        sup := c.sup.takeSnapshot ev
        work := work
        out := (event, ev.incarnation) :: c.out }
  /-- A group absorbs an owed end whose report it finds. -/
  | absorb (id : ActorId) (n : Token) (queued work : List Report) (event : ChildEvent)
      (looping : c.stage = .looping) (unlaid : c.Unlaid)
      (entry : c.sup.registry.life id = some (.down n .evaluate))
      (taken : c.sup.takeReport c.work id n =
        some ({ c.sup with queuedTriggers := queued }, work, event.reason))
      (subject : event.childId = id) :
      Move rules c { c with
        sup := { c.sup.transition id (.down n .none) with queuedTriggers := queued }
        work := work
        out := c.out ++ [(event, n)] }
  /-- A group absorbs an owed end whose report is still to come. -/
  | absorbSnapshot (id : ActorId) (n : Token) (child : Child)
      (action : SupervisionAction) (unlaid : c.Unlaid)
      (entry : c.sup.registry.get id = some child) (owes : child.lifecycle = .down n .evaluate) :
      Move rules c (c.withSup ((c.sup.transition id (.down n .snapshot)).keepSnapshot id n
        ⟨id, child.name, (c.sup.slots n).endReason, action⟩))
  /-- A decided end gets its final name and action. -/
  | retitle (event final : ChildEvent) (n : Token) (rest : List Delivery)
      (unlaid : c.Unlaid) (held : c.out = (event, n) :: rest)
      (subject : final.childId = event.childId) :
      Move rules c { c with out := (final, n) :: rest }
  /-- The order of what waits for delivery is changed. -/
  | reorder (out : List Delivery) (unlaid : c.Unlaid) (perm : out.Perm c.out) :
      Move rules c { c with out := out }
  /-- `on_child_stopped` begins. -/
  | deliver (event : ChildEvent) (n : Token) (rest : List Delivery)
      (held : c.out = (event, n) :: rest) :
      Move rules c { c with
        sup := c.sup.note (.delivered event n (c.sup.restartStands event.childId n))
        out := rest }
  /-- A decided end stays owed with the loop's end. -/
  | owe (event : ChildEvent) (n : Token) (rest : List Delivery)
      (owed : List Report) (names : Finmap fun _ : ActorId × Token => String)
      (held : c.out = (event, n) :: rest)
      (perm : owed.Perm (⟨event.childId, event.reason, n⟩ :: c.sup.owed)) :
      Move rules c { c with
        sup := { c.sup with owed := owed, owedNames := names }
        out := rest }
  /-- The message loop begins. -/
  | enter (starting : c.stage = .starting) : Move rules c { c with stage := .looping }
  /-- The message loop ends and leaves its reports owed. -/
  | endLoop (looping : c.stage = .looping) :
      Move rules c { c with
        sup := { c.sup with owed := c.sup.owed ++ c.work, log := .loopEnded :: c.sup.log }
        work := []
        plan := none
        stage := .ended }
  /-- The collection takes up what the loop left. -/
  | gather (ended : c.stage = .ended) :
      Move rules c { c with
        sup := { c.sup with owed := [], queuedTriggers := [] }
        work := c.sup.owed ++ c.sup.queuedTriggers ++ c.work
        stage := .gathered }
  /-- A collected end is recorded for its final delivery. -/
  | collect (ev : Report) (work : List Report) (name : Option String)
      (ending : c.stage ≠ .starting ∧ c.stage ≠ .looping) (head : c.work = ev :: work) :
      Move rules c { c with
        sup := Sys.recordCollectedEnd c.sup ev.childId ev.incarnation
        work := work
        out := c.out ++ [(⟨ev.childId, name, ev.reason, .supervisorStopping⟩, ev.incarnation)] }
  /-- No attempt that ended is left on the restart plane. -/
  | drainRestarts (gathered : c.stage = .gathered) :
      Move rules c { c with stage := .drained }
  /-- No task that ended is left on the death plane. -/
  | drainDeaths (before : c.stage = .drained) :
      Move rules c { c with
        sup := { c.sup with pendingGroup := none }
        stage := .delivering }
  /-- The teardown begins. -/
  | teardown (before : c.stage = .starting ∨ c.stage = .delivering)
      (kept : rules.kept → c.sup.queuedTriggers = []) :
      Move rules c { c with
        sup := { c.sup with restartFns := ∅, pendingGroup := none, queuedTriggers := [] }
        plan := none
        stage := .down }
  /-- The teardown records the end of an attempt that nothing delivers. -/
  | discard (task : RestartTask) (torn : c.stage = .down)
      (found : c.sup.restartTask task.incarnation = some task) :
      Move rules c (c.withSup (Sys.recordCollectedEnd
        (c.sup.dropAttempt task) task.childId task.incarnation))
  | discardLost (task : RestartTask) (panic : Option ActorError)
      (torn : c.stage = .down) (found : c.sup.restartTask task.incarnation = some task) :
      Move rules c (c.withSup (Sys.recordCollectedEnd
        { c.sup with
          restartSet := c.sup.restartSet.erase task
          log := .reported task.childId task.incarnation (lostAttemptReason panic) :: c.sup.log }
        task.childId task.incarnation))
  /-- The refusal of manual calls in the final deliveries is set or lifted. -/
  | refuse (refused : Bool) :
      Move rules c (c.withSup { c.sup with finalDelivery := refused })
  /-- A `Kill` is stored. -/
  | kill : Move rules c { c with killed := true }
  /-- The run ends by `Kill`, with what it still had to do. -/
  | abort (killed : c.killed = true) (lossy : ¬ rules.kept) :
      Move rules c { c with work := [], out := [], plan := none, stage := .down }

/-- A sequence of moves. -/
abbrev Moves (rules : Rules) : Config → Config → Prop := Relation.ReflTransGen (Move rules)

end TokioActors
