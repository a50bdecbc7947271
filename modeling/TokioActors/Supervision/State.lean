/-
# The supervision state

Everything a supervisor holds about its children: the registry with its ledger
entries, the budget, the pending group restart, the ends that wait for a
decision or a delivery, and the two planes of tasks that report to it. The
slots its children share with their executors are part of the state, and so is
the record of what was observed so far, which no function of the model reads.

A slot is named by its incarnation's token. The source replaces a child's slot
control exactly where it writes a new token into the ledger entry, so the
control of a child is the slot of the token its entry holds.
-/

import TokioActors.Supervision.GroupRules
import TokioActors.Supervision.Slot

namespace TokioActors

/-- A map from ids to incarnations. -/
abbrev TokenMap := Finmap fun _ : ActorId => Token

/-- The restart budget: at most `maxRestarts` restarts in `restartWindow`. -/
structure RestartBudget where
  maxRestarts : Nat
  restartWindow : Nat
  timestamps : List Nat := []
  deriving DecidableEq, Repr

/-- Charges one restart, unless the window holds the maximum already. -/
def RestartBudget.checkAndRecord (budget : RestartBudget) (now : Nat) : RestartBudget × Bool :=
  let kept :=
    if budget.restartWindow ≤ now then
      budget.timestamps.dropWhile fun front => decide (front < now - budget.restartWindow)
    else budget.timestamps
  if kept.length ≥ budget.maxRestarts then ({ budget with timestamps := kept }, false)
  else ({ budget with timestamps := kept ++ [now] }, true)

/-- A child of the registry. -/
structure Child where
  id : ActorId
  name : Option String
  restartType : RestartType
  shutdown : Shutdown
  lifecycle : ChildLifecycle
  origin : Origin
  /-- The last incarnation whose subtree a start under the id waits for. -/
  predecessor : Option Token
  deriving DecidableEq, Repr

/-- The children of a supervisor, in start order. -/
abbrev Registry := List Child

/-- The slot the child's control belongs to. -/
def Child.ctl (child : Child) : Token := child.lifecycle.heldToken

def Child.groupMember (child : Child) : GroupMember :=
  ⟨child.id, child.lifecycle, child.restartType⟩

/-- The scope of a group restart: members it has restarted, and the children a
`RestForOne` group leaves alone. -/
structure GroupScope where
  restarted : Finset ActorId := ∅
  outside : Finset ActorId := ∅

/-- The stop phase of a group restart. -/
structure GroupRestart where
  awaiting : TokenMap
  stopQueue : List ActorId
  headReached : Bool
  restartOrder : List ActorId
  manualOverrides : TokenMap
  scope : GroupScope

/-- The restart chain of a group restart. -/
structure RestartChain where
  queue : List ActorId
  overrides : TokenMap
  started : TokenMap
  scope : GroupScope

inductive GroupPhase
  | stopping (group : GroupRestart)
  | restarting (chain : RestartChain)

/-- What a death-plane task does: the runner of an incarnation, the replacement
of a lost runner that follows the incarnation's status plane, or one that
reports at once. -/
inductive DeathKind
  | runner
  | follow
  | direct (reason : StopReason)
  deriving DecidableEq, Repr

/-- How a death-plane task ended: with its report, or without one (it panicked
with the given error, or was aborted). -/
inductive DeathResult
  | returned (reason : StopReason)
  | failed (panic : Option ActorError)
  deriving DecidableEq, Repr

/-- A task of the death plane, with the owner it is registered under. -/
structure DeathTask where
  childId : ActorId
  incarnation : Token
  kind : DeathKind
  result : Option DeathResult := none
  deriving DecidableEq, Repr

/-- Where a restart attempt is: waiting for its predecessor's subtree, about to
read its commands before the factory, building, or awaiting the incarnation it
spawned. -/
inductive AttemptStage
  | waiting
  | checking
  | building
  | starting
  deriving DecidableEq, Repr

inductive RestartOutcome
  | adopted
  | failed (reason : StopReason)
  | cancelled (dropPanic : Option String)
  | predecessorUnresponsive
  | stopped (reason : StopReason)
  deriving DecidableEq, Repr

inductive RestartResult
  | returned (outcome : RestartOutcome)
  | failed (panic : Option ActorError)
  deriving DecidableEq, Repr

/-- A task of the restart plane. -/
structure RestartTask where
  childId : ActorId
  incarnation : Token
  predecessor : Option Token
  stage : AttemptStage := .waiting
  result : Option RestartResult := none
  deriving DecidableEq, Repr

/-- How the strategy decided an end it evaluated. -/
inductive Verdict
  | restartOne
  | restartGroup
  | remove
  | budgetExhausted
  deriving DecidableEq, Repr

/-- What is observed of a run. -/
inductive Obs
  /-- A spawn registered the child on its first incarnation. -/
  | spawned (id : ActorId) (n : Token)
  /-- An attempt was begun from the given ledger entry. -/
  | began (id : ActorId) (life : ChildLifecycle) (n : Token) (origin : Origin)
  | adopted (id : ActorId) (n : Token)
  /-- A runner, its replacement or an attempt reported the end. -/
  | reported (id : ActorId) (n : Token) (reason : StopReason)
  /-- The supervisor took the report. -/
  | taken (id : ActorId) (n : Token)
  /-- An attempt ended with nothing to report. -/
  | cancelled (id : ActorId) (n : Token)
  /-- `on_child_stopped` began; `stands` is whether a restart of the child after
  the end stands at that moment. -/
  | delivered (event : ChildEvent) (n : Token) (stands : Bool)
  /-- The restart budget was charged for the end at the instant. -/
  | charged (id : ActorId) (n : Token) (time : Nat) (granted : Bool)
  | evaluated (id : ActorId) (n : Token) (verdict : Verdict)
  /-- A group restart was decided over the given commit. -/
  | planned (commit : List Committed)
  /-- The stop queue gave its head a stop order. -/
  | ordered (id : ActorId) (n : Token)
  | groupCompleted
  /-- The chain found at its front an incarnation it did not start. -/
  | foreignFront (id : ActorId)
  /-- A `terminate_child` returned `Ok`. -/
  | terminated (id : ActorId)
  /-- A call took the child out of the members the pending group restarts. -/
  | released (id : ActorId)
  | specRemoved (id : ActorId)
  /-- The incarnation was found unresponsive. -/
  | unresponsive (n : Token)
  /-- The message loop ended. -/
  | loopEnded
  deriving DecidableEq, Repr

/-- The state of a supervisor. -/
structure SupervisionState where
  strategy : RestartStrategy
  budget : RestartBudget
  registry : Registry := []
  restartFns : Finset ActorId := ∅
  pendingGroup : Option GroupPhase := none
  queuedTriggers : List Report := []
  pendingManualEvents : Finmap (fun _ : ActorId × Token => ChildEvent) := ∅
  deathSet : List DeathTask := []
  restartSet : List RestartTask := []
  finalDelivery : Bool := false
  owed : List Report := []
  owedNames : Finmap (fun _ : ActorId × Token => String) := ∅
  retired : TokenMap := ∅
  /-- The slots of all incarnations, shared with their executors. -/
  slots : Token → Slot := fun _ => {}
  /-- The system's incarnation counter. -/
  nextIncarnation : Token := 1
  /-- The clock. -/
  now : Nat := 0
  /-- What was observed so far, newest first. -/
  log : List Obs := []

end TokioActors
