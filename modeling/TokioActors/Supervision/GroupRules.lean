/-
# The rules of a group restart

The pure decisions of a group restart: which children one failure commits, what
the stop queue does with its head, what the chain does with its front, and where
an end that is still owed its decision is absorbed.
-/

import TokioActors.Supervision.ManualRules

namespace TokioActors

/-- A child as the group rules read it. -/
structure GroupMember where
  id : ActorId
  life : ChildLifecycle
  restartType : RestartType
  deriving DecidableEq, Repr

/-- What a group does with a member it commits: wait for its end, cancel its
attempt, restart it. -/
structure MemberAction where
  held : Bool
  cancel : Bool
  restarts : Bool
  deriving DecidableEq, Repr

/-- One member a group commits, with the incarnation it was committed on. -/
structure Committed where
  id : ActorId
  token : Token
  action : MemberAction
  deriving DecidableEq, Repr

/-- The incarnation a member is committed on. -/
def commitToken : ChildLifecycle → Token
  | .running n => n
  | .stopping n _ => n
  | .down n _ => n
  | .restarting _ next => next

@[simp] theorem commitToken_eq_heldToken (life : ChildLifecycle) :
    commitToken life = life.heldToken := by
  cases life <;> rfl

/-- The commit of one member of a group whose failed child is `failed`. -/
def commitMember (failed : ActorId) (child : GroupMember) : Committed :=
  let held := child.id != failed && !child.life.isDown
  ⟨child.id, commitToken child.life,
    ⟨held, held && child.life.isRestarting, child.restartType != .temporary⟩⟩

/-- The members a failure commits: every child, or under `RestForOne` the failed
child and those started after it. -/
def groupCommit (strategy : RestartStrategy) (children : List GroupMember)
    (failed : ActorId) : List Committed :=
  let start :=
    match strategy with
    | .restForOne => (children.findIdx? fun child => child.id == failed).getD 0
    | _ => 0
  (children.drop start).map (commitMember failed)

/-- The plan of a group that is restarted again. -/
structure RetryPlan where
  commit : List Committed
  restartOrder : List ActorId
  deriving DecidableEq, Repr

/-- The ids a commit restarts, in start order. -/
def restartIds (commit : List Committed) : List ActorId :=
  (commit.filter fun member => member.action.restarts).map Committed.id

def retryPlan (strategy : RestartStrategy) (registry : List GroupMember)
    (overrides : List ActorId) (failed : ActorId) : RetryPlan :=
  let commit := (groupCommit strategy registry failed).map fun member =>
    if member.id ∈ overrides then
      { member with action := { member.action with restarts := false } }
    else member
  ⟨commit, restartIds commit⟩

/-- What the stop queue reads about its head. -/
structure QueueHead where
  awaited : Bool
  verdict : Bool
  signalled : Bool
  handled : Bool
  life : Option ChildLifecycle
  hasOrder : Bool
  askPossible : Bool
  reasked : Bool
  attemptPastInit : Bool
  attemptSpawned : Bool
  deriving DecidableEq, Repr

inductive QueueStep
  | pop
  | wait
  | await
  | order
  | orderAttempt (ask : Bool)
  | orderUnpublished
  | join (ask : Bool)
  deriving DecidableEq, Repr

/-- The stop queue's step for its head. -/
def stopQueueNext (head : QueueHead) : QueueStep :=
  if !head.awaited || head.verdict || (!head.signalled && head.handled) then .pop
  else if head.signalled then .wait
  else
    let ask := head.askPossible && !head.reasked
    match head.life with
    | some (.running _) => if !head.hasOrder then .order else .join ask
    | some (.stopping _ _) => .join ask
    | some (.restarting _ _) =>
      if !head.attemptSpawned then .orderUnpublished
      else .orderAttempt (head.hasOrder && head.attemptPastInit && ask)
    | some (.down _ _) => .await
    | none => .await

/-- Whether the head counts as reached after a step. -/
def queueHeadReachedAfter (step : QueueStep) (before : Bool) : Bool :=
  match step with
  | .pop => false
  | .wait => before
  | _ => true

inductive MemberEnd
  | restartInSlot
  | pruneAndRemove
  deriving DecidableEq, Repr

def groupMemberEnd (restartType : RestartType) : MemberEnd :=
  if restartType = .temporary then .pruneAndRemove else .restartInSlot

/-- What the chain does with the member at its front. -/
inductive FrontAction
  | fresh
  | initiate
  | stopThenInitiate
  | hold
  deriving DecidableEq, Repr

def chainFront (life : ChildLifecycle) (started : Option Token) : FrontAction :=
  match life with
  | .down _ _ => .initiate
  | .running k => if started = some k then .fresh else .stopThenInitiate
  | .stopping _ _ => .hold
  | .restarting _ _ => .hold

/-- How the failure of a restart attempt is routed. -/
inductive Route
  | chainRetry
  | member
  | removed
  | evaluate
  deriving DecidableEq, Repr

def attemptFailureRoute (chainFrontOwn : Bool) (membership : GroupMembership)
    (origin : Origin) : Route :=
  if chainFrontOwn then .chainRetry
  else
    match membership with
    | .awaited _ => .member
    | .queued => .member
    | _ => if origin = .manual then .removed else .evaluate

/-- Where the report of an owed end is. -/
inductive ReportPlace
  | queued
  | worklist
  | deathPlane
  deriving DecidableEq, Repr

inductive Absorption
  | keep
  | deliver
  | snapshot
  deriving DecidableEq, Repr

/-- What a group does with the owed end of a child it covers. -/
def absorbable (place : ReportPlace) (inPlan : Bool) (life : Option ChildLifecycle) :
    Absorption :=
  let owed : Bool :=
    match life with
    | some (.down _ .evaluate) => true
    | _ => false
  if !inPlan || !owed then .keep
  else
    match place with
    | .queued => .deliver
    | .worklist => .deliver
    | .deathPlane => .snapshot

/-- The first barrier entry, when every entry carries a verdict. -/
def barrierBlockedOnlyByVerdicts (entries : List (ActorId × Bool)) : Option ActorId :=
  if entries = [] ∨ ¬ entries.all (fun entry => entry.2) then none
  else entries.head?.map Prod.fst

end TokioActors
