/-
# The rules of the manual calls

The pure decisions behind `stop_child`, `terminate_child`, `restart_child` and
`delete_child`: what a call commits and does, given the facts the supervisor
reads about the child, and what a completed manual stop decides.
-/

import TokioActors.Supervision.Ledger

namespace TokioActors

/-- How the pending group restart concerns a child. -/
inductive GroupMembership
  | none
  | awaited (overridden : Bool)
  | queued
  | released
  deriving DecidableEq, Repr

/-- What the supervisor can see of the occupant's task. -/
inductive TaskState
  | live
  | runnerLost
  | ended
  deriving DecidableEq, Repr

/-- The answer of a manual call. -/
inductive ManualReply
  | ok
  | childNotFound
  | childRestarting
  | childRunning
  | absorbed
  deriving DecidableEq, Repr

/-- One effect of a committed manual stop, in the order it is carried out. -/
inductive CommitEffect
  | raiseFirst
  | writeOrder
  | recordOverride
  | leaveRestartOrder
  | join
  | reask
  | reaskOnce
  | classify
  | dismiss
  | rewriteSnapshot
  | answer (reply : ManualReply)
  deriving DecidableEq, Repr

/-- What a manual stop commits: the ledger move, if any, and its effects. -/
structure Commit where
  moveTo : Option ChildLifecycle
  effects : List CommitEffect
  deriving DecidableEq, Repr

/-- A commit that changes nothing and answers. -/
def answer (reply : ManualReply) : Commit := ⟨none, [.answer reply]⟩

/-- The facts a manual call reads about its child before it decides. -/
structure ManualFacts where
  life : Option ChildLifecycle
  task : TaskState
  membership : GroupMembership
  restartType : RestartType
  pool : Bool
  restarted : Bool
  inKeepScope : Bool
  policy : Shutdown
  laneVetoable : Bool
  reasked : Bool
  hasOrder : Bool
  deriving DecidableEq, Repr

namespace ManualFacts

def prunable (f : ManualFacts) : Bool := f.pool || f.restartType == .temporary

def permanent (f : ManualFacts) : Bool := f.restartType == .permanent

def askPossible (f : ManualFacts) : Bool :=
  f.task != .ended && f.policy == .infinity && f.laneVetoable

end ManualFacts

/-- What `stop_child` does with a child. -/
inductive StopRoute
  | bounce
  | asTerminate
  | absorbed
  | refused
  deriving DecidableEq, Repr

def stopRoute (f : ManualFacts) : StopRoute :=
  let attempt := (f.life.map ChildLifecycle.isRestarting).getD false
  let ownPolicy : StopRoute := if f.permanent then .refused else .asTerminate
  match f.membership with
  | .queued =>
    if attempt then .refused else if f.permanent then .absorbed else .asTerminate
  | .awaited false => if f.permanent then .absorbed else .asTerminate
  | .awaited true => ownPolicy
  | .released => ownPolicy
  | .none =>
    if f.restarted then ownPolicy
    else if !f.permanent && f.inKeepScope then .asTerminate
    else .bounce

/-- The commit of a `stop_child` that bounces its child. -/
def bounceCommit (life : ChildLifecycle) (f : ManualFacts) : Commit :=
  match life with
  | .restarting _ _ => answer .childRestarting
  | .running n =>
    match f.task with
    | .ended => ⟨none, [.classify, .answer .ok]⟩
    | .live => ⟨some (.stopping n .bounce), [.raiseFirst, .writeOrder, .join]⟩
    | .runnerLost => ⟨some (.stopping n .bounce), [.writeOrder, .join]⟩
  | .stopping _ _ => ⟨none, if f.askPossible then [.reask, .join] else [.join]⟩
  | .down _ .evaluate => answer .childRestarting
  | .down _ _ => answer .ok

/-- The one more ask a joining call gives, shared with the group restart when
the call records its child there. -/
def joinAsk (f : ManualFacts) (shared : Bool) : List CommitEffect :=
  if !f.askPossible then []
  else if shared then (if f.reasked then [] else [.reaskOnce])
  else [.reask]

/-- The upgrade of a bounce in progress to a terminate. -/
def upgraded (n : Token) (inFlight : ManualStop) : Option ChildLifecycle :=
  if inFlight = .bounce then some (.stopping n .terminate) else none

/-- The override a terminate outside the group's sets records, when the spec it
leaves is kept and lies in the group's scope. -/
def recordIf (f : ManualFacts) (specKept : Bool) : List CommitEffect :=
  if f.inKeepScope && specKept then [.recordOverride] else []

/-- The commit of `terminate_child`. An attempt in flight is refused whatever
the membership. -/
def terminateCommit (life : ChildLifecycle) (f : ManualFacts) : Commit :=
  if life.isRestarting then answer .childRestarting else
  match f.membership with
  | .none =>
    match life with
    | .restarting _ _ => answer .childRestarting
    | .running n =>
      match f.task with
      | .ended => ⟨none, .classify :: (recordIf f (!f.prunable) ++ [.answer .ok])⟩
      | .live =>
        ⟨some (.stopping n .terminate),
          .raiseFirst :: .writeOrder :: (recordIf f true ++ [.join])⟩
      | .runnerLost =>
        ⟨some (.stopping n .terminate), .writeOrder :: (recordIf f true ++ [.join])⟩
    | .stopping n inFlight =>
      ⟨upgraded n inFlight, joinAsk f f.inKeepScope ++ (recordIf f true ++ [.join])⟩
    | .down _ .evaluate =>
      ⟨none, .dismiss :: (recordIf f (!f.prunable) ++ [.answer .ok])⟩
    | .down _ _ => ⟨none, recordIf f true ++ [.answer .ok]⟩
  | .awaited _ =>
    match life with
    | .running _ =>
      let stop : List CommitEffect :=
        match f.task, f.hasOrder with
        | .ended, _ => []
        | .live, false => [.raiseFirst, .writeOrder]
        | .runnerLost, false => [.writeOrder]
        | _, true => joinAsk f true
      ⟨none, .recordOverride :: .leaveRestartOrder :: (stop ++ [.join])⟩
    | .stopping n inFlight =>
      ⟨upgraded n inFlight,
        .recordOverride :: .leaveRestartOrder :: (joinAsk f true ++ [.join])⟩
    | _ => answer .childRestarting
  | .queued =>
    match life with
    | .down _ .evaluate =>
      ⟨none, [.dismiss, .recordOverride, .leaveRestartOrder, .answer .ok]⟩
    | .down _ .snapshot =>
      ⟨none, [.recordOverride, .leaveRestartOrder, .rewriteSnapshot, .answer .ok]⟩
    | .down _ _ => ⟨none, [.recordOverride, .leaveRestartOrder, .answer .ok]⟩
    | _ => answer .childRestarting
  | .released =>
    match life with
    | .down _ _ => answer .ok
    | .stopping _ .terminate => ⟨none, joinAsk f true ++ [.join]⟩
    | _ => answer .childRestarting

/-- The commit of a manual stop of either kind. -/
def manualCommit (kind : ManualStop) (f : ManualFacts) : Commit :=
  match f.life with
  | none => answer .childNotFound
  | some life =>
    match kind with
    | .terminate => terminateCommit life f
    | .bounce =>
      match stopRoute f with
      | .absorbed => answer .absorbed
      | .refused => answer .childRestarting
      | .asTerminate => terminateCommit life f
      | .bounce => bounceCommit life f

/-- The kind a call acts with: a `stop_child` may act as a terminate. -/
def effectiveKind (kind : ManualStop) (f : ManualFacts) : ManualStop :=
  if kind = .bounce ∧ stopRoute f = .asTerminate then .terminate else kind

/-- The two manual calls that answer at once. -/
inductive ManualOp
  | restartChild
  | deleteChild
  deriving DecidableEq, Repr

/-- The answer of `restart_child` and `delete_child`. -/
def manualAnswer (op : ManualOp) (f : ManualFacts) : ManualReply :=
  match f.life with
  | none => .childNotFound
  | some life =>
    let refused : Bool :=
      match f.membership with
      | .awaited _ => true
      | .queued => true
      | .released => op == .restartChild
      | .none => false
    if refused then .childRestarting else
    match life with
    | .running _ =>
      if f.task = .ended then .childRestarting
      else if op = .restartChild ∧ f.restarted then .childRestarting
      else .childRunning
    | .stopping _ _ => .childRestarting
    | .restarting _ _ => .childRestarting
    | .down _ .evaluate => .childRestarting
    | .down _ _ => .ok

/-- What a completed manual stop decides. -/
structure ManualOutcome where
  /-- The action of the snapshot; none when the end is evaluated as a crash. -/
  action : Option SupervisionAction
  pending : DownPending
  remove : Bool
  initiate : Bool
  deriving DecidableEq, Repr

/-- The reason is a failure. -/
def StopReason.isFailure : StopReason → Bool
  | .failure _ => true
  | _ => false

/-- The decision of a completed manual stop. A bounce that met a crash is the
crash; a stop that ended a member of the restart set belongs to the group. -/
def classifyManual (kind : ManualStop) (reason : StopReason) (restartType : RestartType)
    (pool inRestartSet : Bool) : ManualOutcome :=
  if kind = .bounce ∧ reason.isFailure then ⟨none, .evaluate, false, false⟩
  else if inRestartSet then ⟨some .restartInitiated, .snapshot, false, false⟩
  else
    let prunable := pool || restartType == .temporary
    let staysDown : ManualOutcome :=
      ⟨some .removed, if prunable then .none else .snapshot, prunable, false⟩
    match kind with
    | .terminate => staysDown
    | .bounce =>
      if pool then staysDown
      else if restartType = .permanent then ⟨some .restartInitiated, .snapshot, false, true⟩
      else staysDown

end TokioActors
