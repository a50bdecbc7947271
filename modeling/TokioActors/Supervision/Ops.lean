/-
# Operations of the supervision state

The operations of `SupervisionState`, each as the source computes it: registry
access, the ledger's one transition point, beginning an attempt, removing a
spec, and the questions the manual calls and the group restart ask.
-/

import TokioActors.Lib.Keyed
import TokioActors.Supervision.State

namespace TokioActors

namespace GroupPhase

/-- The members the group still has to restart, in either phase. -/
def order : GroupPhase → List ActorId
  | stopping group => group.restartOrder
  | restarting chain => chain.queue

/-- The incarnations a `terminate_child` released from the group. -/
def overrides : GroupPhase → TokenMap
  | stopping group => group.manualOverrides
  | restarting chain => chain.overrides

def scope : GroupPhase → GroupScope
  | stopping group => group.scope
  | restarting chain => chain.scope

/-- The ends the group's barrier waits for. -/
def awaiting : GroupPhase → TokenMap
  | stopping group => group.awaiting
  | restarting _ => ∅

/-- Records that the group keeps the incarnation down. -/
def recordOverride (id : ActorId) (token : Token) : GroupPhase → GroupPhase
  | stopping group =>
    stopping { group with manualOverrides := group.manualOverrides.insert id token }
  | restarting chain => restarting { chain with overrides := chain.overrides.insert id token }

/-- Takes the id out of the members the group restarts. -/
def leaveRestartSet (id : ActorId) : GroupPhase → GroupPhase
  | stopping group =>
    stopping { group with restartOrder := group.restartOrder.filter fun other => other != id }
  | restarting chain =>
    restarting { chain with queue := chain.queue.filter fun other => other != id }

/-- Takes a removed spec out of every set but the barrier. -/
def removeSpec (id : ActorId) : GroupPhase → GroupPhase
  | stopping group =>
    stopping { group with
      restartOrder := group.restartOrder.filter fun other => other != id
      manualOverrides := group.manualOverrides.erase id
      scope := ⟨group.scope.restarted.erase id, group.scope.outside.erase id⟩ }
  | restarting chain =>
    restarting { chain with
      queue := chain.queue.filter fun other => other != id
      overrides := chain.overrides.erase id
      started := chain.started.erase id
      scope := ⟨chain.scope.restarted.erase id, chain.scope.outside.erase id⟩ }

/-- Records the incarnation the chain started for its front. -/
def recordStarted (id : ActorId) (seq : Token) : GroupPhase → GroupPhase
  | stopping group => stopping group
  | restarting chain => restarting { chain with started := chain.started.insert id seq }

end GroupPhase

namespace Registry

/-- The child under the id. -/
def get (registry : Registry) (id : ActorId) : Option Child := Keyed.find Child.id id registry

/-- The ledger entry under the id. -/
def life (registry : Registry) (id : ActorId) : Option ChildLifecycle :=
  (registry.get id).map Child.lifecycle

/-- The ids of the registry, in start order. -/
def ids (registry : Registry) : List ActorId := registry.map Child.id

/-- Changes the child under the id, if there is one. -/
def modify (registry : Registry) (id : ActorId) (f : Child → Child) : Registry :=
  Keyed.update Child.id id f registry

/-- Moves a ledger entry, when the table allows the move. -/
def transition (registry : Registry) (id : ActorId) (target : ChildLifecycle) : Registry :=
  registry.modify id fun child =>
    if isLegal child.lifecycle target then { child with lifecycle := target } else child

/-- Records the subtree the child's slot published as its most recent. -/
def noteSubtree (registry : Registry) (slots : Token → Slot) (id : ActorId) : Registry :=
  registry.modify id fun child =>
    if (slots child.ctl).published then { child with predecessor := some child.ctl } else child

def remove (registry : Registry) (id : ActorId) : Registry := Keyed.remove Child.id id registry

end Registry

namespace SupervisionState

variable (sup : SupervisionState) (id : ActorId)

/-- Changes one incarnation's slot. -/
def updateSlot (n : Token) (f : Slot → Slot) : SupervisionState :=
  { sup with slots := Function.update sup.slots n (f (sup.slots n)) }

/-- Adds an observation to the record of the run. -/
def note (obs : Obs) : SupervisionState :=
  { sup with log := obs :: sup.log }

/-- Changes the pending group, if there is one. -/
def onGroup (f : GroupPhase → GroupPhase) : SupervisionState :=
  { sup with pendingGroup := sup.pendingGroup.map f }

/-- The supervisor is a pool. -/
def pool : Bool := sup.strategy == .simpleOneForOne

/-- Moves a ledger entry, when the table allows the move. -/
def transition (target : ChildLifecycle) : SupervisionState :=
  { sup with registry := sup.registry.transition id target }

/-- The slot of `incarnation`, when it is the one the child's control belongs to. -/
def slotOf (incarnation : Token) : Option Slot :=
  match sup.registry.get id with
  | some child => if child.ctl = incarnation then some (sup.slots child.ctl) else none
  | none => none

/-- Records the subtree the child's slot published as its most recent. -/
def noteSubtree : SupervisionState :=
  { sup with registry := sup.registry.noteSubtree sup.slots id }

/-- Leaves a report for the final deliveries, with the child's name. -/
def owe (report : Report) (name : Option String) : SupervisionState :=
  { sup with
    owedNames :=
      match name with
      | some name => sup.owedNames.insert (report.childId, report.incarnation) name
      | none => sup.owedNames
    owed := sup.owed ++ [report] }

/-- The subtree of a removed child under the id that still runs. The source also
forgets the entries whose subtree is gone; a reader never sees them. -/
def retiredSubtree : Option Token :=
  match sup.retired.lookup id with
  | some n => if (sup.slots n).gone then none else some n
  | none => none

/-- The state after an attempt was begun for a down child. -/
def begin (predecessor : Option Token) (n : Token)
    (pending : DownPending) (seq : Token) (origin : Origin) : SupervisionState :=
  { sup with
    registry := sup.registry.modify id fun child =>
      { child with lifecycle := .restarting n seq, origin := origin }
    slots := Function.update sup.slots seq { owner := id }
    restartSet := sup.restartSet ++
      if id ∈ sup.restartFns then [⟨id, seq, predecessor, .waiting, none⟩] else []
    log := if id ∈ sup.restartFns then .began id (.down n pending) seq origin :: sup.log
      else sup.log
    pendingGroup :=
      if id ∈ sup.restartFns ∧ origin = .chain then
        sup.pendingGroup.map (GroupPhase.recordStarted id seq)
      else sup.pendingGroup }

/-- Begins a restart attempt of a down child under the token `seq`. The ledger
moves even when the child has no factory left to run. -/
def initiate (seq : Token) (origin : Origin) : SupervisionState :=
  match sup.registry.get id with
  | none => sup
  | some child =>
    match child.lifecycle with
    | .down n pending =>
      if isLegal (.down n pending) (.restarting n seq) then
        sup.begin id child.predecessor n pending seq origin
      else sup
    | _ => sup

/-- Draws the next incarnation token and begins an attempt under it. -/
def initiateRestart (origin : Origin) : SupervisionState :=
  { sup with nextIncarnation := sup.nextIncarnation + 1 }.initiate id sup.nextIncarnation origin

/-- The subtrees of removed children, after the child under the id is removed. -/
def retire : TokenMap :=
  match (sup.registry.get id).bind Child.predecessor with
  | some n => if (sup.slots n).gone then sup.retired else sup.retired.insert id n
  | none => sup.retired

/-- Removes a child's spec: the registry entry, the factory, and its place in
every set of the pending group but the barrier. -/
def removeSpec : SupervisionState :=
  { sup with
    registry := sup.registry.remove id
    retired := sup.retire id
    restartFns := sup.restartFns.erase id
    pendingGroup := sup.pendingGroup.map (GroupPhase.removeSpec id)
    log := .specRemoved id :: sup.log }

/-- Whether the pending group will restart the child. -/
def inRestartSet : Bool :=
  match sup.pendingGroup with
  | some phase => decide (id ∈ phase.order) && (phase.overrides.lookup id).isNone
  | none => false

/-- Whether a restart of the child after the end of `n` stands: the pending group
will restart it, or a later attempt was begun. It is no question for a child
whose spec is gone. -/
def restartStands (n : Token) : Bool :=
  match sup.registry.get id with
  | some child => sup.inRestartSet id || decide (n < child.lifecycle.heldToken)
  | none => true

/-- The incarnation a `terminate_child` released is the one the ledger holds,
down or stopping for good. -/
def releasedIn (overrides : TokenMap) (id : ActorId) (life : Option ChildLifecycle) : Bool :=
  match overrides.lookup id, life with
  | some released, some (.down n _) => n == released
  | some released, some (.stopping n .terminate) => n == released
  | _, _ => false

/-- How the pending group concerns the child. -/
def groupMembership : GroupMembership :=
  let life := sup.registry.life id
  match sup.pendingGroup with
  | none => .none
  | some phase =>
    let waiting : GroupMembership :=
      if life.isSome ∧ id ∈ phase.order then .queued
      else if releasedIn phase.overrides id life then .released
      else .none
    -- Only the stop phase has a barrier: the chain's is empty.
    match phase.awaiting.lookup id with
    | some awaited =>
      if life.map ChildLifecycle.heldToken ≠ some awaited then .none
      else if (sup.pendingManualEvents.lookup (id, awaited)).isNone then
        .awaited (phase.overrides.lookup id == some awaited)
      else waiting
    | none => waiting

/-- The children a first `RestForOne` plan leaves alone. -/
def firstPlanOutside (failed : ActorId) : Finset ActorId :=
  if sup.strategy = .restForOne then
    (sup.registry.ids.takeWhile fun id => id != failed).toFinset
  else ∅

/-- A `terminate_child` of the child is kept by the pending group. -/
def inKeepScope : Bool :=
  match sup.pendingGroup with
  | none => false
  | some phase =>
    match sup.strategy with
    | .oneForAll => true
    | .restForOne => decide (id ∉ phase.scope.outside)
    | .oneForOne => false
    | .simpleOneForOne => false

/-- Records that the pending group keeps the child's present incarnation down. -/
def recordOverride : SupervisionState :=
  sup.onGroup fun phase =>
    match sup.registry.life id with
    | some life => phase.recordOverride id life.heldToken
    | none => phase

/-- Takes the child out of the members the pending group restarts. -/
def leaveRestartSet : SupervisionState :=
  (sup.onGroup (GroupPhase.leaveRestartSet id)).note (.released id)

end SupervisionState

end TokioActors
