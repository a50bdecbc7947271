/-
# Specs and factories

A child's spec is its place in the registry together with its factory. A spawn
adds both, a removal takes both and leaves no trace of the id in the pending
group but its barrier, and the teardown drops all factories at once. While a
supervisor is up, the registry and the factories have the same keys.
-/

import TokioActors.Supervision.Runs

namespace TokioActors

open SupervisionState Registry

variable {rules : Rules} {c d : Config} {sup : SupervisionState} {id : ActorId}

theorem restartFns_initiateRestart {origin : Origin} :
    (sup.initiateRestart id origin).restartFns = sup.restartFns := by
  rcases @initiateRestart_cases sup id origin with hsame | ⟨child, n, pending, _, _, _, hbegin⟩
  · rw [hsame]
  · rw [hbegin]
    rfl

inductive SpecChange (c d : Config) : Prop
  | same (ids : d.sup.registry.ids = c.sup.registry.ids)
      (factories : d.sup.restartFns = c.sup.restartFns)
  | removed (id : ActorId) (sup : d.sup = c.sup.removeSpec id) (plan : d.plan = c.plan)
  | spawned (id : ActorId) (name : Option String) (restartType : RestartType)
      (shutdown : Shutdown) (up : c.stage ≠ .down) (absent : c.sup.registry.get id = none)
      (sup : d.sup = c.sup.spawnChildInternal id name restartType shutdown)
  | torn (ids : d.sup.registry.ids = c.sup.registry.ids) (stage : d.stage = .down)
      (factories : d.sup.restartFns = ∅) (idle : d.sup.pendingGroup = none) (plan : d.plan = none)

/-- Every move changes the specs in one of the ways above. -/
theorem Move.specs (hmove : Move rules c d) : SpecChange c d := by
  cases hmove with
  | plane hplane =>
    obtain ⟨_, _, _, _, _, _, rfl, _⟩ := hplane.frame.same
    exact .same rfl rfl
  | group hgroup =>
    obtain ⟨_, _, _, rfl, _⟩ := hgroup.frame
    exact .same rfl rfl
  | spawn id name restartType shutdown habsent hup =>
    exact .spawned id name restartType shutdown hup habsent rfl
  | subtree => exact .same ids_noteSubtree rfl
  | commit | close | queue | absorbSnapshot | crash | record | dismiss =>
      exact .same ids_transition rfl
  | rebound =>
    exact .same (ids_initiateRestart.trans ids_transition) restartFns_initiateRestart
  | restart | «begin» | chainBegin => exact .same ids_initiateRestart restartFns_initiateRestart
  | prune id => exact .removed id rfl rfl
  | cancel task => exact .same ids_recordCancelled (by rw [frame_recordCancelled])
  | adopt => exact .same (ids_noteSubtree.trans ids_transition) rfl
  | absorb id n queued work event hlooping hunlaid hentry htaken =>
    exact .same ids_transition rfl
  | snapshot => exact .same ids_takeSnapshot rfl
  | collect | discard | discardLost =>
    exact .same ids_recordCollectedEnd (by rw [frame_recordCollectedEnd])
  | teardown => exact .torn rfl rfl rfl rfl rfl
  | _ => exact .same rfl rfl

/-! ## The same keys -/

/-- The registry and the factories have the same keys, or the supervisor is torn
down and has no group to restart. -/
inductive SpecsFit (c : Config) : Prop
  | keyed (same : ∀ id, id ∈ c.sup.registry.ids ↔ id ∈ c.sup.restartFns)
  | torn (stage : c.stage = .down) (factories : c.sup.restartFns = ∅)
      (idle : c.sup.pendingGroup = none) (unlaid : c.Unlaid)

theorem mem_ids_removeSpec {other : ActorId} :
    other ∈ (sup.removeSpec id).registry.ids ↔ other ∈ sup.registry.ids ∧ other ≠ id := by
  change other ∈ (sup.registry.remove id).ids ↔ _
  rw [ids_remove, List.mem_filter]
  simp

theorem GroupMove.idle {sup next : SupervisionState} (hmove : GroupMove sup next)
    (hidle : sup.pendingGroup = none) : next.pendingGroup = none := by
  have hnone {phase : GroupPhase} (hsome : sup.pendingGroup = some phase) :
      next.pendingGroup = none := by
    rw [hidle] at hsome
    cases hsome
  cases hmove with
  | stopPop _ _ _ hpending | settle _ _ _ hpending | awaitAdopted _ _ _ hpending
  | chainGone _ _ _ hpending | stopAct _ _ _ _ hpending | chainFresh _ _ _ _ hpending =>
    exact hnone hpending
  | finish group hpending => exact hnone hpending
  | foreign => exact hidle
  | keep | leaveGone =>
    change sup.pendingGroup.map _ = none
    rw [hidle]
    rfl

theorem settleBarrier_of_idle {n : Token} (hidle : sup.pendingGroup = none) :
    sup.settleBarrier id n = (sup, false) := by
  unfold settleBarrier
  rw [hidle]

theorem pendingGroup_recordCollectedEnd_of_idle {n : Token} (hidle : sup.pendingGroup = none) :
    (Sys.recordCollectedEnd sup id n).pendingGroup = none := by
  unfold Sys.recordCollectedEnd
  dsimp only
  rw [settleBarrier_of_idle]
  all_goals
    dsimp only
    split <;> exact hidle

/-- A supervisor that is torn down has no group to restart ever after. -/
theorem Move.stays_torn (hmove : Move rules c d) (hdown : c.stage = .down)
    (hidle : c.sup.pendingGroup = none) (hunlaid : c.Unlaid) :
    d.stage = .down ∧ d.sup.pendingGroup = none ∧ d.Unlaid := by
  have hlooped {P : Prop} (hlooping : c.stage = .looping) : P := by
    rw [hdown] at hlooping
    cases hlooping
  have hnone {phase : GroupPhase} {P : Prop} (hsome : c.sup.pendingGroup = some phase) : P := by
    rw [hidle] at hsome
    cases hsome
  cases hmove with
  | plane hplane =>
    obtain ⟨_, _, _, _, _, _, rfl, _⟩ := hplane.frame.same
    exact ⟨hdown, hidle, hunlaid⟩
  | group hgroup => exact ⟨hdown, hgroup.idle hidle, hunlaid⟩
  | rebound _ _ _ _ _ _ _ _ hup | restart _ _ _ _ _ _ _ hup => exact absurd hdown hup
  | release _ _ _ _ hpending | reinstall _ _ hpending => exact hnone hpending
  | prune => exact ⟨hdown, by simp [removeSpec, hidle], hunlaid⟩
  | «begin» _ _ hlooping | lay _ _ hlooping | complete _ hlooping | endLoop hlooping =>
    exact hlooped hlooping
  | chainBegin _ _ _ _ _ hlooping | close _ _ _ _ _ hlooping | absorb _ _ _ _ _ hlooping =>
      exact hlooped hlooping
  | decide plan hfresh =>
    refine ⟨hdown, hidle, ?_⟩
    intro other hother
    cases hother
    exact hfresh
  | install plan hplanned hlaid =>
    have hfalse := hunlaid plan hplanned
    rw [hlaid] at hfalse
    cases hfalse
  | cancel task =>
    rw [frame_recordCancelled]
    exact ⟨hdown, hidle, hunlaid⟩
  | enter hstarting =>
    rw [hdown] at hstarting
    cases hstarting
  | gather hended =>
    rw [hdown] at hended
    cases hended
  | collect | discard | discardLost =>
    exact ⟨hdown, pendingGroup_recordCollectedEnd_of_idle hidle, hunlaid⟩
  | drainRestarts hgathered =>
    rw [hdown] at hgathered
    cases hgathered
  | drainDeaths hbefore =>
    rw [hdown] at hbefore
    cases hbefore
  | teardown => exact ⟨rfl, rfl, Config.unlaid_of_none rfl⟩
  | abort => exact ⟨rfl, hidle, Config.unlaid_of_none rfl⟩
  | _ => exact ⟨hdown, hidle, hunlaid⟩

theorem SpecsFit.step (hfit : SpecsFit c) (hmove : Move rules c d) : SpecsFit d := by
  cases hfit with
  | keyed hsame =>
    cases hmove.specs with
    | same hids hfactories =>
      refine .keyed fun id => ?_
      rw [hids, hfactories]
      exact hsame id
    | removed id hsup =>
      refine .keyed fun other => ?_
      rw [hsup, mem_ids_removeSpec, hsame]
      change _ ↔ other ∈ c.sup.restartFns.erase id
      rw [Finset.mem_erase]
      exact and_comm
    | spawned id name restartType shutdown hup habsent hsup =>
      refine .keyed fun other => ?_
      rw [hsup]
      change other ∈ (c.sup.registry ++ [_]).map Child.id ↔ other ∈ insert id c.sup.restartFns
      rw [List.map_append, List.mem_append, Finset.mem_insert]
      change other ∈ c.sup.registry.ids ∨ other ∈ [id] ↔ _
      rw [hsame, List.mem_singleton]
      exact or_comm
    | torn hids hstage hfactories hidle hplan =>
      exact .torn hstage hfactories hidle (Config.unlaid_of_none hplan)
  | torn hstage hfactories hidle hunlaid =>
    obtain ⟨hdown, hstill, hunlaid'⟩ := hmove.stays_torn hstage hidle hunlaid
    refine .torn hdown ?_ hstill hunlaid'
    cases hmove.specs with
    | same hids hsame => rw [hsame, hfactories]
    | removed id hsup =>
      rw [hsup]
      change c.sup.restartFns.erase id = ∅
      rw [hfactories]
      rfl
    | spawned id name restartType shutdown hup => exact absurd hstage hup
    | torn hids hdown hempty => exact hempty

/-- The factory of every child is there while the supervisor is up. -/
theorem SpecsFit.factory (hfit : SpecsFit c) (hup : c.stage ≠ .down) {life : ChildLifecycle}
    (hlife : c.sup.registry.life id = some life) : id ∈ c.sup.restartFns := by
  cases hfit with
  | keyed hsame => exact (hsame id).mp (mem_ids_of_life hlife)
  | torn hstage => exact absurd hstage hup

theorem specsFit_init {strategy : RestartStrategy} {maxRestarts restartWindow : Nat} :
    SpecsFit (Sys.init strategy maxRestarts restartWindow).config :=
  .keyed fun id => by simp [Sys.init, Sys.config, ids]

end TokioActors
