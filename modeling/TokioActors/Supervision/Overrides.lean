/-
# What a pending group has released

In every orderly run an override of the pending group names the incarnation its
child holds, and a child with an override is not restarted. A retry, which
releases members by their incarnations, and the chain, which leaves overridden
ids out, therefore agree on what is started. The sets of the group but the barrier
and the stop queue name registered children only; the stop queue also names those
whose spec was removed since the plan of the group was made.

A call that restarts a child the group keeps down, and one that comes between the
decision for a group restart and its layout, break this.
-/

import TokioActors.Supervision.GroupFit
import TokioActors.Supervision.Scope

namespace TokioActors

open SupervisionState Machine

variable {strategy : RestartStrategy} {maxRestarts restartWindow : Nat} {s : Sys}
  {phase : GroupPhase}

/-- Taking members out of a commit's restarts takes their ids out of its order. -/
theorem restartIds_released {commit : List Committed} {released : List ActorId} :
    restartIds (commit.map fun member =>
        if member.id ∈ released then
          { member with action := { member.action with restarts := false } }
        else member) =
      (restartIds commit).filter fun id => decide (id ∉ released) := by
  induction commit with
  | nil => rfl
  | cons member commit ih =>
    unfold restartIds at ih ⊢
    by_cases hreleased : member.id ∈ released <;>
      by_cases hrestarts : member.action.restarts = true <;>
        simp only [List.map_cons, List.filter_cons, hreleased, hrestarts, if_true, if_false,
          not_true, not_false_iff, decide_true, decide_false, Bool.false_eq_true, ih]

/-- What a retry releases by incarnation is what has an override. -/
theorem PhaseFits.released_iff {sup : SupervisionState} {id : ActorId} (hfits : PhaseFits sup phase)
    (hpending : sup.pendingGroup = some phase) :
    id ∈ sup.releasedIds ↔ (phase.overrides.lookup id).isSome = true := by
  rw [mem_releasedIds_iff]
  constructor
  · rintro ⟨same, child, hsame, _, hover⟩
    rw [hpending] at hsame
    cases hsame
    rw [hover]
    rfl
  · intro hsome
    obtain ⟨n, hover⟩ := Option.isSome_iff_exists.mp hsome
    obtain ⟨_, type, life, hentry, hkept⟩ := (hfits.fits id).released n hover
    obtain ⟨child, hget, _, rfl⟩ := Registry.exists_get_of_entry hentry
    exact ⟨phase, child, hpending, hget, by rw [hover, hkept.1]⟩

/-! ## What is still to be stopped -/

def GroupPhase.stopQueue : GroupPhase → List ActorId
  | .stopping group => group.stopQueue
  | .restarting _ => []

/-- The children whose spec was removed since the last plan was made. -/
def removedSincePlan : List Obs → List ActorId
  | [] => []
  | .planned _ :: _ => []
  | .specRemoved id :: log => id :: removedSincePlan log
  | _ :: log => removedSincePlan log

theorem removedSincePlan_append {id : ActorId} {obs log : List Obs}
    (hobs : ∀ o ∈ obs, ∀ commit, o ≠ .planned commit)
    (hid : id ∈ removedSincePlan log ∨ .specRemoved id ∈ obs) :
    id ∈ removedSincePlan (obs ++ log) := by
  induction obs with
  | nil => exact hid.resolve_right (by simp)
  | cons o obs ih =>
    have hrest := ih fun other hother => hobs other (List.mem_cons_of_mem _ hother)
    have hne := hobs o List.mem_cons_self
    cases o with
    | planned commit => exact absurd rfl (hne commit)
    | specRemoved other =>
      by_cases heq : id = other
      · rw [heq]
        exact List.mem_cons_self
      · refine List.mem_cons_of_mem _ (hrest (hid.imp_right fun hmem => ?_))
        exact (List.mem_cons.mp hmem).resolve_left fun h => heq (Obs.specRemoved.inj h)
    | _ => exact hrest (hid.imp_right fun hmem => (List.mem_cons.mp hmem).resolve_left (by simp))

/-- The group and the plan that is laid out next keep to the last plan, and the children
it covers are registered but for those whose spec was removed since. -/
structure Covered (c : Config) : Prop where
  spared : ∀ b, b ∉ (currentPlan c.sup.log).map Committed.id → Spared b c
  present : ∀ id ∈ (currentPlan c.sup.log).map Committed.id,
    id ∈ c.sup.registry.ids ∨ id ∈ removedSincePlan c.sup.log

theorem covered_init : Covered (Sys.init strategy maxRestarts restartWindow).config where
  spared := fun b hb => ⟨fun phase h => (by cases h), fun plan h => (by cases h), hb⟩
  present := fun id hid => by cases hid

theorem Covered.step {rules : Rules} {c d : Config} (hcovered : Covered c)
    (hmove : Move rules c d) : Covered d := by
  cases hmove.plans with
  | first failed n commit hplan =>
    constructor
    · refine fun b hb => ⟨fun phase hphase => ?_, fun plan hsome => ?_, hb⟩
      · rw [hplan.idle] at hphase
        cases hphase
      · rw [hplan.unplanned] at hsome
        cases hsome
    · intro id hid
      rw [hplan.log, currentPlan, hplan.members] at hid
      rw [hplan.ids]
      exact .inl (commitIds_sublist.subset hid)
  | again failed commit hplan =>
    obtain ⟨overrides, scope, hgroup⟩ := hplan.group
    constructor
    · refine fun b hb => ⟨fun phase hphase => ?_, fun plan hsome => ?_, hb⟩
      · rw [hgroup] at hphase
        cases hphase
        rw [hplan.log] at hb
        exact spares_layOut hb
      · rw [hplan.unplanned] at hsome
        cases hsome
    · intro id hid
      rw [hplan.log, currentPlan, hplan.members] at hid
      rw [hplan.ids]
      exact .inl (commitIds_sublist.subset hid)
  | none obs hkeeps =>
    have hunplanned : ∀ o ∈ obs, ∀ commit, o ≠ .planned commit :=
      fun o ho => (hkeeps.unplanned o ho).2
    have hcurrent : currentPlan d.sup.log = currentPlan c.sup.log := by
      rw [hkeeps.log, currentPlan_append hunplanned]
    refine ⟨fun b hb => ?_, fun id hid => ?_⟩ <;> rw [hcurrent] at *
    · exact hkeeps.spared b (hcovered.spared b hb)
    · rcases hcovered.present id hid with hmem | hremoved
      · cases hmove.specs with
        | same hids | torn hids => exact .inl (by rwa [hids])
        | removed other hsup =>
          by_cases heq : id = other
          · have hlog := hkeeps.log
            rw [hsup] at hlog
            have hobs : [Obs.specRemoved other] = obs :=
              List.append_cancel_right (hlog : [Obs.specRemoved other] ++ c.sup.log = _)
            rw [hkeeps.log, heq, ← hobs]
            exact .inr List.mem_cons_self
          · left
            rw [hsup]
            change id ∈ (c.sup.registry.remove other).ids
            rw [Registry.ids_remove]
            exact List.mem_filter.mpr ⟨hmem, by simpa using heq⟩
        | spawned other name restartType shutdown _ _ hsup =>
          left
          rw [hsup]
          change id ∈ List.map Child.id (c.sup.registry ++ [_])
          rw [List.map_append]
          exact List.mem_append_left _ hmem
      · rw [hkeeps.log]
        exact .inr (removedSincePlan_append hunplanned (.inl hremoved))

/-- A child the group has still to stop is registered, unless its spec was removed since
the plan of the group was made. -/
theorem Covered.queued (hcovered : Covered s.config) (hpending : s.sup.pendingGroup = some phase)
    {id : ActorId} (hqueued : id ∈ phase.stopQueue) (hkept : id ∉ removedSincePlan s.sup.log) :
    id ∈ s.sup.registry.ids := by
  refine (hcovered.present id ?_).resolve_right hkept
  by_contra hoff
  have hspares := (hcovered.spared id hoff).group phase hpending
  cases phase with
  | stopping => exact hspares.2.1 hqueued
  | restarting => cases hqueued

/-- In every orderly run, whenever a group restart is pending: each override names
the incarnation a registered child holds, and the child is not to be restarted; a
retry restarts what its plan covers without the overridden ids, and the order of
the chain has none of these; every set of the group but the barrier and the stop
queue names registered children, and so does the stop queue but for those whose
spec was removed since the plan of the group was made; and the registry and the
factories have the same keys. -/
theorem overrides_name_what_is_held
    (hreach : Sys.Reaches Sys.Orderly strategy maxRestarts restartWindow s)
    (hpending : s.sup.pendingGroup = some phase) :
    (∀ id n, phase.overrides.lookup id = some n → id ∉ phase.order ∧
      ∃ life, s.sup.registry.life id = some life ∧ life.heldToken = n) ∧
    (∀ failed, (s.sup.planRetry failed).restartOrder =
      (restartIds (groupCommit s.sup.strategy s.sup.groupMembers failed)).filter
        fun id => (phase.overrides.lookup id).isNone) ∧
    (phase.order.filter fun id => (phase.overrides.lookup id).isNone) = phase.order ∧
    (∀ id, id ∈ phase.order ∨ (phase.overrides.lookup id).isSome = true ∨ phase.Names id →
      id ∈ s.sup.registry.ids) ∧
    (∀ id ∈ phase.stopQueue, id ∉ removedSincePlan s.sup.log → id ∈ s.sup.registry.ids) ∧
    ∀ id, id ∈ s.sup.registry.ids ↔ id ∈ s.sup.restartFns := by
  have hfit := hreach.groupFit
  have hfits : PhaseFits s.sup phase := hfit.fits phase hpending
  have hcovered : Covered s.config :=
    hreach.orderly.books covered_init fun c d _ hcovered hmove => hcovered.step hmove
  refine ⟨fun id n hover => ?_, fun failed => ?_, ?_, fun id hnamed => ?_,
    fun id => hcovered.queued hpending, fun id => ?_⟩
  · obtain ⟨hunlisted, type, life, hentry, hkept⟩ := (hfits.fits id).released n hover
    exact ⟨hunlisted, life, Registry.life_of_entry hentry, hkept.1⟩
  · rw [planRetry_restartOrder, planRetry_commit, restartIds_released]
    refine List.filter_congr fun id _ => ?_
    rw [Bool.eq_iff_iff, decide_eq_true_iff, hfits.released_iff hpending]
    simp
  · refine List.filter_eq_self.mpr fun id hmem => ?_
    cases hover : phase.overrides.lookup id with
    | none => rfl
    | some n => exact absurd hmem ((hfits.fits id).released n hover).1
  · rcases hnamed with hmem | hover | hnames
    · exact hfits.sorted.subset hmem
    · obtain ⟨n, hsome⟩ := Option.isSome_iff_exists.mp hover
      obtain ⟨_, type, life, hentry, _⟩ := (hfits.fits id).released n hsome
      exact Registry.mem_ids_of_entry (by rw [hentry]; rfl)
    · exact Registry.mem_ids_of_entry ((hfits.fits id).named hnames)
  · cases hfit.specs with
    | keyed hsame => exact hsame id
    | torn _ _ hidle =>
      have hnone : s.sup.pendingGroup = none := hidle
      rw [hpending] at hnone
      cases hnone

/-! ## Runs -/

/-- A temporary member of a stopping group is terminated and its spec goes; a
child spawned under its id is terminated too. -/
def memberReplaced : List Action :=
  [[spawned 1 "a", .call (.spawnNamed 2 "b" .temporary (.timeout 5) true), spawned 3 "c",
      .loop (.return none)],
    incarnationEnds 3 crash, endHandled 3,
    [.call (.terminateChild 2)], incarnationEnds 2 .parentRequest,
    [.call (.resume true), spawned 2 "b", .call (.terminateChild 2)],
    incarnationEnds 4 .parentRequest, [.call (.resume true)]].flatten

set_option maxRecDepth 20000 in
theorem memberReplaced_goes : (runWhere Sys.step Sys.Orderly (Sys.init .oneForAll 9 1000)
    memberReplaced).isSome = true := by
  decide +kernel

def atReplacedMember : Sys :=
  (runWhere Sys.step Sys.Orderly (Sys.init .oneForAll 9 1000) memberReplaced).get
    memberReplaced_goes

theorem atReplacedMember_reached :
    Sys.Reaches Sys.Orderly .oneForAll 9 1000 atReplacedMember :=
  reaches_getWhere memberReplaced_goes

set_option maxRecDepth 20000 in
theorem atReplacedMember_pending : atReplacedMember.sup.pendingGroup.isSome = true := by
  decide +kernel

/-- The group of the run keeps the new child down on the incarnation it held. -/
theorem overrides_name_what_is_held_replaced :
    (atReplacedMember.sup.pendingGroup.get atReplacedMember_pending).overrides.lookup 2 = some 4 ∧
      ∃ life, atReplacedMember.sup.registry.life 2 = some life ∧ life.heldToken = 4 := by
  have hover : (atReplacedMember.sup.pendingGroup.get
      atReplacedMember_pending).overrides.lookup 2 = some 4 := by decide +kernel
  exact ⟨hover, ((overrides_name_what_is_held atReplacedMember_reached
    (Option.some_get atReplacedMember_pending).symm).1 2 4 hover).2⟩

/-- The new child of the run is restarted by a call, which reads it as no member of
the group: the barrier still waits for the child it replaced. -/
def keptRestarted : List Action := memberReplaced ++ [.call (.restartChild 2)]

set_option maxRecDepth 20000 in
theorem keptRestarted_goes :
    (run Sys.step (Sys.init .oneForAll 9 1000) keptRestarted).isSome = true := by
  decide +kernel

/-- Two ends wait behind a group restart and are taken together by the next one. A
callback deletes one of the two children before the second group is laid out. -/
def coveredDeleted : List Action :=
  [[spawned 1 "a", .loop (.return none)],
    incarnationEnds 1 crash, endHandled 1, [.loop (.return none), .loop (.work none)],
    [.loop .beginTurn, spawned 2 "b", spawned 3 "c", .loop (.return none)],
    incarnationEnds 3 crash, endHandled 3, [.loop (.work none)],
    incarnationEnds 4 crash, endHandled 4, [.loop (.work none)],
    attemptAdopted 2, [.call (.deleteChild 3), .loop (.return none)]].flatten

set_option maxRecDepth 20000 in
theorem coveredDeleted_goes :
    (run Sys.step (Sys.init .oneForAll 9 1000) coveredDeleted).isSome = true := by
  decide +kernel

/-- A temporary member crashes while the group stops the child that was started after
it: its spec goes, and its id stays in the stop queue. -/
def queuedRemoved : List Action :=
  [[spawned 1 "a", .call (.spawnNamed 2 "b" .temporary (.timeout 5) true), spawned 3 "c",
      spawned 4 "d", .loop (.return none)],
    incarnationEnds 4 crash, endHandled 4, [.loop (.return none), .loop (.work none)],
    incarnationEnds 2 crash, endHandled 2].flatten

set_option maxRecDepth 20000 in
theorem queuedRemoved_goes : (runWhere Sys.step Sys.Orderly (Sys.init .oneForAll 9 1000)
    queuedRemoved).isSome = true := by
  decide +kernel

set_option maxRecDepth 20000 in
/-- A pending group with an override for an incarnation the child is past, one that is
going to restart a child without a spec, and one that has a child without a spec still
to stop. -/
theorem override_outlives_incarnation :
    (∃ s, Sys.Reaches always .oneForAll 9 1000 s ∧
      (s.sup.pendingGroup.map fun phase => phase.overrides.lookup 2) = some (some 4) ∧
      s.sup.registry.life 2 = some (.restarting 4 5)) ∧
    (∃ s, Sys.Reaches always .oneForAll 9 1000 s ∧
      s.sup.pendingGroup.map GroupPhase.order = some [1, 2, 3] ∧
      s.sup.registry.ids = [1, 2]) ∧
    ∃ s, Sys.Reaches Sys.Orderly .oneForAll 9 1000 s ∧
      s.sup.pendingGroup.map GroupPhase.stopQueue = some [3, 2, 1] ∧
      s.sup.registry.ids = [1, 3, 4] :=
  ⟨⟨_, reaches_get keptRestarted_goes, by decide +kernel, by decide +kernel⟩,
    ⟨_, reaches_get coveredDeleted_goes, by decide +kernel, by decide +kernel⟩,
    ⟨_, reaches_getWhere queuedRemoved_goes, by decide +kernel, by decide +kernel⟩⟩

/-! ## Members of a pending group -/

theorem PhaseFits.member {sup : SupervisionState} (hfits : PhaseFits sup phase) {id : ActorId}
    (hmem : id ∈ phase.order) : ∃ child, sup.registry.get id = some child ∧
      child.restartType ≠ .temporary ∧ phase.Holds id child.lifecycle := by
  obtain ⟨type, life, hentry, htype, hholds⟩ := (hfits.fits id).listed hmem
  obtain ⟨child, hget, rfl, rfl⟩ := Registry.exists_get_of_entry hentry
  exact ⟨child, hget, htype, hholds⟩

/-- **The barrier has every member.** In an orderly run, a member that a stopping group
restarts is registered, and the barrier waits for the incarnation it holds or it is down
with nothing owed: once the barrier is empty no member of the group is up. -/
theorem barrier_has_every_member {group : GroupRestart}
    (hreach : Sys.Reaches Sys.Orderly strategy maxRestarts restartWindow s)
    (hpending : s.sup.pendingGroup = some (.stopping group)) :
    group.restartOrder.Sublist s.sup.registry.ids ∧
    ∀ id ∈ group.restartOrder, ∃ child, s.sup.registry.get id = some child ∧
      child.restartType ≠ .temporary ∧
      (group.awaiting.lookup id = some child.lifecycle.heldToken ∨
        group.awaiting.lookup id = none ∧ child.lifecycle.AtRest) := by
  have hfits : PhaseFits s.sup (.stopping group) := hreach.groupFit.fits _ hpending
  refine ⟨hfits.sorted, fun id hmem => ?_⟩
  obtain ⟨child, hget, htype, hawaited | hrests | hstarted⟩ := hfits.member hmem
  · exact ⟨child, hget, htype, .inl hawaited⟩
  · exact ⟨child, hget, htype, .inr hrests⟩
  · have hnone := hstarted.2.1
    rw [GroupPhase.started, Finmap.lookup_empty] at hnone
    cases hnone

set_option maxRecDepth 20000 in
theorem barrier_has_every_member_replaced : ∃ group,
    atReplacedMember.sup.pendingGroup = some (.stopping group) ∧
      group.awaiting.lookup 1 = some 1 ∧ ∀ id ∈ group.restartOrder, ∃ child,
        atReplacedMember.sup.registry.get id = some child ∧ child.restartType ≠ .temporary ∧
        (group.awaiting.lookup id = some child.lifecycle.heldToken ∨
          group.awaiting.lookup id = none ∧ child.lifecycle.AtRest) := by
  have hwaits : atReplacedMember.sup.pendingGroup.map (fun phase => phase.awaiting.lookup 1) =
      some (some 1) := by decide +kernel
  obtain ⟨phase, hpending, hone⟩ := Option.map_eq_some_iff.mp hwaits
  cases phase with
  | stopping group =>
    exact ⟨group, hpending, hone, (barrier_has_every_member atReplacedMember_reached hpending).2⟩
  | restarting chain => cases (Finmap.lookup_empty _).symm.trans hone

/-- **The chain meets only what it started.** In an orderly run, the members left in the
queue of a chain are registered, in start order, and down with nothing owed, except that
the front may be on the incarnation the chain started for it. So the chain never stops
the member it is at. -/
theorem chain_meets_only_its_own {chain : RestartChain}
    (hreach : Sys.Reaches Sys.Orderly strategy maxRestarts restartWindow s)
    (hpending : s.sup.pendingGroup = some (.restarting chain)) :
    chain.queue.Sublist s.sup.registry.ids ∧
    ∀ id ∈ chain.queue, ∃ child, s.sup.registry.get id = some child ∧
      child.restartType ≠ .temporary ∧
      (child.lifecycle.AtRest ∨ chain.queue.head? = some id ∧
        chain.started.lookup id = some child.lifecycle.heldToken) ∧
      chainFront child.lifecycle (chain.started.lookup id) ≠ .stopThenInitiate := by
  have hfits : PhaseFits s.sup (.restarting chain) := hreach.groupFit.fits _ hpending
  refine ⟨hfits.sorted, fun id hmem => ?_⟩
  obtain ⟨child, hget, htype, hawaited | ⟨_, hrests⟩ | ⟨hfront, hstarted, _⟩⟩ := hfits.member hmem
  · rw [GroupPhase.awaiting, Finmap.lookup_empty] at hawaited
    cases hawaited
  · refine ⟨child, hget, htype, .inl hrests, ?_⟩
    obtain ⟨n, pending, hdown, _⟩ := hrests
    simp [hdown, chainFront]
  · have hstarted : chain.started.lookup id = some child.lifecycle.heldToken := hstarted
    refine ⟨child, hget, htype, .inr ⟨hfront, hstarted⟩, ?_⟩
    rw [hstarted]
    cases child.lifecycle <;> simp [chainFront]

/-- A group restart of two children has stopped them and starts the first. -/
def firstStarted : List Action :=
  [[spawned 1 "a", spawned 2 "b", .loop (.return none)],
    incarnationEnds 2 crash, endHandled 2, [.loop (.return none), .loop (.work none)],
    incarnationEnds 1 .parentRequest, endHandled 1,
      [.loop (.return none), .loop (.work none)]].flatten

set_option maxRecDepth 20000 in
theorem firstStarted_goes : (runWhere Sys.step Sys.Orderly (Sys.init .oneForAll 9 1000)
    firstStarted).isSome = true := by
  decide +kernel

set_option maxRecDepth 20000 in
theorem chain_meets_only_its_own_first : ∃ s chain,
    Sys.Reaches Sys.Orderly .oneForAll 9 1000 s ∧ s.sup.pendingGroup = some (.restarting chain) ∧
      chain.started.lookup 1 = some 3 ∧ chain.queue.Sublist s.sup.registry.ids := by
  have hreach := reaches_getWhere firstStarted_goes
  have hstarts : ((runWhere Sys.step Sys.Orderly (Sys.init .oneForAll 9 1000)
      firstStarted).get firstStarted_goes).sup.pendingGroup.map
        (fun phase => phase.started.lookup 1) = some (some 3) := by decide +kernel
  obtain ⟨phase, hpending, hone⟩ := Option.map_eq_some_iff.mp hstarts
  cases phase with
  | restarting chain =>
    exact ⟨_, chain, hreach, hpending, hone, (chain_meets_only_its_own hreach hpending).1⟩
  | stopping group => cases (Finmap.lookup_empty _).symm.trans hone

end TokioActors
