/-
# What a group plan covers

A plan of a group restart, read against the registry it is made from: it commits
the failed child and the children started after it, or all of them under
`OneForAll`; its stop queue lists the committed children that hold an occupant,
newest first; its restart order lists those that are neither temporary nor
released, in start order. Absorbing what the committed children still owe only
takes children away, so a plan made after it is the plan made before, cut down to
the children that are left.
-/

import TokioActors.Supervision.Simulation.Turn

namespace TokioActors

open SupervisionState Registry

def Registry.occupied (registry : Registry) (id : ActorId) : Bool :=
  ((registry.life id).bind ChildLifecycle.occupant).isSome

def Registry.restartable (registry : Registry) (released : List ActorId) (id : ActorId) : Bool :=
  match registry.get id with
  | some child => child.restartType != .temporary && decide (id ∉ released)
  | none => false

/-- What a plan covers, stops and restarts. -/
structure PlanOf (strategy : RestartStrategy) (registry : Registry) (released : List ActorId)
    (failed : ActorId) (commit : List Committed) : Prop where
  present : failed ∈ registry.ids
  members : commit.map Committed.id = commitIds strategy registry.ids failed
  stops : stopQueueOf commit =
    ((commitIds strategy registry.ids failed).filter registry.occupied).reverse
  restarts : restartIds commit =
    (commitIds strategy registry.ids failed).filter (registry.restartable released)

variable {sup before after : SupervisionState} {failed : ActorId} {strategy : RestartStrategy}
  {commit : List Committed} {chain : RestartChain}

theorem ChildLifecycle.occupant_isSome (life : ChildLifecycle) :
    life.occupant.isSome = !life.isDown := by
  cases life <;> rfl

theorem map_filter_ids {ids : List ActorId} {chosen : Committed → Bool} {choice : ActorId → Bool}
    (hids : commit.map Committed.id = ids)
    (hsame : ∀ member ∈ commit, chosen member = choice member.id) :
    (commit.filter chosen).map Committed.id = ids.filter choice := by
  rw [← hids, List.filter_map]
  refine congrArg (List.map Committed.id) (List.filter_congr fun member hmem => ?_)
  exact hsame member hmem

/-- What the members of a commit say about their children makes it a plan. -/
theorem PlanOf.of_members {released : List ActorId}
    (hmembers : commit.map Committed.id = commitIds strategy sup.registry.ids failed)
    (hpresent : failed ∈ sup.registry.ids) (hdown : sup.registry.occupied failed = false)
    (hmember : ∀ member ∈ commit, ∃ child, sup.registry.get member.id = some child ∧
      member.action.held = (member.id != failed && !child.lifecycle.isDown) ∧
      (member.action.restarts = true ↔
        child.restartType ≠ .temporary ∧ member.id ∉ released)) :
    PlanOf strategy sup.registry released failed commit where
  present := hpresent
  members := hmembers
  stops := by
    unfold stopQueueOf
    rw [List.filter_reverse, List.map_reverse]
    refine congrArg List.reverse (map_filter_ids hmembers fun member hmem => ?_)
    obtain ⟨child, hget, hheld, _⟩ := hmember member hmem
    have hoccupied : sup.registry.occupied member.id = !child.lifecycle.isDown := by
      unfold occupied
      rw [life_of_get hget]
      exact child.lifecycle.occupant_isSome
    rw [hheld, hoccupied]
    by_cases hfailed : member.id = failed
    · rw [hfailed, hdown] at hoccupied
      rw [← hoccupied, Bool.and_false]
    · simp [hfailed]
  restarts := by
    refine map_filter_ids hmembers fun member hmem => ?_
    obtain ⟨child, hget, _, hrestarts⟩ := hmember member hmem
    unfold restartable
    rw [hget, Bool.eq_iff_iff, hrestarts]
    simp

theorem planOf_groupCommit (hnodup : sup.registry.ids.Nodup)
    (hpresent : failed ∈ sup.registry.ids) (hdown : sup.registry.occupied failed = false) :
    PlanOf strategy sup.registry [] failed (groupCommit strategy sup.groupMembers failed) := by
  refine .of_members groupCommit_ids hpresent hdown fun member hmem => ?_
  obtain ⟨child, hget, hmember⟩ := groupCommit_member hnodup hmem
  refine ⟨child, hget, ?_, ?_⟩
  · rw [hmember]
    rfl
  · have hrestarts : member.action.restarts = true ↔ child.restartType ≠ .temporary := by
      rw [hmember]
      exact commitMember_facts.2.2
    simpa using hrestarts

theorem planOf_planRetry (hnodup : sup.registry.ids.Nodup)
    (hpresent : failed ∈ sup.registry.ids) (hdown : sup.registry.occupied failed = false) :
    PlanOf sup.strategy sup.registry sup.releasedIds failed (sup.planRetry failed).commit := by
  refine .of_members planRetry_ids hpresent hdown fun member hmem => ?_
  obtain ⟨child, hget, _, hheld, hrestarts⟩ := planRetry_member hnodup hmem
  exact ⟨child, hget, hheld, hrestarts⟩

/-! ## Planning after an absorption -/

theorem dropWhile_filter {keep : ActorId → Bool} {ids : List ActorId}
    (hkeep : keep failed = true) :
    (ids.filter keep).dropWhile (fun other => other != failed) =
      (ids.dropWhile fun other => other != failed).filter keep := by
  induction ids with
  | nil => rfl
  | cons first ids ih =>
    by_cases hfirst : first = failed
    · subst hfirst
      rw [List.filter_cons_of_pos hkeep, List.dropWhile_cons_of_neg (by simp),
        List.dropWhile_cons_of_neg (by simp), List.filter_cons_of_pos hkeep]
    · rw [@List.dropWhile_cons_of_pos _ _ first ids (by simpa using hfirst)]
      by_cases hkeepfirst : keep first = true
      · rw [List.filter_cons_of_pos hkeepfirst,
          List.dropWhile_cons_of_pos (by simpa using hfirst), ih]
      · rw [List.filter_cons_of_neg hkeepfirst, ih]

/-- The ids a plan covers after an absorption are those it covered before that are
left. -/
theorem commitIds_absorbed {old : Child} (habsorbed : Absorbed before after)
    (hold : before.registry.get failed = some old) (hstays : old.Stays) :
    commitIds strategy after.registry.ids failed =
      (commitIds strategy before.registry.ids failed).filter
        fun id => decide (id ∈ after.registry.ids) := by
  obtain ⟨keep, hkeep, hkeeps⟩ := habsorbed.ids
  have hfailed := hkeeps _ _ hold hstays
  have hmem : failed ∈ before.registry.ids := mem_ids_of_get hold
  have hmemAfter := mem_ids_absorbed habsorbed hold hstays
  have hsame : (commitIds strategy before.registry.ids failed).filter
      (fun id => decide (id ∈ after.registry.ids)) =
      (commitIds strategy before.registry.ids failed).filter keep := by
    refine List.filter_congr fun id hid => ?_
    have hbefore := commitIds_sublist.subset hid
    rw [hkeep, Bool.eq_iff_iff]
    simp [hbefore]
  rw [hsame]
  unfold commitIds
  by_cases hstrategy : strategy = .restForOne
  · rw [if_pos ⟨hstrategy, hmemAfter⟩, if_pos ⟨hstrategy, hmem⟩, hkeep, dropWhile_filter hfailed]
  · rw [if_neg (by simp [hstrategy]), if_neg (by simp [hstrategy]), hkeep]

/-- A child that is left is restarted after an absorption exactly if it was to be
restarted before. -/
theorem restartable_absorbed {id : ActorId} (habsorbed : Absorbed before after)
    (hpending : before.pendingGroup = some (.restarting chain)) (hleft : id ∈ after.registry.ids) :
    after.registry.restartable after.releasedIds id =
      before.registry.restartable before.releasedIds id := by
  cases hget : after.registry.get id with
  | none => exact absurd hleft (get_eq_none_iff.mp hget)
  | some child =>
    obtain ⟨old, hold, htype, htoken, _⟩ := habsorbed.entry _ _ hget
    obtain ⟨left, hchain, hkept⟩ := habsorbed.chain chain hpending
    unfold restartable
    rw [hget, hold]
    dsimp only
    rw [htype]
    by_cases htemporary : old.restartType = .temporary
    · simp [htemporary]
    · have hover := (hkept id old hold (.inl htemporary)).2
      have hreleased : id ∈ after.releasedIds ↔ id ∈ before.releasedIds := by
        rw [mem_releasedIds_iff, mem_releasedIds_iff]
        constructor
        · rintro ⟨phase, entry, hphase, hentry, hlookup⟩
          rw [hchain] at hphase
          rw [hget] at hentry
          cases hphase
          cases hentry
          refine ⟨_, old, hpending, hold, ?_⟩
          rw [← htoken, ← hlookup]
          exact hover.symm
        · rintro ⟨phase, entry, hphase, hentry, hlookup⟩
          rw [hpending] at hphase
          rw [hold] at hentry
          cases hphase
          cases hentry
          refine ⟨_, child, hchain, hget, ?_⟩
          rw [htoken, ← hlookup]
          exact hover
      simp only [hreleased]

/-- What is planned after an absorption is what was planned before, cut down to the
children that are left. -/
theorem planRetry_absorbed {old : Child} (hnodup : before.registry.ids.Nodup)
    (habsorbed : Absorbed before after) (hpending : before.pendingGroup = some (.restarting chain))
    (hold : before.registry.get failed = some old) (hstays : old.Stays)
    (hdown : before.registry.occupied failed = false)
    (hdownAfter : after.registry.occupied failed = false) :
    (after.planRetry failed).commit.map Committed.id =
        ((before.planRetry failed).commit.map Committed.id).filter
          (fun id => decide (id ∈ after.registry.ids)) ∧
      (after.planRetry failed).restartOrder =
        (before.planRetry failed).restartOrder.filter
          fun id => decide (id ∈ after.registry.ids) := by
  have hnodupAfter : after.registry.ids.Nodup := by
    obtain ⟨keep, hkeep, _⟩ := habsorbed.ids
    rw [hkeep]
    exact hnodup.filter _
  have hids := @commitIds_absorbed before after failed before.strategy old habsorbed hold hstays
  have hafter := planOf_planRetry hnodupAfter (mem_ids_absorbed habsorbed hold hstays) hdownAfter
  have hbefore := planOf_planRetry hnodup (mem_ids_of_get hold) hdown
  rw [habsorbed.strategy] at hafter
  refine ⟨by rw [hafter.members, hbefore.members, hids], ?_⟩
  rw [planRetry_restartOrder, planRetry_restartOrder, hafter.restarts, hbefore.restarts, hids,
    List.filter_filter, List.filter_filter]
  refine List.filter_congr fun id _ => ?_
  by_cases hleft : id ∈ after.registry.ids
  · rw [restartable_absorbed habsorbed hpending hleft]
    simp [hleft]
  · simp [hleft]

/-! ## What a turn plans -/

/-- The supervision state a turn plans on, after a retry was charged. -/
def SupervisionState.charged (sup : SupervisionState) (ev : Report) : SupervisionState :=
  (sup.charge ev.childId ev.incarnation).1

/-- What the turn plans on the report: the first plan of a group, if the strategy
decides for one, and the plan of a retry, if the front of the chain failed. -/
structure Plans (sup : SupervisionState) (ev : Report) (work : List Report) : Prop where
  first : (sup.routeReport ev).2.1 = .evaluate → ∀ next commit,
    (sup.routeReport ev).1.evaluateStrategy ev.childId ev.incarnation ev.reason =
      (next, .restartGroup commit) →
    PlanOf (sup.routeReport ev).1.strategy (sup.routeReport ev).1.registry [] ev.childId commit
  retry : (sup.routeReport ev).2.1 = .chainRetry →
    let before := (sup.routeReport ev).1.charged ev
    let after := (before.absorbRecords work (before.planRetry ev.childId).commit).sup
    PlanOf before.strategy after.registry after.releasedIds ev.childId
        (after.planRetry ev.childId).commit ∧
      (after.planRetry ev.childId).restartOrder = restartIds (after.planRetry ev.childId).commit ∧
      (after.planRetry ev.childId).commit.map Committed.id =
        ((before.planRetry ev.childId).commit.map Committed.id).filter
          (fun id => decide (id ∈ after.registry.ids)) ∧
      (after.planRetry ev.childId).restartOrder =
        (before.planRetry ev.childId).restartOrder.filter
          fun id => decide (id ∈ after.registry.ids)

/-- The turn records the end it decides on in the ledger. -/
structure RecordsEnd (sup next : SupervisionState) (ev : Report) : Prop where
  ids : next.registry.ids = sup.registry.ids
  down : next.registry.life ev.childId = some (.down ev.incarnation .none)

variable {ev : Report} {work : List Report} {child : Child} {life : ChildLifecycle}

theorem RecordsEnd.of_transition {noted : SupervisionState}
    (hids : noted.registry.ids = sup.registry.ids)
    (hlife : noted.registry.life ev.childId = some life) (hheld : life.heldToken = ev.incarnation) :
    RecordsEnd sup (noted.transition ev.childId (.down ev.incarnation .none)) ev :=
  ⟨ids_transition.trans hids, life_transition_down hlife hheld⟩

theorem recordsEnd_routeAttempt {origin : Origin} (hlife : sup.registry.life ev.childId = some life)
    (hheld : life.heldToken = ev.incarnation) :
    ((sup.routeAttempt ev origin).2.1 = .evaluate →
        RecordsEnd sup (sup.routeAttempt ev origin).1 ev) ∧
      ((sup.routeAttempt ev origin).2.1 = .chainRetry →
        RecordsEnd sup (sup.routeAttempt ev origin).1 ev ∧ ∃ chain,
          (sup.routeAttempt ev origin).1.pendingGroup = some (.restarting chain) ∧
            chain.queue.head? = some ev.childId) := by
  have hrecords : RecordsEnd sup ((sup.noteSubtree ev.childId).transition ev.childId
      (.down ev.incarnation .none)) ev :=
    .of_transition ids_noteSubtree (life_noteSubtree.trans hlife) hheld
  have hroutes := @attemptFailureRoute_cases
    (sup.chainFrontOf ev.childId == some (some ev.incarnation))
    (sup.groupMembership ev.childId) origin
  unfold routeAttempt
  dsimp only
  rcases hroutes with ⟨hfront, hroute⟩ | ⟨_, ⟨_, hroute⟩ | ⟨_, _, ⟨_, hroute⟩ | ⟨_, hroute⟩⟩⟩
  · rw [hroute]
    exact ⟨nofun, fun _ => ⟨hrecords, chainFrontOf_own (beq_iff_eq.mp hfront)⟩⟩
  · rw [hroute]
    exact ⟨nofun, nofun⟩
  · rw [hroute]
    exact ⟨nofun, nofun⟩
  · rw [hroute]
    dsimp only
    split
    · exact ⟨nofun, nofun⟩
    · exact ⟨fun _ => hrecords, nofun⟩

theorem recordsEnd_routeEnd (hlife : sup.registry.life ev.childId = some life)
    (hheld : life.heldToken = ev.incarnation) :
    ((sup.routeEnd ev).2.1 = .evaluate → RecordsEnd sup (sup.routeEnd ev).1 ev) ∧
      (sup.routeEnd ev).2.1 ≠ .chainRetry := by
  unfold routeEnd
  cases sup.pendingGroup with
  | none => exact ⟨fun _ => .of_transition rfl hlife hheld, nofun⟩
  | some =>
    dsimp only
    split
    · exact ⟨nofun, nofun⟩
    · split <;> exact ⟨nofun, nofun⟩

theorem recordsEnd_routeReport (hget : sup.registry.get ev.childId = some child)
    (hheld : child.lifecycle.heldToken = ev.incarnation) :
    ((sup.routeReport ev).2.1 = .evaluate → RecordsEnd sup (sup.routeReport ev).1 ev) ∧
      ((sup.routeReport ev).2.1 = .chainRetry → RecordsEnd sup (sup.routeReport ev).1 ev ∧
        ∃ chain, (sup.routeReport ev).1.pendingGroup = some (.restarting chain) ∧
          chain.queue.head? = some ev.childId) := by
  have hlife := life_of_get hget
  have hrouted : sup.routeReport ev =
      if child.lifecycle.isRestarting ∧ child.lifecycle.heldToken = ev.incarnation then
        sup.routeAttempt ev child.origin
      else sup.routeEnd ev := by
    unfold routeReport
    rw [hget]
  rw [hrouted]
  split
  · exact recordsEnd_routeAttempt hlife hheld
  · obtain ⟨hevaluate, hretry⟩ := recordsEnd_routeEnd hlife hheld
    exact ⟨hevaluate, fun hrouted => absurd hrouted hretry⟩

theorem RecordsEnd.unoccupied {next : SupervisionState} (hrecords : RecordsEnd sup next ev) :
    next.registry.occupied ev.childId = false := by
  unfold occupied
  rw [hrecords.down]
  rfl

/-- An absorption leaves a child that holds no occupant without one. -/
theorem unoccupied_absorbed {id : ActorId} (habsorbed : Absorbed before after)
    (hdown : before.registry.occupied id = false) : after.registry.occupied id = false := by
  unfold occupied at hdown ⊢
  cases hget : after.registry.get id with
  | none =>
    rw [life_eq_none_iff.mpr hget]
    rfl
  | some =>
    obtain ⟨old, hold, _, _, hsame | hrests⟩ := habsorbed.entry _ _ hget
    · rw [life_of_get hold] at hdown
      rw [life_of_get hget, hsame]
      exact hdown
    · rw [life_of_get hget]
      obtain ⟨n, pending, hlife, _⟩ := hrests
      rw [hlife]
      rfl

theorem plans_gone (hgone : sup.registry.get ev.childId = none) : Plans sup ev work := by
  have hrouted : sup.routeReport ev = (sup, .evaluate, {}) := by
    unfold routeReport
    rw [hgone]
  constructor
  · intro _ next commit hevaluated
    rw [hrouted] at hevaluated
    unfold evaluateStrategy at hevaluated
    rw [hgone] at hevaluated
    cases hevaluated
  · intro hretry
    rw [hrouted] at hretry
    cases hretry

/-- Whatever a turn plans on a report it acts on is a plan of the registry. -/
theorem plans_turn (hnodup : sup.registry.ids.Nodup)
    (hget : sup.registry.get ev.childId = some child)
    (hopen : reportClass child.lifecycle ev.incarnation ≠ .stale) : Plans sup ev work := by
  obtain ⟨hfirst, hretry⟩ := recordsEnd_routeReport hget (heldToken_of_open hopen)
  constructor
  · intro hrouted next commit hevaluated
    have hrecords := hfirst hrouted
    generalize sup.routeReport ev = routed at hrecords hevaluated ⊢
    obtain ⟨failed, hfailed, _⟩ := exists_get_of_life hrecords.down
    have hcase := @evaluateStrategy_cases routed.1 ev.childId ev.incarnation ev.reason failed
        hfailed
    rw [hevaluated] at hcase
    cases hcase
    exact planOf_groupCommit (by rw [hrecords.ids]; exact hnodup)
      (mem_ids_of_get hfailed) hrecords.unoccupied
  · intro hrouted
    obtain ⟨hrecords, chain, hpending, _⟩ := hretry hrouted
    generalize sup.routeReport ev = routed at hrecords hpending ⊢
    obtain ⟨failed, hfailed, hdown⟩ := exists_get_of_life hrecords.down
    have hstays : failed.Stays := by
      right
      intro n howes
      rw [hdown] at howes
      simp at howes
    have hspec : AbsorbSpec (routed.1.charged ev)
        ((routed.1.charged ev).planRetry ev.childId).commit
        ((routed.1.charged ev).absorbRecords work
          ((routed.1.charged ev).planRetry ev.childId).commit) := absorbSpec_absorbRecords
    have habsorbed := hspec.absorbed
    have hunique : (routed.1.charged ev).registry.ids.Nodup := by
      change routed.1.registry.ids.Nodup
      rw [hrecords.ids]
      exact hnodup
    have hfree : (routed.1.charged ev).registry.occupied ev.childId = false := hrecords.unoccupied
    have hfreeAfter := unoccupied_absorbed habsorbed hfree
    dsimp only
    generalize ((routed.1.charged ev).absorbRecords work
      ((routed.1.charged ev).planRetry ev.childId).commit).sup = after at habsorbed hfreeAfter ⊢
    have huniqueAfter : after.registry.ids.Nodup := by
      obtain ⟨keep, hkeep, _⟩ := habsorbed.ids
      rw [hkeep]
      exact hunique.filter _
    have hplan := planOf_planRetry huniqueAfter (mem_ids_absorbed habsorbed hfailed hstays)
      hfreeAfter
    rw [habsorbed.strategy] at hplan
    exact ⟨hplan, planRetry_restartOrder,
      planRetry_absorbed hunique habsorbed hpending hfailed hstays hfree hfreeAfter⟩

end TokioActors
