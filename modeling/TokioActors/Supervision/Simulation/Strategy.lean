/-
# The strategy's decisions as moves

An end that no group takes is evaluated: its child is removed or restarted, the
budget runs out, or a group restart is decided, absorbs what its members owe and
is laid out. A chain whose front failed is laid out again.
-/

import TokioActors.Supervision.Decisions
import TokioActors.Supervision.Simulation.Routing

namespace TokioActors

open SupervisionState Registry

variable {rules : Rules} {c : Config} {ev : Report} {work : List Report} {drop : Option String}
  {sup before after : SupervisionState} {id failed : ActorId} {n : Token} {child : Child}
  {budget : RestartBudget} {obs : List Obs} {name : Option String} {commit : List Committed}
  {strategy : RestartStrategy}

/-! ## The decision -/

/-- The states and outcomes an evaluation leaves for a child; `due` is whether the
child's type asks for a restart. -/
inductive EvalCase (sup : SupervisionState) (id : ActorId) (n : Token) (due : Prop) :
    SupervisionState × StrategyOutcome → Prop
  | removed (undue : ¬ due) : EvalCase sup id n due (sup.note (.evaluated id n .remove), .remove)
  | exhausted (asks : due) (refused : (sup.budget.checkAndRecord sup.now).2 = false) :
      EvalCase sup id n due
        ({ sup with
          budget := (sup.budget.checkAndRecord sup.now).1
          log := [.evaluated id n .budgetExhausted, .charged id n sup.now false] ++ sup.log },
          .budgetExhausted)
  | one (asks : due) (granted : (sup.budget.checkAndRecord sup.now).2 = true)
      (alone : sup.strategy = .oneForOne ∨ sup.strategy = .simpleOneForOne) :
      EvalCase sup id n due
        ({ sup with
          budget := (sup.budget.checkAndRecord sup.now).1
          log := [.evaluated id n .restartOne, .charged id n sup.now true] ++ sup.log },
          .restartOne)
  | group (asks : due) (granted : (sup.budget.checkAndRecord sup.now).2 = true) :
      EvalCase sup id n due
        ({ sup with
          budget := (sup.budget.checkAndRecord sup.now).1
          log := [.planned (groupCommit sup.strategy sup.groupMembers id),
            .evaluated id n .restartGroup, .charged id n sup.now true] ++ sup.log },
          .restartGroup (groupCommit sup.strategy sup.groupMembers id))

theorem charge_eq {granted : Bool} (hdecided : (sup.budget.checkAndRecord sup.now).2 = granted) :
    (sup.charge id n).1 =
      { sup with
        budget := (sup.budget.checkAndRecord sup.now).1
        log := .charged id n sup.now granted :: sup.log } := by
  subst hdecided
  rfl

theorem evaluateStrategy_cases {sup : SupervisionState} {id : ActorId} {n : Token}
    {reason : StopReason} {child : Child} (hget : sup.registry.get id = some child) :
    EvalCase sup id n (shouldRestart child.restartType reason = true)
      (sup.evaluateStrategy id n reason) := by
  unfold evaluateStrategy
  rw [hget]
  dsimp only
  split
  next hdue =>
    split
    next hgranted =>
      have hsome : (sup.budget.checkAndRecord sup.now).2 = true := hgranted
      rw [charge_eq hsome]
      split
      next hone => exact .one hdue hsome (.inl hone)
      next hsimple => exact .one hdue hsome (.inr hsimple)
      · exact .group hdue hsome
    next hrefused =>
      have hnone : (sup.budget.checkAndRecord sup.now).2 = false :=
        Bool.eq_false_iff.mpr hrefused
      rw [charge_eq hnone]
      exact .exhausted hdue hnone
  next hundue => exact .removed hundue

theorem life_closed (hget : c.sup.registry.get ev.childId = some child)
    (hopen : reportClass child.lifecycle ev.incarnation ≠ .stale) :
    (c.sup.closed ev budget obs).registry.life ev.childId = some (.down ev.incarnation .none) :=
  life_transition_down (life_of_get hget) (heldToken_of_open hopen)

theorem judged_exhausted (hturn : Turn c ev work) (hjudged : Judgement c.sup ev budget obs)
    (hrefused : (c.sup.budget.checkAndRecord c.sup.now).2 = false) :
    Judged c ev work (c.after
      (c.sup.closed ev budget obs,
        .deliver ⟨ev.childId, name, ev.reason, .budgetExhausted⟩ ev.incarnation
          (.exhausted work))) := by
  refine .of_alone hjudged (fun _ hgranted => ?_) fun rules =>
    moves_deliverNow hturn.unplanned hturn.out_eq rfl rfl rfl rfl
  rw [hrefused] at hgranted
  cases hgranted

/-! ## A first group restart -/

theorem commitMember_facts {failed : ActorId} {child : Child} :
    (commitMember failed child.groupMember).token = child.lifecycle.heldToken ∧
      (commitMember failed child.groupMember).action.held =
        (child.id != failed && !child.lifecycle.isDown) ∧
      ((commitMember failed child.groupMember).action.restarts = true ↔
        child.restartType ≠ .temporary) := by
  simp [commitMember, Child.groupMember]

/-- A member that is not held is at rest once what it owed was absorbed. -/
theorem atRest_of_settled {old : Child} (habsorbed : Absorbed before after)
    (hold : before.registry.get id = some old) (hget : after.registry.get id = some child)
    (hfailed : ∀ life, before.registry.life failed = some life → life.AtRest)
    (hfree : (id != failed && !old.lifecycle.isDown) = false)
    (hsettled : ∀ n, after.registry.life id ≠ some (.down n .evaluate)) :
    child.lifecycle.AtRest := by
  obtain ⟨same, hsame, _, _, hlife | hrests⟩ := habsorbed.entry id child hget
  · rw [hold] at hsame
    cases hsame
    rw [hlife]
    by_cases heq : id = failed
    · subst heq
      exact hfailed _ (life_of_get hold)
    · have hdown : old.lifecycle.isDown = true := by
        simpa [heq] using hfree
      obtain ⟨n, pending, hentry⟩ := ChildLifecycle.isDown_iff.mp hdown
      refine ⟨n, pending, hentry, ?_⟩
      rintro rfl
      exact hsettled n ((life_of_get hget).trans (congrArg some (hlife.trans hentry)))
  · exact hrests

/-- The order of a plan is the registry's, also after the absorption. -/
theorem restartIds_sublist_of_absorbed (habsorbed : Absorbed before after)
    (hids : (commit.map Committed.id).Sublist before.registry.ids)
    (hmember : ∀ member ∈ commit, member.action.restarts = true → ∃ child,
      before.registry.get member.id = some child ∧ child.Stays) :
    (restartIds commit).Sublist after.registry.ids := by
  obtain ⟨keep, hkeep, hstays⟩ := habsorbed.ids
  have hall : (restartIds commit).filter keep = restartIds commit := by
    rw [List.filter_eq_self]
    intro id hid
    obtain ⟨member, hmem, hrestarts, rfl⟩ := mem_restartIds_iff.mp hid
    obtain ⟨child, hget, hchild⟩ := hmember member hmem hrestarts
    exact hstays _ _ hget hchild
  rw [hkeep, ← hall]
  exact (restartIds_sublist.trans hids).filter _

/-- A first plan lies over the registry once what its members owed was absorbed. -/
theorem laid_groupCommit (hnodup : before.registry.ids.Nodup) (habsorbed : Absorbed before after)
    (hfailed : ∀ life, before.registry.life failed = some life → life.AtRest)
    (hdrawn : ∀ id child, before.registry.get id = some child →
      child.lifecycle.heldToken < after.nextIncarnation)
    (hsettled : ∀ member ∈ groupCommit strategy before.groupMembers failed, ∀ n,
      after.registry.life member.id ≠ some (.down n .evaluate)) :
    after.Laid (groupCommit strategy before.groupMembers failed) ∅ := by
  have hids : ((groupCommit strategy before.groupMembers failed).map Committed.id).Sublist
      before.registry.ids := by
    rw [groupCommit_ids]
    exact commitIds_sublist
  refine ⟨hnodup.sublist hids, ?_, ?_, ?_, ?_⟩
  · refine restartIds_sublist_of_absorbed habsorbed hids ?_
    intro member hmem hrestarts
    obtain ⟨child, hget, hcommit⟩ := groupCommit_member hnodup hmem
    refine ⟨child, hget, .inl ?_⟩
    rw [hcommit] at hrestarts
    exact commitMember_facts.2.2.mp hrestarts
  · intro member hmem hrestarts
    obtain ⟨old, hold, hcommit⟩ := groupCommit_member hnodup hmem
    obtain ⟨htoken, hheld, htype⟩ := @commitMember_facts failed old
    rw [← hcommit] at htoken hheld htype
    have hstays : old.Stays := .inl (htype.mp hrestarts)
    obtain ⟨child, hget, hsame, _⟩ := habsorbed.exists_stays hold hstays
    refine ⟨child, hget, by rw [hsame]; exact htype.mp hrestarts, by simp, ?_⟩
    obtain ⟨same, hsame', _, hsameToken, _⟩ := habsorbed.entry _ _ hget
    rw [hold] at hsame'
    cases hsame'
    rw [id_of_get hold] at hheld
    cases hcase : member.action.held with
    | true => exact .inl ⟨rfl, hsameToken.trans htoken.symm⟩
    | false =>
      refine .inr ⟨rfl, ?_⟩
      exact atRest_of_settled habsorbed hold hget hfailed (hheld.symm.trans hcase)
        (hsettled member hmem)
  · intro member hmem _ child hget _ htemporary
    obtain ⟨old, hold, hcommit⟩ := groupCommit_member hnodup hmem
    obtain ⟨same, hsame, htype, _⟩ := habsorbed.entry _ _ hget
    rw [hold] at hsame
    cases hsame
    refine .inl ?_
    rw [hcommit]
    exact commitMember_facts.2.2.mpr (htype ▸ htemporary)
  · intro member hmem
    obtain ⟨old, hold, hcommit⟩ := groupCommit_member hnodup hmem
    rw [hcommit, (@commitMember_facts failed old).1]
    exact hdrawn _ _ hold

/-- What a laid plan still has to deliver, and its layout. -/
theorem moves_deliverAbsorbed {deliveries : List Delivery} {trigger : Report}
    (hlooping : c.stage = .looping) (hplan : c.plan = some ⟨trigger.childId, commit, true⟩)
    (hout : c.out = deliveries ++
      [(⟨trigger.childId, name, trigger.reason, .restartInitiated⟩, trigger.incarnation)]) :
    Moves rules c (c.after (c.sup.deliverAbsorbed deliveries trigger name commit c.work)) := by
  unfold deliverAbsorbed
  cases deliveries with
  | cons delivery rest =>
    obtain ⟨event, n⟩ := delivery
    have hdeliver : Move rules c _ := .deliver event n _ hout
    have hafter : c.after (c.sup, .deliver event n (.absorbed rest trigger name commit c.work)) =
        { c with
          sup := c.sup.note (.delivered event n (c.sup.restartStands event.childId n))
          out := rest ++ [(⟨trigger.childId, name, trigger.reason, .restartInitiated⟩,
            trigger.incarnation)] } := by
      simp only [Config.after, Cont.work, Cont.out, Cont.plan, ← hplan]
    dsimp only
    rw [hafter]
    exact .single hdeliver
  | nil =>
    refine (moves_install hlooping hplan rfl).trans ?_
    exact moves_deliverNow rfl hout rfl rfl rfl rfl

theorem AbsorbSpec.not_open {result : Absorbing} (hspec : AbsorbSpec sup commit result)
    (hmem : id ∈ commit.map Committed.id)
    (howes : sup.registry.life id = some (.down n .evaluate)) : ¬ result.sup.Open id n := by
  rintro ⟨life, hlife, hclass⟩
  obtain ⟨member, hmember, rfl⟩ := List.mem_map.mp hmem
  obtain ⟨child, hget, rfl⟩ := exists_get_of_life hlife
  obtain ⟨old, hold, _, _, hsame | ⟨m, pending, hdown, hrests⟩⟩ := hspec.absorbed.entry _ _ hget
  · rw [life_of_get hold, ← hsame] at howes
    exact hspec.settled member hmember n (hlife.trans howes)
  · exact hclass (by simp [hdown, reportClass, hrests])

/-- What the decision for a report absorbs is closed by the absorption. -/
theorem closed_of_absorbs (hturn : Turn c ev work)
    (hcovers : commit.map Committed.id = commitIds c.sup.strategy c.sup.registry.ids ev.childId)
    (habsorbs : c.sup.Absorbs ev id n) :
    let result := (c.sup.closed ev budget obs).absorbRecords work commit
    n < result.sup.nextIncarnation ∧ ¬ result.sup.Open id n := by
  obtain ⟨_, _, _, _, hother, hcovered, howes⟩ := habsorbs
  obtain ⟨child, hget, hlife⟩ := exists_get_of_life howes
  constructor
  · rw [nextIncarnation_absorbRecords]
    have hfresh := hturn.fresh id child hget
    rw [hlife] at hfresh
    exact hfresh
  · refine absorbSpec_absorbRecords.not_open (by rwa [hcovers]) ?_
    change (c.sup.registry.transition _ _).life id = _
    rw [life_transition, if_neg hother, howes]

/-- A group restart is decided: what its members owe is absorbed, and the plan is
laid over what is left. -/
theorem judged_evaluateGroup (hturn : Turn c ev work)
    (hget : c.sup.registry.get ev.childId = some child)
    (hopen : reportClass child.lifecycle ev.incarnation ≠ .stale)
    (hidle : c.sup.pendingGroup = none) (hdue : c.sup.ChargeDue ev)
    (hgranted : (c.sup.budget.checkAndRecord c.sup.now).2 = true)
    (hcommit : commit = groupCommit c.sup.strategy
      (c.sup.transition ev.childId (.down ev.incarnation .none)).groupMembers ev.childId)
    (hsup : sup = c.sup.closed ev (c.sup.budget.checkAndRecord c.sup.now).1
      [.planned commit, .evaluated ev.childId ev.incarnation .restartGroup,
        .charged ev.childId ev.incarnation c.sup.now true]) :
    Judged c ev work (c.after
      (match (sup.absorbRecords work commit).removed, drop with
      | true, some message =>
        let owing := (sup.absorbRecords work commit).sup.oweDeliveries
          (sup.absorbRecords work commit).deliveries
        ({ owing with owed := ev :: owing.owed }, .halt (.failure (.panic message))
          (sup.absorbRecords work commit).work)
      | _, _ =>
        (sup.absorbRecords work commit).sup.deliverAbsorbed
          (sup.absorbRecords work commit).deliveries ev name commit
          (sup.absorbRecords work commit).work)) := by
  have hregistry : sup.registry = c.sup.registry.transition ev.childId
      (.down ev.incarnation .none) := by rw [hsup]; rfl
  have hnodup : sup.registry.ids.Nodup := by
    rw [hregistry, ids_transition]
    exact hturn.nodup
  have hlife : sup.registry.life ev.childId = some (.down ev.incarnation .none) := by
    rw [hsup]
    exact life_closed hget hopen
  have hmembers : commit = groupCommit sup.strategy sup.groupMembers ev.childId := by
    rw [hcommit, hsup]
    rfl
  let plan : Plan := ⟨ev.childId, commit, false⟩
  let event : ChildEvent := ⟨ev.childId, name, ev.reason, .restartInitiated⟩
  let decided : Config := { c with
    sup := sup, work := work, plan := some plan, out := [(event, ev.incarnation)] }
  have hunlaid {d : Config} (hd : d.plan = some plan) : d.Unlaid := by
    intro other hother
    rw [hd] at hother
    cases hother
    rfl
  have hcovers : commit.map Committed.id =
      commitIds c.sup.strategy c.sup.registry.ids ev.childId := by
    rw [hcommit, groupCommit_ids]
    exact congrArg (commitIds c.sup.strategy · ev.childId) ids_transition
  have hclosed (id : ActorId) (n : Token) (habsorbs : c.sup.Absorbs ev id n) :
      n < (sup.absorbRecords work commit).sup.nextIncarnation ∧
        ¬ (sup.absorbRecords work commit).sup.Open id n := by
    rw [hsup]
    exact closed_of_absorbs hturn hcovers habsorbs
  have hstart (rules : Rules) : Moves rules { c with
      sup := sup, work := work, out := (ev.untitled, ev.incarnation) :: c.out } _ :=
    .head (.decide plan rfl) (.head
      (.retitle ev.untitled event ev.incarnation [] (hunlaid rfl) hturn.out_eq rfl)
      (@moves_absorbRecords rules decided [(event, ev.incarnation)] commit hturn.looping
        (hunlaid rfl) rfl))
  have hspec : AbsorbSpec sup commit (sup.absorbRecords work commit) :=
    absorbSpec_absorbRecords
  have hcounter : (sup.absorbRecords work commit).sup.nextIncarnation = c.sup.nextIncarnation := by
    rw [nextIncarnation_absorbRecords, hsup]
    rfl
  generalize sup.absorbRecords work commit = result at hspec hstart hcounter hclosed ⊢
  let ready : Config := { c with
    sup := result.sup, work := result.work, plan := some plan
    out := result.deliveries ++ [(event, ev.incarnation)] }
  have hready (rules : Rules) : Moves rules { c with
      sup := sup, work := work, out := (ev.untitled, ev.incarnation) :: c.out } ready :=
    (hstart rules).tail (.reorder _ (hunlaid rfl) (List.perm_append_singleton _ _))
  suffices hend : ∀ rules, Moves rules ready (c.after (match result.removed, drop with
      | true, some message =>
        let owing := result.sup.oweDeliveries result.deliveries
        ({ owing with owed := ev :: owing.owed }, .halt (.failure (.panic message)) result.work)
      | _, _ => result.sup.deliverAbsorbed result.deliveries ev name commit result.work)) by
    refine ⟨⟨ev.untitled, _, _, rfl, .restartGroup commit hdue hgranted hcovers hidle,
      fun rules => ?_⟩, fun id n habsorbs => ?_⟩
    · rw [Config.decided, ← hsup]
      exact (hready rules).trans (hend rules)
    · exact ((hend Rules.free).closed_stays (hclosed id n habsorbs)).2
  intro rules
  have hlay : Moves rules ready (c.after (result.sup.deliverAbsorbed result.deliveries ev name
      commit result.work)) := by
    have hrests : ∀ life, sup.registry.life ev.childId = some life → life.AtRest := by
      intro life hsome
      rw [hlife] at hsome
      exact ⟨_, _, (Option.some.inj hsome).symm, by simp⟩
    have hlaid : Move rules ready
        { c with
          sup := result.sup, work := result.work, plan := some { plan with laid := true }
          out := result.deliveries ++ [(event, ev.incarnation)] } := by
      refine .lay plan rfl hturn.looping ?_ ?_ ?_
      · exact hspec.absorbed.idle (by rw [hsup]; exact hidle)
      · change currentPlan result.sup.log = commit
        rw [hspec.absorbed.plan, hsup]
        rfl
      · have hsettled := hspec.settled
        change result.sup.Laid commit ∅
        rw [hmembers] at hsettled ⊢
        refine laid_groupCommit hnodup hspec.absorbed hrests ?_ hsettled
        intro id child hchild
        rw [hcounter]
        rw [hregistry, get_transition] at hchild
        split at hchild
        next heq =>
          obtain ⟨old, hold, rfl⟩ := Option.map_eq_some_iff.mp hchild
          have hfresh := hturn.fresh _ old hold
          rw [hget] at hold
          cases hold
          have hheld := heldToken_of_open hopen
          change (moved _ _).heldToken < _
          rw [moved, if_pos (isLegal_down_iff.mpr hheld)]
          rw [hheld] at hfresh
          exact hfresh
        · exact hturn.fresh _ _ hchild
    exact .head hlaid (moves_deliverAbsorbed hturn.looping rfl rfl)
  split
  next message _ =>
    have howe : Moves rules ready _ := moves_oweDeliveries rfl
    have hown : Move rules { c with
        sup := result.sup.oweDeliveries result.deliveries, work := result.work, plan := some plan
        out := [(event, ev.incarnation)] } _ :=
      .owe event ev.incarnation [] (ev :: (result.sup.oweDeliveries result.deliveries).owed)
        (result.sup.oweDeliveries result.deliveries).owedNames rfl (List.Perm.refl _)
    exact (howe.tail hown).trans
      (@moves_halt rules _ (.failure (.panic message)) hturn.looping rfl)
  · exact hlay

/-! ## A retry -/

section Retry

variable {before after : SupervisionState} {failed : ActorId} {old : Child}

/-- The failed child of a retry is not absorbed away. -/
theorem mem_ids_absorbed (habsorbed : Absorbed before after)
    (hold : before.registry.get failed = some old) (hstays : old.Stays) :
    failed ∈ after.registry.ids := by
  obtain ⟨keep, hkeep, hkeeps⟩ := habsorbed.ids
  rw [hkeep, List.mem_filter]
  exact ⟨mem_ids_of_get hold, hkeeps _ _ hold hstays⟩

theorem atRest_absorbed (habsorbed : Absorbed before after)
    (hold : before.registry.get failed = some old) (hrests : old.lifecycle.AtRest) :
    ∀ life, after.registry.life failed = some life → life.AtRest := by
  intro life hlife
  obtain ⟨child, hget, rfl⟩ := exists_get_of_life hlife
  obtain ⟨same, hsame, _, _, hkept | hrest⟩ := habsorbed.entry _ _ hget
  · rw [hold] at hsame
    cases hsame
    rw [hkept]
    exact hrests
  · exact hrest

/-- What an absorption leaves of the ids a plan covers. -/
theorem mem_commitIds_absorbed (hnodup : before.registry.ids.Nodup)
    (habsorbed : Absorbed before after) (hold : before.registry.get failed = some old)
    (hstays : old.Stays) :
    id ∈ commitIds strategy after.registry.ids failed ↔
      id ∈ commitIds strategy before.registry.ids failed ∧ id ∈ after.registry.ids := by
  obtain ⟨keep, hkeep, hkeeps⟩ := habsorbed.ids
  have hfailed := hkeeps _ _ hold hstays
  have hmem : failed ∈ before.registry.ids := mem_ids_of_get hold
  have hmemAfter := mem_ids_absorbed habsorbed hold hstays
  have hnodupAfter : after.registry.ids.Nodup := by
    rw [hkeep]
    exact hnodup.filter _
  rw [mem_commitIds_iff hnodupAfter hmemAfter, mem_commitIds_iff hnodup hmem, hkeep,
    takeWhile_filter hfailed]
  constructor
  · rintro ⟨hid, hlater⟩
    obtain ⟨hbefore, hkept⟩ := List.mem_filter.mp hid
    refine ⟨⟨hbefore, ?_⟩, hid⟩
    intro hstrategy htake
    exact hlater hstrategy (List.mem_filter.mpr ⟨htake, hkept⟩)
  · rintro ⟨⟨_, hlater⟩, hid⟩
    exact ⟨hid, fun hstrategy htake => hlater hstrategy (List.mem_filter.mp htake).1⟩

/-- What a retry plans from the ledger an absorption left owes no decision. -/
theorem absorbed_planRetry (hnodup : before.registry.ids.Nodup) (habsorbed : Absorbed before after)
    (hold : before.registry.get failed = some old) (hstays : old.Stays)
    (hsettled : ∀ member ∈ (before.planRetry failed).commit, ∀ n,
      after.registry.life member.id ≠ some (.down n .evaluate)) :
    ∀ member ∈ (after.planRetry failed).commit, ∀ n,
      after.registry.life member.id ≠ some (.down n .evaluate) := by
  intro member hmem
  have hid : member.id ∈ commitIds after.strategy after.registry.ids failed := by
    rw [← planRetry_ids]
    exact List.mem_map_of_mem hmem
  rw [habsorbed.strategy, mem_commitIds_absorbed hnodup habsorbed hold hstays,
    ← planRetry_ids] at hid
  obtain ⟨same, hsame, heq⟩ := List.mem_map.mp hid.1
  rw [← heq]
  exact hsettled same hsame

end Retry

theorem moves_reinstall {plan : Plan} {chain : RestartChain} (hlooping : c.stage = .looping)
    (hpending : c.sup.pendingGroup = some (.restarting chain))
    (hfront : chain.queue.head? = some plan.failed)
    (habsorbed : ∀ member ∈ (c.sup.planRetry plan.failed).commit, ∀ n,
      c.sup.registry.life member.id ≠ some (.down n .evaluate))
    (hpresent : plan.failed ∈ c.sup.registry.ids)
    (hrests : ∀ life, c.sup.registry.life plan.failed = some life → life.AtRest) :
    let retry := c.sup.planRetry plan.failed
    let installed := (c.sup.note (.planned retry.commit)).installGroup retry.commit
      retry.restartOrder chain.overrides chain.scope c.work
    Moves rules c { c with sup := installed.1, work := installed.2, plan := none } := by
  intro retry installed
  have hcancel : Moves rules c (c.withSup (c.sup.cancelAttempts retry.commit)) :=
    moves_cancelAttempts
  have hslots : c.sup.cancelAttempts retry.commit =
      { c.sup with slots := cancelledSlots c.sup.registry retry.commit c.sup.slots } :=
    cancelAttempts_eq
  have hreinstall : Move rules (c.withSup (c.sup.cancelAttempts retry.commit))
      { c with
        sup := { c.sup.cancelAttempts retry.commit with
          pendingGroup := some (layOut retry.commit chain.overrides chain.scope)
          log := .planned retry.commit :: c.sup.log }
        plan := none } := by
    rw [hslots]
    exact .reinstall plan chain hpending hfront habsorbed hpresent hrests
  refine (hcancel.tail hreinstall).trans ?_
  have hnoted : (c.sup.note (.planned retry.commit)).cancelAttempts retry.commit =
      { c.sup.cancelAttempts retry.commit with log := .planned retry.commit :: c.sup.log } := by
    rw [cancelAttempts_eq, hslots]
    rfl
  have hlay := @moves_layOut rules { c with
    sup := { c.sup.cancelAttempts retry.commit with
      pendingGroup := some (layOut retry.commit chain.overrides chain.scope)
      log := .planned retry.commit :: c.sup.log }
    plan := none }
    { c.sup.cancelAttempts retry.commit with log := .planned retry.commit :: c.sup.log }
    retry.commit chain.overrides chain.scope hlooping rfl rfl
  rw [← hnoted] at hlay
  exact hlay

theorem moves_deliverRetried {deliveries : List Delivery}
    (hplan : c.plan = none) (hout : c.out = deliveries) :
    Moves rules c (c.after (c.sup.deliverRetried deliveries c.work)) := by
  unfold deliverRetried
  cases deliveries with
  | cons delivery rest =>
    obtain ⟨event, n⟩ := delivery
    have hdeliver : Move rules c _ := .deliver event n rest hout
    have hafter : c.after (c.sup, .deliver event n (.retried rest c.work)) =
        { c with
          sup := c.sup.note (.delivered event n (c.sup.restartStands event.childId n))
          out := rest } := by
      simp only [Config.after, Cont.work, Cont.out, Cont.plan, ← hplan]
    dsimp only
    rw [hafter]
    exact .single hdeliver
  | nil =>
    have hafter : c.after (c.sup, .loop c.work) = c := by
      simp only [Config.after, ← hplan, ← hout]
    dsimp only
    rw [hafter]

/-- A chain whose front failed to start is laid out again. -/
theorem judged_retryGroup {chain : RestartChain} (hturn : Turn c ev work)
    (hget : c.sup.registry.get ev.childId = some child)
    (hopen : reportClass child.lifecycle ev.incarnation ≠ .stale)
    (hpending : c.sup.pendingGroup = some (.restarting chain))
    (hfront : chain.queue.head? = some ev.childId) (hjudged : Judgement c.sup ev budget obs) :
    Judged c ev work (c.after ((c.sup.closed ev budget obs).retryGroup ev work drop)) := by
  let sup := c.sup.closed ev budget obs
  let event : ChildEvent := ⟨ev.childId, sup.nameOf ev.childId, ev.reason, .restartInitiated⟩
  let plan : Plan := ⟨ev.childId, (sup.planRetry ev.childId).commit, false⟩
  have hnodup : sup.registry.ids.Nodup := by
    change (c.sup.registry.transition _ _).ids.Nodup
    rw [ids_transition]
    exact hturn.nodup
  have hlife : sup.registry.life ev.childId = some (.down ev.incarnation .none) :=
    life_closed hget hopen
  obtain ⟨failed, hfailed, hdown⟩ := exists_get_of_life hlife
  have hstays : failed.Stays := by
    right
    intro n howes
    rw [hdown] at howes
    simp at howes
  have hclosed (id : ActorId) (n : Token) (habsorbs : c.sup.Absorbs ev id n) :
      n < (sup.absorbRecords work plan.commit).sup.nextIncarnation ∧
        ¬ (sup.absorbRecords work plan.commit).sup.Open id n := by
    refine closed_of_absorbs hturn (planRetry_ids.trans ?_) habsorbs
    exact congrArg (commitIds c.sup.strategy · ev.childId) ids_transition
  have hstart (rules : Rules) : Moves rules (c.decided ev work event budget obs)
      (Config.absorbing _ _ (sup.absorbRecords work plan.commit)) :=
    .head (.decide plan rfl) (@moves_absorbRecords rules
      { c.decided ev work event budget obs with plan := some plan } [(event, ev.incarnation)]
      plan.commit hturn.looping (fun _ h => by cases h; rfl) hturn.out_eq)
  have hspec : AbsorbSpec sup plan.commit (sup.absorbRecords work plan.commit) :=
    absorbSpec_absorbRecords
  unfold retryGroup
  dsimp only
  generalize (c.sup.closed ev budget obs).absorbRecords work
    ((c.sup.closed ev budget obs).planRetry ev.childId).commit = result at hspec hstart hclosed ⊢
  obtain ⟨left, hleft, hkept⟩ := hspec.absorbed.chain chain hpending
  rw [hleft]
  dsimp only
  suffices hend : ∀ rules, Moves rules { c.decided ev work event budget obs with
      sup := result.sup, work := result.work, plan := some plan
      out := (event, ev.incarnation) :: result.deliveries } _ from
    ⟨⟨event, budget, obs, rfl, hjudged, fun rules => (hstart rules).trans (hend rules)⟩,
      fun id n habsorbs => ((hend Rules.free).closed_stays (hclosed id n habsorbs)).2⟩
  intro rules
  have hlaid : Moves rules _ _ := @moves_reinstall rules
    { c.decided ev work event budget obs with
      sup := result.sup, work := result.work, plan := some plan
      out := (event, ev.incarnation) :: result.deliveries } plan left hturn.looping hleft
    ((hkept _ _ hfailed hstays).1 hfront)
    (absorbed_planRetry hnodup hspec.absorbed hfailed hstays hspec.settled)
    (mem_ids_absorbed hspec.absorbed hfailed hstays)
    (atRest_absorbed hspec.absorbed hfailed ⟨_, _, hdown, by simp⟩)
  generalize (result.sup.note (.planned (result.sup.planRetry ev.childId).commit)).installGroup
    (result.sup.planRetry ev.childId).commit (result.sup.planRetry ev.childId).restartOrder
    left.overrides left.scope result.work = installed at hlaid ⊢
  split
  next message _ =>
    have howe : Moves rules { c with
        sup := installed.1, work := installed.2, plan := none
        out := (event, ev.incarnation) :: result.deliveries } _ :=
      moves_oweDeliveries (List.append_nil _).symm
    exact (hlaid.trans howe).trans
      (@moves_halt rules _ (.failure (.panic message)) hturn.looping rfl)
  · exact hlaid.trans (@moves_deliverRetried rules { c with
      sup := installed.1, work := installed.2, plan := none
      out := (event, ev.incarnation) :: result.deliveries } _ rfl rfl)

/-! ## A whole turn -/

/-- The evaluation of an end that no group takes. -/
theorem judged_evaluateReport (hturn : Turn c ev work)
    (hget : c.sup.registry.get ev.childId = some child)
    (hopen : reportClass child.lifecycle ev.incarnation ≠ .stale)
    (hidle : c.sup.pendingGroup = none) (hends : child.lifecycle = .running ev.incarnation ∨
      child.lifecycle = .down ev.incarnation .evaluate ∨
      ∃ p, child.lifecycle = .restarting p ev.incarnation ∧ child.origin ≠ .manual) :
    Judged c ev work (c.after
      ((c.sup.transition ev.childId (.down ev.incarnation .none)).evaluateReport ev work
        drop)) := by
  let sup := c.sup.transition ev.childId (.down ev.incarnation .none)
  have hlife : sup.registry.life ev.childId = some (.down ev.incarnation .none) :=
    life_transition_down (life_of_get hget) (heldToken_of_open hopen)
  obtain ⟨failed, hfailed, _⟩ := exists_get_of_life hlife
  have hdue : shouldRestart failed.restartType ev.reason = true ↔ c.sup.ChargeDue ev := by
    change (c.sup.registry.transition _ _).get ev.childId = _ at hfailed
    rw [get_transition, if_pos rfl, hget] at hfailed
    cases hfailed
    refine ⟨fun hdue => .inr ⟨hidle, child, hget, hdue, hends⟩, ?_⟩
    rintro (⟨chain, _, hpending, _⟩ | ⟨_, same, hsame, hdue, _⟩)
    · rw [hidle] at hpending
      cases hpending
    · rw [hget] at hsame
      cases hsame
      exact hdue
  unfold evaluateReport
  dsimp only
  have hcase := @evaluateStrategy_cases sup ev.childId ev.incarnation ev.reason failed hfailed
  generalize sup.nameOf ev.childId = name
  generalize sup.evaluateStrategy ev.childId ev.incarnation ev.reason = outcome at hcase ⊢
  rw [hdue] at hcase
  cases hcase with
  | removed hundue =>
    exact .of_alone (.removed hundue) (fun h => absurd h hundue) fun rules =>
      @moves_memberOut rules (c.decided ev work ev.untitled c.sup.budget
        [.evaluated ev.childId ev.incarnation .remove]) ev drop ev.untitled true name
        hturn.looping hturn.unplanned hturn.out_eq rfl rfl
  | exhausted hdue hrefused => exact judged_exhausted hturn (.exhausted hdue hrefused) hrefused
  | one hdue hgranted halone =>
    exact .of_alone (.restartOne hdue hgranted) (fun _ _ => halone) fun rules =>
      .head (.begin ev.childId ev.incarnation hturn.looping hturn.unplanned hidle
        (life_closed hget hopen)) (moves_deliverNow hturn.unplanned hturn.out_eq rfl rfl rfl rfl)
  | group hdue hgranted => exact judged_evaluateGroup hturn hget hopen hidle hdue hgranted rfl rfl

theorem moves_evaluateGone (hturn : Turn c ev work)
    (habsent : c.sup.registry.get ev.childId = none) :
    Moves rules c (c.after (c.sup.evaluateReport ev work drop)) := by
  have hclose : Move rules c _ := .closeGone ev work ev.untitled hturn.head rfl
  unfold evaluateReport evaluateStrategy
  dsimp only
  rw [habsent]
  exact .head hclose (@moves_memberOut rules { c with
    sup := c.sup.note (.evaluated ev.childId ev.incarnation .remove)
    work := work
    out := (ev.untitled, ev.incarnation) :: c.out } ev drop ev.untitled true
    (c.sup.nameOf ev.childId) hturn.looping hturn.unplanned hturn.out_eq rfl rfl)

theorem moves_queueTrigger {phase : GroupPhase} (hturn : Turn c ev work)
    (hget : c.sup.registry.get ev.childId = some child)
    (hopen : reportClass child.lifecycle ev.incarnation ≠ .stale)
    (hpending : c.sup.pendingGroup = some phase)
    (hunstopped : ∀ kind, child.lifecycle ≠ .stopping ev.incarnation kind)
    (hunawaited : phase.awaiting.lookup ev.childId = some ev.incarnation →
      (c.sup.pendingManualEvents.lookup (ev.childId, ev.incarnation)).isSome)
    (hunqueued : ∀ chain, phase = .restarting chain → ev.childId ∉ chain.queue) :
    Moves rules c (c.after (c.sup.queueTrigger ev, .loop work)) := by
  have hqueue : Move rules c _ := .queue ev work phase child.lifecycle hturn.head
    hpending (life_of_get hget) hopen hunstopped hunawaited hunqueued
  have hafter : c.after (c.sup.queueTrigger ev, .loop work) =
      { c with sup := c.sup.queueTrigger ev, work := work } := by
    simp only [Config.after, hturn.delivered, hturn.unplanned]
  rw [hafter]
  exact .single hqueue

end TokioActors
