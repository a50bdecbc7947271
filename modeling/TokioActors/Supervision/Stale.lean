/-
# Reports the ledger has moved past

A report can come late: of an incarnation the entry of its child no longer holds,
or whose end was recorded already. Such a report clears the marker its own end
left and changes no entry beyond that; it is charged to nobody, and it starts
nothing but the chain step that was held back for it, by the barrier of a group
that waits for the end or by the child's place at the front of the chain.
-/

import TokioActors.Supervision.Decisions
import TokioActors.Supervision.Tokens

namespace TokioActors

open SupervisionState Machine

variable {sup mid next : SupervisionState} {ev : Report} {id : ActorId} {n : Token}
  {queue : List ActorId}

/-- The report is of an incarnation that is neither the occupant of its child's
entry nor the end the entry owes a decision for. -/
def SupervisionState.Stale (sup : SupervisionState) (ev : Report) : Prop :=
  ∃ life, sup.registry.life ev.childId = some life ∧ reportClass life ev.incarnation = .stale

/-- The pending group is held back for the report: its barrier waits for the end,
or the child is at the front of its chain. -/
def SupervisionState.HoldsBack (sup : SupervisionState) (ev : Report) : Prop :=
  match sup.pendingGroup with
  | some (.stopping group) => group.awaiting.lookup ev.childId = some ev.incarnation
  | some (.restarting chain) => chain.queue.head? = some ev.childId
  | none => False

/-- An entry without the marker the end of `n` left on it. -/
def ChildLifecycle.unmarked (life : ChildLifecycle) (n : Token) : ChildLifecycle :=
  if life = .down n .snapshot then .down n .none else life

/-- The entry of a child is as it was, but for the marker of the reported end. -/
def KeepsEntry (sup : SupervisionState) (ev : Report) (next : SupervisionState) (id : ActorId) :
    Prop :=
  next.registry.life id = sup.registry.life id ∨
    id = ev.childId ∧
      next.registry.life id = (sup.registry.life id).map (·.unmarked ev.incarnation)

/-- Nothing was charged and nothing begun, and the entries are as they were but for
the marker of the reported end. -/
structure Calm (sup : SupervisionState) (ev : Report) (next : SupervisionState) : Prop where
  budget : next.budget = sup.budget
  quiet : ∃ obs, next.log = obs ++ sup.log ∧ ∀ o ∈ obs, o.charge = none ∧ o.begins = none
  entries : ∀ id, KeepsEntry sup ev next id

/-- What handling a stale report leaves: everything, up to its own marker, or all
but the one child that the chain it was holding back goes on to start. -/
inductive LeavesAlone (sup : SupervisionState) (ev : Report) (next : SupervisionState) : Prop
  | untouched (calm : Calm sup ev next)
  | chainStep (held : sup.HoldsBack ev) (budget : next.budget = sup.budget) (front : ActorId)
      (n m : Token)
      (quiet : ∃ obs, next.log = obs ++ sup.log ∧ ∀ o ∈ obs, o.charge = none ∧
        (o.begins = none ∨ ∃ life, o = .began front life m .chain))
      (before : ∃ pending, sup.registry.life front = some (.down n pending))
      (started : next.registry.life front = some (.restarting n m))
      (others : ∀ id, id ≠ front → KeepsEntry sup ev next id)

/-! ## The work of the group -/

/-- The group went on, or its queue did: the ledger and the budget stay. -/
structure GroupWork (sup next : SupervisionState) : Prop where
  registry : next.registry = sup.registry
  budget : next.budget = sup.budget
  quiet : ∃ obs, next.log = obs ++ sup.log ∧ ∀ o ∈ obs, o.charge = none ∧ o.begins = none

theorem GroupWork.of_log (hregistry : next.registry = sup.registry)
    (hbudget : next.budget = sup.budget) (hlog : next.log = sup.log) : GroupWork sup next :=
  ⟨hregistry, hbudget, [], hlog, by simp⟩

theorem GroupWork.trans (hfirst : GroupWork sup mid) (hsecond : GroupWork mid next) :
    GroupWork sup next := by
  obtain ⟨obs, hlog, hobs⟩ := hfirst.quiet
  obtain ⟨later, hlater, hquiet⟩ := hsecond.quiet
  refine ⟨hsecond.registry.trans hfirst.registry, hsecond.budget.trans hfirst.budget,
    later ++ obs, ?_, fun o ho => ?_⟩
  · rw [hlater, hlog, List.append_assoc]
  · rcases List.mem_append.mp ho with h | h
    · exact hquiet o h
    · exact hobs o h

theorem groupWork_applyQueueStep {step : QueueStep} :
    GroupWork sup (sup.applyQueueStep id step) := by
  obtain ⟨slots, obs, hframe, hobs⟩ := @frame_applyQueueStep sup id step
  rw [hframe]
  refine ⟨rfl, rfl, obs, rfl, fun o ho => ⟨?_, (Obs.neutral_of_group (hobs o ho)).1⟩⟩
  have hgroup := hobs o ho
  cases o <;> first | rfl | cases hgroup

theorem groupWork_stopQueueLoop {group : GroupRestart} :
    GroupWork sup (sup.stopQueueLoop group queue) := by
  induction queue generalizing group with
  | nil => exact .of_log rfl rfl rfl
  | cons head rest ih =>
    unfold stopQueueLoop
    split
    · exact ih
    · exact .of_log rfl rfl rfl
    · exact groupWork_applyQueueStep.trans (.of_log rfl rfl rfl)

theorem groupWork_settleBarrier : GroupWork sup (sup.settleBarrier id n).1 := by
  unfold settleBarrier
  split
  · split <;> exact .of_log rfl rfl rfl
  · exact .of_log rfl rfl rfl

theorem groupWork_advanceGroupStop : GroupWork sup sup.advanceGroupStop.1 := by
  have hadvanced : GroupWork sup sup.advanceStopQueue := by
    unfold advanceStopQueue
    split
    · exact groupWork_stopQueueLoop
    · exact .of_log rfl rfl rfl
  unfold advanceGroupStop
  dsimp only
  split
  · split
    · exact hadvanced.trans (.of_log rfl rfl rfl)
    · exact hadvanced
  · exact hadvanced

theorem groupWork_chainLoop {chain : RestartChain} {work : List Report} :
    GroupWork sup (sup.chainLoop work chain queue).1.1 := by
  induction queue generalizing chain with
  | nil => exact ⟨rfl, rfl, [.groupCompleted], rfl, by simp [Obs.charge, Obs.begins]⟩
  | cons front rest ih =>
    unfold chainLoop
    cases sup.registry.get front with
    | none => exact ih
    | some child =>
      dsimp only
      cases chainFront child.lifecycle (chain.started.lookup front) with
      | fresh => exact ih
      | initiate => exact .of_log rfl rfl rfl
      | stopThenInitiate =>
        exact ⟨rfl, rfl, [.foreignFront front], rfl, by simp [Obs.charge, Obs.begins]⟩
      | hold =>
        dsimp only
        split
        · exact ⟨rfl, rfl, [.foreignFront front], rfl, by simp [Obs.charge, Obs.begins]⟩
        · exact .of_log rfl rfl rfl

theorem groupWork_advanceRestartChain {work : List Report} :
    GroupWork sup (sup.advanceRestartChain work).1.1 := by
  unfold advanceRestartChain
  split
  · exact groupWork_chainLoop
  · exact .of_log rfl rfl rfl

/-! ## What a stale report leaves -/

theorem Calm.work (hcalm : Calm sup ev mid) (hwork : GroupWork mid next) : Calm sup ev next := by
  obtain ⟨obs, hlog, hobs⟩ := hcalm.quiet
  obtain ⟨later, hlater, hquiet⟩ := hwork.quiet
  refine ⟨hwork.budget.trans hcalm.budget, ⟨later ++ obs, ?_, fun o ho => ?_⟩, fun id => ?_⟩
  · rw [hlater, hlog, List.append_assoc]
  · rcases List.mem_append.mp ho with h | h
    · exact hquiet o h
    · exact hobs o h
  · unfold KeepsEntry
    rw [hwork.registry]
    exact hcalm.entries id

theorem KeepsEntry.down {pending : DownPending} (hkeeps : KeepsEntry sup ev next id)
    (hlife : next.registry.life id = some (.down n pending)) :
    ∃ pending, sup.registry.life id = some (.down n pending) := by
  rcases hkeeps with hsame | ⟨_, hunmarked⟩
  · exact ⟨pending, hsame.symm.trans hlife⟩
  · rw [hlife] at hunmarked
    obtain ⟨before, hbefore, hdown⟩ := Option.map_eq_some_iff.mp hunmarked.symm
    unfold ChildLifecycle.unmarked at hdown
    split at hdown
    next hmarked =>
      cases hdown
      exact ⟨.snapshot, by rw [hbefore, hmarked]⟩
    · exact ⟨pending, by rw [hbefore, hdown]⟩

theorem Calm.advance {work : List Report} (hcalm : Calm sup ev mid) (hheld : sup.HoldsBack ev) :
    LeavesAlone sup ev (mid.advanceAndInitiate work).1 := by
  have hadvanced : Calm sup ev (mid.advanceRestartChain work).1.1 :=
    hcalm.work groupWork_advanceRestartChain
  unfold advanceAndInitiate
  split
  next advanced rest front heq =>
    rw [heq] at hadvanced
    rcases @initiateRestart_cases advanced front .chain with
      hnone | ⟨child, n, pending, hget, hdown, _, hbegin⟩
    · rw [hnone]
      exact .untouched ⟨hadvanced.budget, hadvanced.quiet, hadvanced.entries⟩
    · rw [hbegin]
      have hlife : advanced.registry.life front = some (.down n pending) := by
        rw [← hdown]
        exact Registry.life_of_get hget
      refine .chainStep hheld hadvanced.budget front n advanced.nextIncarnation ?_
        ((hadvanced.entries front).down hlife) ?_ fun id hne => ?_
      · obtain ⟨obs, hlog, hobs⟩ := hadvanced.quiet
        change ∃ obs, (if front ∈ advanced.restartFns then _ else advanced.log) = obs ++ sup.log ∧ _
        split
        · refine ⟨_ :: obs, by rw [hlog]; rfl, fun o ho => ?_⟩
          rcases List.mem_cons.mp ho with rfl | h
          · exact ⟨rfl, .inr ⟨_, rfl⟩⟩
          · exact ⟨(hobs o h).1, .inl (hobs o h).2⟩
        · exact ⟨obs, hlog, fun o ho => ⟨(hobs o ho).1, .inl (hobs o ho).2⟩⟩
      · rw [life_begin, if_pos rfl]
        change (advanced.registry.life front).map _ = _
        rw [hlife]
        rfl
      · unfold KeepsEntry
        rw [life_begin, if_neg hne]
        exact hadvanced.entries id
  next advanced rest _ hother heq =>
    rw [heq] at hadvanced
    exact .untouched hadvanced

theorem Calm.refl : Calm sup ev sup := ⟨rfl, ⟨[], rfl, by simp⟩, fun _ => .inl rfl⟩

theorem holdsBack_of_settled (hgroup : mid.pendingGroup = sup.pendingGroup)
    (hsettled : (mid.settleBarrier ev.childId ev.incarnation).2 = true) : sup.HoldsBack ev := by
  unfold settleBarrier at hsettled
  unfold HoldsBack
  rw [← hgroup]
  split at hsettled
  next group hpending =>
    rw [hpending]
    split at hsettled
    next hawaited => exact hawaited
    · cases hsettled
  · cases hsettled

theorem settleBarrier_of_unsettled (hsettled : (sup.settleBarrier id n).2 = false) :
    (sup.settleBarrier id n).1 = sup := by
  unfold settleBarrier at hsettled ⊢
  split at hsettled
  next group hpending =>
    split at hsettled
    · cases hsettled
    next hawaited => rw [if_neg hawaited]
  · rfl

/-- The barrier is released and the stop phase goes on, up to the start of the
chain. -/
theorem Calm.settle {work : List Report} (hcalm : Calm sup ev mid)
    (hgroup : mid.pendingGroup = sup.pendingGroup) :
    let settled := mid.settleBarrier ev.childId ev.incarnation
    let advanced := if settled.2 then settled.1.advanceGroupStop else (settled.1, none)
    Calm sup ev advanced.1 ∧
      ∀ start, advanced.2 = some start →
        LeavesAlone sup ev (advanced.1.startRestartChain start work).1 := by
  intro settled advanced
  have hsettled : Calm sup ev settled.1 := hcalm.work groupWork_settleBarrier
  have hadvanced : Calm sup ev advanced.1 := by
    unfold advanced
    split
    · exact hsettled.work groupWork_advanceGroupStop
    · exact hsettled
  refine ⟨hadvanced, fun start hstart => ?_⟩
  have hheld : sup.HoldsBack ev := by
    refine holdsBack_of_settled hgroup ?_
    by_contra hunsettled
    unfold advanced at hstart
    rw [if_neg hunsettled] at hstart
    cases hstart
  have hchain : GroupWork advanced.1
      (advanced.1.withChain ⟨start.order, start.overrides, ∅, start.scope⟩) := .of_log rfl rfl rfl
  exact (hadvanced.work hchain).advance hheld

theorem calm_takeSnapshot : Calm sup ev (sup.takeSnapshot ev) := by
  refine ⟨rfl, ⟨[], rfl, by simp⟩, fun id => ?_⟩
  unfold KeepsEntry takeSnapshot
  dsimp only
  split
  next hmarked =>
    by_cases heq : id = ev.childId
    · subst heq
      refine .inr ⟨rfl, ?_⟩
      have hheld : (ChildLifecycle.down ev.incarnation .snapshot).heldToken = ev.incarnation := rfl
      rw [life_transition_down hmarked hheld, hmarked]
      simp [ChildLifecycle.unmarked]
    · left
      rw [Registry.life_transition, if_neg heq]
  · exact .inl rfl

theorem leavesAlone_deliverSnapshot {event : ChildEvent} {work : List Report} :
    LeavesAlone sup ev (sup.deliverSnapshot ev event work).1 := by
  have hsettle := @Calm.settle sup (sup.takeSnapshot ev) ev work calm_takeSnapshot rfl
  have hfront : ((if ((sup.takeSnapshot ev).settleBarrier ev.childId ev.incarnation).2 then
      ((sup.takeSnapshot ev).settleBarrier ev.childId ev.incarnation).1.advanceGroupStop
      else (((sup.takeSnapshot ev).settleBarrier ev.childId ev.incarnation).1, none)).1.chainFrontOf
        ev.childId).isSome = true → sup.HoldsBack ev := by
    intro hfront
    cases hsettled : ((sup.takeSnapshot ev).settleBarrier ev.childId ev.incarnation).2 with
    | true => exact @holdsBack_of_settled sup (sup.takeSnapshot ev) ev rfl hsettled
    | false =>
      rw [hsettled, if_neg (by simp), settleBarrier_of_unsettled hsettled] at hfront
      unfold chainFrontOf at hfront
      unfold HoldsBack
      split at hfront
      next chain hpending =>
        rw [show sup.pendingGroup = some (.restarting chain) from hpending]
        split at hfront
        next hhead => exact hhead
        · cases hfront
      · cases hfront
  unfold deliverSnapshot
  dsimp only at hsettle ⊢
  generalize (if ((sup.takeSnapshot ev).settleBarrier ev.childId ev.incarnation).2 then
      ((sup.takeSnapshot ev).settleBarrier ev.childId ev.incarnation).1.advanceGroupStop
      else (((sup.takeSnapshot ev).settleBarrier ev.childId ev.incarnation).1, none)) = advanced
    at hsettle hfront ⊢
  obtain ⟨hadvanced, hchain⟩ := hsettle
  cases hstart : advanced.2 with
  | some start => exact hchain start hstart
  | none =>
    dsimp only
    split
    next hatFront => exact hadvanced.advance (hfront hatFront)
    · exact .untouched hadvanced

/-- A late report is of a child that is gone, or of an incarnation the entry of its
child has moved past. -/
theorem gone_or_stale (hlate : ¬ sup.Open ev.childId ev.incarnation) :
    sup.registry.get ev.childId = none ∨ sup.Stale ev := by
  cases hget : sup.registry.get ev.childId with
  | none => exact .inl rfl
  | some child =>
    right
    have hlife := Registry.life_of_get hget
    exact ⟨_, hlife, by_contra fun hopen => hlate ⟨_, hlife, hopen⟩⟩

theorem leavesAlone_evaluateReport {work : List Report} {drop : Option String}
    (hgone : sup.registry.get ev.childId = none) :
    LeavesAlone sup ev (sup.evaluateReport ev work drop).1 := by
  have hnoted : Calm sup ev (sup.note (.evaluated ev.childId ev.incarnation .remove)) :=
    ⟨rfl, ⟨[_], rfl, by simp [Obs.charge, Obs.begins]⟩, fun _ => .inl rfl⟩
  have hremoved : Calm sup ev
      ((sup.note (.evaluated ev.childId ev.incarnation .remove)).removeSpec ev.childId) := by
    refine ⟨rfl, ⟨[_, _], rfl, by simp [Obs.charge, Obs.begins]⟩, fun id => .inl ?_⟩
    change (sup.registry.remove ev.childId).life id = _
    rw [Registry.life_remove]
    split
    next heq => rw [heq, Registry.life_eq_none_iff.mpr hgone]
    · rfl
  unfold evaluateReport evaluateStrategy
  dsimp only
  rw [hgone]
  refine .untouched ?_
  unfold removeIf deliverUnlessPanicked
  dsimp only
  split <;> split
  · exact hremoved.work (.of_log rfl rfl rfl)
  · exact hnoted.work (.of_log rfl rfl rfl)
  · exact hremoved
  · exact hnoted

section

variable (hlate : ¬ sup.Open ev.childId ev.incarnation)

include hlate

/-- A turn of the worklist on a late report. -/
theorem leavesAlone_handleReport {work : List Report} {drop : Option String} :
    LeavesAlone sup ev (sup.handleReport ev work drop).1 := by
  have hmanual : sup.uncommittedManual ev = none := by
    unfold uncommittedManual
    split
    next n kind hlife =>
      refine if_neg fun heq => hlate ⟨_, hlife, ?_⟩
      subst heq
      simp [reportClass]
    · rfl
  unfold handleReport
  split
  · exact leavesAlone_deliverSnapshot
  · rw [hmanual]
    dsimp only
    rcases gone_or_stale hlate with hgone | ⟨life, hlife, hclass⟩
    · rw [Registry.life_eq_none_iff.mpr hgone, routeReport, hgone]
      exact leavesAlone_evaluateReport hgone
    · rw [hlife]
      simp only [hclass, beq_self_eq_true, if_true]
      exact .untouched .refl

theorem leavesAlone_recordCollectedEnd :
    LeavesAlone sup ev (Sys.recordCollectedEnd sup ev.childId ev.incarnation) := by
  refine .untouched (Calm.work ?_ groupWork_settleBarrier)
  refine @Calm.work sup
    (if (sup.registry.life ev.childId).map ChildLifecycle.heldToken = some ev.incarnation then
      sup.transition ev.childId (.down ev.incarnation .none)
    else sup) _ ev ?_ (.of_log rfl rfl rfl)
  split
  next hheld =>
    obtain ⟨life, hlife, hheld⟩ := Option.map_eq_some_iff.mp hheld
    obtain ⟨hoccupant, howes⟩ := reportClass_eq_stale_iff.mp
      (by_contra fun hopen => hlate ⟨life, hlife, hopen⟩)
    refine ⟨rfl, ⟨[], rfl, by simp⟩, fun id => ?_⟩
    unfold KeepsEntry
    change (sup.registry.transition ev.childId _).life id = _ ∨
      _ ∧ (sup.registry.transition ev.childId _).life id = _
    by_cases heq : id = ev.childId
    · subst heq
      refine .inr ⟨rfl, ?_⟩
      rw [life_transition_down hlife hheld, hlife, Option.map_some, Option.some.injEq]
      cases life with
      | down n pending =>
        cases hheld
        cases pending with
        | none | snapshot => simp [ChildLifecycle.unmarked]
        | evaluate => exact absurd rfl howes
      | running | stopping | restarting => exact absurd (congrArg some hheld) hoccupant
    · left
      rw [Registry.life_transition, if_neg heq]
  · exact .refl

theorem not_accepts_of_late : Sys.accepts sup ev.childId ev.incarnation = false := by
  by_contra haccepts
  obtain ⟨p, hlife⟩ := accepts_spec (Bool.eq_true_of_not_eq_false haccepts)
  exact hlate ⟨_, hlife, by simp [reportClass]⟩

theorem leavesAlone_cancelAttempt :
    LeavesAlone sup ev (Sys.cancelAttempt sup ev.childId ev.incarnation).1 := by
  have hrecord : Sys.recordCancelled sup ev.childId ev.incarnation =
      sup.note (.cancelled ev.childId ev.incarnation) := by
    have hrefused := not_accepts_of_late hlate
    unfold Sys.accepts at hrefused
    unfold Sys.recordCancelled
    split
    next p m hlife =>
      rw [hlife] at hrefused
      have hne : m ≠ ev.incarnation := by simpa using hrefused
      rw [if_neg hne]
    · rfl
  have hnoted : Calm sup ev (sup.note (.cancelled ev.childId ev.incarnation)) :=
    ⟨rfl, ⟨[_], rfl, by simp [Obs.charge, Obs.begins]⟩, fun _ => .inl rfl⟩
  obtain ⟨hadvanced, hchain⟩ := @Calm.settle sup _ ev [] hnoted rfl
  unfold Sys.cancelAttempt
  dsimp only
  rw [hrecord]
  split
  next start hstart => exact hchain start hstart
  · exact .untouched hadvanced

end

/-- Wherever the report is handled, it leaves the books alone. -/
structure RestsLate (sup : SupervisionState) (ev : Report) : Prop where
  handled : ∀ work drop, LeavesAlone sup ev (sup.handleReport ev work drop).1
  collected : LeavesAlone sup ev (Sys.recordCollectedEnd sup ev.childId ev.incarnation)
  cancelled : LeavesAlone sup ev (Sys.cancelAttempt sup ev.childId ev.incarnation).1
  adopted : Sys.adoptRestart sup ev.childId ev.incarnation = (sup, [])

/-- A late report leaves the books alone, whatever they are. -/
theorem restsLate_of_late (hlate : ¬ sup.Open ev.childId ev.incarnation) : RestsLate sup ev where
  handled := fun work drop => leavesAlone_handleReport hlate
  collected := leavesAlone_recordCollectedEnd hlate
  cancelled := leavesAlone_cancelAttempt hlate
  adopted := by
    unfold Sys.adoptRestart
    rw [not_accepts_of_late hlate, if_neg (by simp)]

/-! ## Every run -/

/-- Along every run the token a child's entry holds never goes back, and moves on
exactly when an incarnation is begun for the child; no token is drawn for a child
twice. A late report, of a child that is gone or of an incarnation its entry has
moved past, changes no entry beyond clearing the marker of its own end wherever the
run handles it, charges nothing and starts nothing but the chain step that was held
back for it. -/
theorem tokens_advance_and_stale_reports_rest {strategy : RestartStrategy}
    {maxRestarts restartWindow : Nat} {s : Sys}
    (hreach : Sys.Reaches always strategy maxRestarts restartWindow s) :
    (∀ t, Reaches Sys.step always s t → ∃ since, t.sup.log = since ++ s.sup.log ∧
      ∀ id before after, s.sup.registry.life id = some before →
        t.sup.registry.life id = some after →
        before.heldToken ≤ after.heldToken ∧
          (before.heldToken < after.heldToken ↔
            ∃ obs ∈ since, obs.drawsFor id = some after.heldToken)) ∧
      (∀ id, (drawnFor id s.sup.log).Pairwise (· > ·)) ∧
      ∀ ev, ¬ s.sup.Open ev.childId ev.incarnation → RestsLate s.sup ev := by
  have htokened := tokened_of_reaches hreach.free
  refine ⟨fun t hrun => ?_, htokened.ordered, fun ev hlate => restsLate_of_late hlate⟩
  · have hfree : Reaches Sys.step Rules.free.Allows s t :=
      hrun.mono fun _ _ _ => Rules.free_allows
    obtain ⟨since, hsince⟩ := (hreach.free.onward hfree).grows.1
    refine ⟨since, hsince.symm, fun id before after hbefore hafter => ?_⟩
    have hreached : Sys.Reaches Rules.free.Allows strategy maxRestarts restartWindow t :=
      Reaches.trans hreach.free hfree
    exact held_between htokened (tokened_of_reaches hreached) hsince.symm hbefore hafter

/-- A child is deleted, spawned again and terminated by the callback that runs
between the decision for a group restart and its layout; its end is reported when
it has come to the front of the chain. -/
def frontStopped : List Action :=
  [[spawned 1 "a", .loop (.return none)],
    incarnationEnds 1 crash, endHandled 1, [.loop (.return none), .loop (.work none)],
    [.loop .beginTurn, spawned 2 "b", spawned 3 "c", .loop (.return none)],
    incarnationEnds 3 crash, endHandled 3, [.loop (.work none)],
    incarnationEnds 4 crash, endHandled 4, [.loop (.work none)],
    attemptAdopted 2,
    [.call (.deleteChild 3), spawned 3 "c", .call (.terminateChild 3), .call .abandon,
      .loop (.return none), .loop (.return none), .loop (.work none)],
    incarnationEnds 2 .parentRequest, endHandled 2, [.loop (.return none), .loop (.work none)],
    attemptAdopted 6, attemptAdopted 7,
    incarnationEnds 5 .parentRequest, endHandled 5].flatten

set_option maxRecDepth 20000 in
theorem frontStopped_goes :
    (run Sys.step (Sys.init .oneForAll 9 1000) frontStopped).isSome = true := by
  decide +kernel

/-- The state in which the end of the front is handled. -/
def atStoppedFront : Sys :=
  (run Sys.step (Sys.init .oneForAll 9 1000) frontStopped).get frontStopped_goes

theorem atStoppedFront_reached : Sys.Reaches always .oneForAll 9 1000 atStoppedFront :=
  reaches_get frontStopped_goes

set_option maxRecDepth 20000 in
theorem atStoppedFront_stale : atStoppedFront.sup.Stale ⟨3, .parentRequest, 5⟩ :=
  ⟨.down 5 .snapshot, by decide +kernel, rfl⟩

theorem SupervisionState.Stale.late (hstale : sup.Stale ev) :
    ¬ sup.Open ev.childId ev.incarnation := by
  obtain ⟨life, hlife, hclass⟩ := hstale
  rintro ⟨other, hother, hopen⟩
  rw [hlife] at hother
  cases hother
  exact hopen hclass

set_option maxRecDepth 20000 in
theorem atStoppedFront_handles : (atStoppedFront.step (.loop (.work none))).isSome = true := by
  decide +kernel

set_option maxRecDepth 20000 in
/-- A stale report that no barrier waits for starts the child at the front of the
chain. -/
theorem stale_report_starts_front : ∃ s t ev work,
    Sys.Reaches always .oneForAll 9 1000 s ∧ s.phase = .work (ev :: work) ∧
      s.sup.Stale ev ∧
      s.sup.pendingGroup.map (fun phase => phase.awaiting.lookup ev.childId) = some none ∧
      s.step (.loop (.work none)) = some t ∧
      ∃ life m, Obs.began ev.childId life m .chain ∈ t.sup.log ∧
        Obs.began ev.childId life m .chain ∉ s.sup.log :=
  ⟨atStoppedFront, (atStoppedFront.step (.loop (.work none))).get atStoppedFront_handles,
    ⟨3, .parentRequest, 5⟩, [], atStoppedFront_reached, by decide +kernel, atStoppedFront_stale,
    by decide +kernel, (Option.some_get atStoppedFront_handles).symm, .down 5 .none, 8,
    by decide +kernel, by decide +kernel⟩

/-- The front's late report, as the loop handles it. -/
theorem tokens_advance_and_stale_reports_rest_stoppedFront :
    atStoppedFront.sup.Stale ⟨3, .parentRequest, 5⟩ ∧
      LeavesAlone atStoppedFront.sup ⟨3, .parentRequest, 5⟩
        (atStoppedFront.sup.handleReport ⟨3, .parentRequest, 5⟩ [] none).1 :=
  ⟨atStoppedFront_stale,
    ((tokens_advance_and_stale_reports_rest atStoppedFront_reached).2.2 _
      atStoppedFront_stale.late).handled [] none⟩

end TokioActors
