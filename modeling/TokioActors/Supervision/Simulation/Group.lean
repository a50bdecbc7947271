/-
# The group restart as moves

Each function of the model is a sequence of moves of the books. This module goes
through the group restart: the stop queue, the chain, the layout of a plan and
the absorption of owed ends.
-/

import TokioActors.Supervision.Moves
import TokioActors.Supervision.Plans

namespace TokioActors

open SupervisionState Registry

variable {rules : Rules} {c : Config}

namespace Moves

theorem single {d : Config} (hmove : Move rules c d) : Moves rules c d :=
  Relation.ReflTransGen.single hmove

theorem command (n : Token) (f : Slot → Slot) :
    Moves rules c (c.withSup (c.sup.updateSlot n f)) :=
  single (.plane (.command n f))

end Moves

variable {sup : SupervisionState} {id : ActorId} {queue : List ActorId} {work : List Report}
  {n : Token} {chain : RestartChain} {group : GroupRestart} {commit : List Committed}

theorem Config.unlaid_of_none (hplan : c.plan = none) : c.Unlaid := by
  intro plan hsome
  rw [hplan] at hsome
  cases hsome

/-! ## The stop queue -/

theorem applyQueueStep_withStopping {before after : GroupRestart} {step : QueueStep} :
    ((sup.withStopping before).applyQueueStep id step).withStopping after =
      (sup.applyQueueStep id step).withStopping after := by
  unfold applyQueueStep
  rw [show (sup.withStopping before).registry = sup.registry from rfl]
  cases sup.registry.get id with
  | none => rfl
  | some child =>
    cases step with
    | orderAttempt ask | join ask => cases ask <;> rfl
    | _ => rfl

theorem applyQueueStep_wait : sup.applyQueueStep id .wait = sup := by
  unfold applyQueueStep
  split <;> rfl

theorem stopQueueLoop_withStopping {before : GroupRestart} :
    (sup.withStopping before).stopQueueLoop group queue = sup.stopQueueLoop group queue := by
  induction queue generalizing group with
  | nil => rfl
  | cons head rest ih =>
    have hhead : (sup.withStopping before).queueHead group head = sup.queueHead group head := rfl
    unfold stopQueueLoop
    rw [hhead]
    cases stopQueueNext (sup.queueHead group head) with
    | pop => exact ih
    | wait => rfl
    | await | order | orderAttempt | orderUnpublished | join => exact applyQueueStep_withStopping

theorem moves_stopQueueLoop
    (hpending : c.sup.pendingGroup = some (.stopping { group with stopQueue := queue })) :
    Moves rules c (c.withSup (c.sup.stopQueueLoop group queue)) := by
  induction queue generalizing c group with
  | nil =>
    have hsame : c.withSup (c.sup.stopQueueLoop group []) = c := by
      unfold stopQueueLoop withStopping
      rw [← hpending]
    rw [hsame]
  | cons head rest ih =>
    have hact (reached : Bool) :
        Moves rules c (c.withSup ((c.sup.applyQueueStep head
          (stopQueueNext (c.sup.queueHead group head))).withStopping
            { group with stopQueue := head :: rest, headReached := reached })) :=
      .single (.group (.stopAct { group with stopQueue := head :: rest } head rest reached
        hpending rfl))
    unfold stopQueueLoop
    cases hnext : stopQueueNext (c.sup.queueHead group head) with
    | pop =>
      have hpop : Move rules c (c.withSup (c.sup.withStopping
          { group with stopQueue := rest, headReached := false })) :=
        .group (.stopPop { group with stopQueue := head :: rest } head rest hpending rfl)
      have hrest : Moves rules (c.withSup (c.sup.withStopping
          { group with stopQueue := rest, headReached := false }))
          (c.withSup ((c.sup.withStopping
            { group with stopQueue := rest, headReached := false }).stopQueueLoop
              { group with headReached := false } rest)) := ih rfl
      rw [stopQueueLoop_withStopping] at hrest
      exact .head hpop hrest
    | wait =>
      have hwait := hact group.headReached
      rw [hnext, applyQueueStep_wait] at hwait
      exact hwait
    | await | order | orderAttempt | orderUnpublished | join => simpa only [hnext] using hact _

theorem moves_settleBarrier
    (hrests : ∀ life, c.sup.registry.life id = some life → life.heldToken = n → life.AtRest) :
    Moves rules c (c.withSup (c.sup.settleBarrier id n).1) := by
  unfold settleBarrier
  split
  next group hpending =>
    split
    next hawaited => exact .single (.group (.settle group id n hpending hawaited hrests))
    · exact .refl
  · exact .refl

/-- The state a chain is started from, when the stop phase is over. -/
def handedOver (advanced : SupervisionState × Option ChainStart) : SupervisionState :=
  match advanced.2 with
  | some start => advanced.1.withChain ⟨start.order, start.overrides, ∅, start.scope⟩
  | none => advanced.1

theorem moves_advanceStopQueue : Moves rules c (c.withSup c.sup.advanceStopQueue) := by
  unfold advanceStopQueue
  split
  next group hpending => exact moves_stopQueueLoop hpending
  · exact .refl

/-- The stop phase goes on, or hands its order over to the chain. -/
theorem advanceGroupStop_cases {sup : SupervisionState} :
    sup.advanceGroupStop = (sup.advanceStopQueue, none) ∨
      ∃ group, sup.advanceStopQueue.pendingGroup = some (.stopping group) ∧ group.awaiting = ∅ ∧
        sup.advanceGroupStop = ({ sup.advanceStopQueue with pendingGroup := none },
          some ⟨group.restartOrder.filter fun id => (group.manualOverrides.lookup id).isNone,
            group.manualOverrides, group.scope⟩) := by
  unfold advanceGroupStop
  dsimp only
  split
  next group hpending =>
    split
    next hover => exact .inr ⟨group, hpending, hover.2, rfl⟩
    · exact .inl rfl
  · exact .inl rfl

theorem moves_advanceGroupStop :
    Moves rules c (c.withSup (handedOver c.sup.advanceGroupStop)) := by
  have hqueue : Moves rules c (c.withSup c.sup.advanceStopQueue) := moves_advanceStopQueue
  rcases @advanceGroupStop_cases c.sup with hwaits | ⟨group, hpending, hbarrier, hover⟩
  · rw [hwaits]
    exact hqueue
  · rw [hover]
    exact hqueue.tail (.group (.finish group hpending hbarrier))

/-! ## The restart chain -/

theorem chainLoop_withChain {before : RestartChain} :
    (sup.withChain before).chainLoop work chain queue = sup.chainLoop work chain queue := by
  induction queue generalizing chain with
  | nil => rfl
  | cons id rest ih =>
    unfold chainLoop
    rw [show (sup.withChain before).registry = sup.registry from rfl]
    cases sup.registry.get id with
    | none => exact ih
    | some child =>
      dsimp only
      cases chainFront child.lifecycle (chain.started.lookup id) with
      | fresh => exact ih
      | initiate | stopThenInitiate => rfl
      | hold =>
        dsimp only
        split <;> rfl

/-- The configuration after the chain went down its queue. -/
def Config.afterChain (c : Config) (r : SupervisionState × List Report) : Config :=
  { c with sup := r.1, work := r.2 }

/-- What is at the front of a chain that is to start it. -/
def FrontDown (sup : SupervisionState) (id : ActorId) : Prop :=
  ∃ chain rest n owed, sup.pendingGroup = some (.restarting chain) ∧ chain.queue = id :: rest ∧
    sup.registry.life id = some (.down n owed)

theorem frontDown_chainLoop {front : ActorId}
    (hinitiate : (sup.chainLoop work chain queue).2 = .initiate front) :
    FrontDown (sup.chainLoop work chain queue).1.1 front := by
  induction queue generalizing chain with
  | nil => cases hinitiate
  | cons id rest ih =>
    unfold chainLoop at hinitiate ⊢
    cases hget : sup.registry.get id with
    | none =>
      rw [hget] at hinitiate
      exact ih hinitiate
    | some child =>
      rw [hget] at hinitiate
      dsimp only at hinitiate ⊢
      cases hentry : child.lifecycle with
      | down n owed =>
        rw [hentry] at hinitiate
        cases hinitiate
        exact ⟨{ chain with queue := front :: rest }, rest, n, owed, rfl, rfl,
          (life_of_get hget).trans (congrArg some hentry)⟩
      | running k =>
        rw [hentry] at hinitiate
        by_cases hown : chain.started.lookup id = some k
        · simp only [chainFront, if_pos hown] at hinitiate ⊢
          exact ih hinitiate
        · simp only [chainFront, if_neg hown] at hinitiate
          cases hinitiate
      | stopping | restarting =>
        rw [hentry] at hinitiate
        simp only [chainFront] at hinitiate
        split at hinitiate <;> cases hinitiate

theorem moves_chainLoop (hlooping : c.stage = .looping) (hplan : c.plan = none)
    (hpending : c.sup.pendingGroup = some (.restarting { chain with queue := queue })) :
    Moves rules c (c.afterChain (c.sup.chainLoop c.work chain queue).1) := by
  induction queue generalizing c chain with
  | nil => exact .single (.complete { chain with queue := [] } hlooping hplan hpending rfl)
  | cons id rest ih =>
    have hhere : c.sup.withChain { chain with queue := id :: rest } = c.sup := by
      unfold withChain
      rw [← hpending]
    unfold chainLoop
    cases hget : c.sup.registry.get id with
    | none =>
      have hgone : Move rules c (c.withSup (c.sup.withChain { chain with queue := rest })) :=
        .group (.chainGone { chain with queue := id :: rest } id rest hpending rfl)
      have hrest := @ih (c.withSup (c.sup.withChain { chain with queue := rest })) chain
        hlooping hplan rfl
      rw [chainLoop_withChain] at hrest
      exact .head hgone hrest
    | some child =>
      have hlife := life_of_get hget
      -- The chain waits for an end at its front.
      have hhold :
          Moves rules c (c.afterChain
            (if chain.started.lookup id ≠ some child.lifecycle.heldToken then
              ((((c.sup.withChain { chain with queue := id :: rest }).note
                (.foreignFront id), c.work), ChainStep.hold) :
                  (SupervisionState × List Report) × ChainStep)
            else ((c.sup.withChain { chain with queue := id :: rest }, c.work), .hold)).1) := by
        rw [hhere]
        split
        · exact .single (.group (.foreign { chain with queue := id :: rest } id hpending))
        · exact .refl
      dsimp only
      cases hentry : child.lifecycle with
      | down =>
        simp only [chainFront, hhere]
        exact .refl
      | running k =>
        by_cases hown : chain.started.lookup id = some k
        · have hfresh : Move rules c (c.withSup (c.sup.withChain
              { chain with
                queue := rest
                scope := { chain.scope with
                  restarted := insert id chain.scope.restarted } })) :=
            .group (.chainFresh { chain with queue := id :: rest } id rest k hpending rfl
              (hlife.trans (congrArg some hentry)))
          have hrest := @ih (c.withSup (c.sup.withChain
              { chain with
                queue := rest
                scope := { chain.scope with
                  restarted := insert id chain.scope.restarted } }))
            { chain with
              scope := { chain.scope with restarted := insert id chain.scope.restarted } }
            hlooping hplan rfl
          rw [chainLoop_withChain] at hrest
          simp only [chainFront, if_pos hown]
          exact .head hfresh hrest
        · simp only [chainFront, if_neg hown]
          have horder : Move rules c (c.withSup (c.sup.updateSlot child.ctl
              fun slot => slot.orderStop child.shutdown true c.sup.now)) :=
            .plane (.command _ _)
          have hnote : Move rules (c.withSup (c.sup.updateSlot child.ctl
              fun slot => slot.orderStop child.shutdown true c.sup.now)) _ :=
            .group (.foreign { chain with queue := id :: rest } id hpending)
          have hsame : ((c.sup.updateSlot child.ctl fun slot =>
              slot.orderStop child.shutdown true c.sup.now).note (.foreignFront id)).withChain
                { chain with queue := id :: rest } =
              (c.sup.updateSlot child.ctl fun slot =>
                slot.orderStop child.shutdown true c.sup.now).note (.foreignFront id) := by
            unfold withChain note updateSlot
            rw [← hpending]
          rw [hsame]
          exact .tail (.single horder) hnote
      | stopping | restarting =>
        rw [hentry] at hhold
        exact hhold

theorem frontDown_advanceRestartChain {sup : SupervisionState} {work : List Report}
    {front : ActorId} (hinitiate : (sup.advanceRestartChain work).2 = .initiate front) :
    FrontDown (sup.advanceRestartChain work).1.1 front := by
  unfold advanceRestartChain at hinitiate ⊢
  split at hinitiate
  · exact frontDown_chainLoop hinitiate
  · cases hinitiate

theorem moves_advanceRestartChain (hlooping : c.stage = .looping) (hplan : c.plan = none) :
    Moves rules c (c.afterChain (c.sup.advanceRestartChain c.work).1) := by
  unfold advanceRestartChain
  split
  next chain hpending => exact moves_chainLoop hlooping hplan hpending
  · exact .refl

/-- Advancing the chain and starting the member it names. -/
theorem moves_advanceAndInitiate (hlooping : c.stage = .looping) (hplan : c.plan = none) :
    Moves rules c (c.afterChain (c.sup.advanceAndInitiate c.work)) := by
  have hadvance := @moves_advanceRestartChain rules c hlooping hplan
  have hfront := @frontDown_advanceRestartChain c.sup c.work
  unfold advanceAndInitiate
  generalize c.sup.advanceRestartChain c.work = advanced at hadvance hfront ⊢
  obtain ⟨left, step⟩ := advanced
  cases step with
  | initiate front =>
    obtain ⟨chain, rest, n, owed, hchain, hqueue, hdown⟩ := hfront rfl
    exact hadvance.tail (.chainBegin chain front rest n owed hlooping hplan hchain hqueue hdown)
  | hold | done => exact hadvance

/-- How the group goes on after an end: the chain of a stop phase that is over,
or the chain the end was at the front of. -/
def goOn (advanced : SupervisionState × Option ChainStart) (atFront : Bool)
    (work : List Report) : SupervisionState × List Report :=
  match advanced.2 with
  | some start => advanced.1.startRestartChain start work
  | none => if atFront then advanced.1.advanceAndInitiate work else (advanced.1, work)

theorem moves_goOn {advanced : SupervisionState × Option ChainStart} {atFront : Bool}
    {work : List Report} (hlooping : c.stage = .looping) (hplan : c.plan = none)
    (hsup : c.sup = handedOver advanced) (hwork : c.work = work) :
    Moves rules c (c.afterChain (goOn advanced atFront work)) := by
  obtain ⟨sup, start⟩ := advanced
  subst hwork
  cases start with
  | some =>
    have hchain := @moves_advanceAndInitiate rules c hlooping hplan
    rw [hsup] at hchain
    exact hchain
  | none =>
    have hsame : sup = c.sup := hsup.symm
    subst hsame
    cases atFront with
    | true => exact moves_advanceAndInitiate hlooping hplan
    | false => exact .refl

/-! ## Laying a plan out -/

/-- The slots after the attempts a plan commits were cancelled. -/
def cancelledSlots (registry : Registry) (commit : List Committed) (slots : Token → Slot) :
    Token → Slot :=
  commit.foldl
    (fun slots member =>
      if member.action.cancel then
        match registry.get member.id with
        | some child => Function.update slots child.ctl (slots child.ctl).cancelUnspawned
        | none => slots
      else slots)
    slots

theorem cancelAttempts_eq :
    sup.cancelAttempts commit =
      { sup with slots := cancelledSlots sup.registry commit sup.slots } := by
  unfold cancelAttempts cancelledSlots
  induction commit generalizing sup with
  | nil => rfl
  | cons member commit ih =>
    rw [List.foldl_cons, List.foldl_cons, ih]
    split
    · cases sup.registry.get member.id <;> rfl
    · rfl

theorem moves_cancelAttempts : Moves rules c (c.withSup (c.sup.cancelAttempts commit)) := by
  unfold cancelAttempts
  induction commit generalizing c with
  | nil => exact .refl
  | cons member commit ih =>
    rw [List.foldl_cons]
    split
    · cases hget : c.sup.registry.get member.id with
      | none => exact ih
      | some child =>
        have hcancel : Moves rules c (c.withSup (c.sup.updateSlot child.ctl
            Slot.cancelUnspawned)) := .command _ _
        exact hcancel.trans ih
    · exact ih

theorem moves_layOut {sup : SupervisionState} {commit : List Committed} {overrides : TokenMap}
    {scope : GroupScope} (hlooping : c.stage = .looping) (hplan : c.plan = none)
    (hsup : c.sup = { sup with pendingGroup := some (layOut commit overrides scope) }) :
    Moves rules c (c.afterChain
      (if awaitingOf commit = ∅ then
        sup.startRestartChain ⟨restartIds commit, overrides, scope⟩ c.work
      else
        ((sup.withStopping ⟨awaitingOf commit, stopQueueOf commit, false, restartIds commit,
          overrides, scope⟩).advanceStopQueue, c.work))) := by
  split
  next hempty =>
    have hchain := @moves_advanceAndInitiate rules c hlooping hplan
    rw [hsup, layOut, if_pos hempty] at hchain
    exact hchain
  next hheld =>
    have hqueue := @moves_advanceStopQueue rules c
    rw [hsup, layOut, if_neg hheld] at hqueue
    exact hqueue

theorem moves_install {plan : Plan} (hlooping : c.stage = .looping) (hplan : c.plan = some plan)
    (hlaid : plan.laid = true) :
    Moves rules c { c with
      sup := (c.sup.installGroup plan.commit (restartIds plan.commit) ∅
        ⟨∅, c.sup.firstPlanOutside plan.failed⟩ c.work).1
      work := (c.sup.installGroup plan.commit (restartIds plan.commit) ∅
        ⟨∅, c.sup.firstPlanOutside plan.failed⟩ c.work).2
      plan := none } := by
  have hcancel : Moves rules c (c.withSup (c.sup.cancelAttempts plan.commit)) :=
    moves_cancelAttempts
  have hinstall : Move rules (c.withSup (c.sup.cancelAttempts plan.commit)) _ :=
    .install plan hplan hlaid
  have houtside : (c.sup.cancelAttempts plan.commit).firstPlanOutside plan.failed =
      c.sup.firstPlanOutside plan.failed := by
    rw [cancelAttempts_eq]
    rfl
  rw [houtside] at hinstall
  refine (hcancel.tail hinstall).trans ?_
  exact @moves_layOut rules { c with
    sup := { c.sup.cancelAttempts plan.commit with
      pendingGroup := some (layOut plan.commit ∅ ⟨∅, c.sup.firstPlanOutside plan.failed⟩) }
    plan := none } (c.sup.cancelAttempts plan.commit) plan.commit ∅
    ⟨∅, c.sup.firstPlanOutside plan.failed⟩ hlooping rfl rfl

/-! ## Absorbing owed ends -/

/-- The states an absorption leaves for one member. -/
inductive AbsorbCase (acc : Absorbing) (member : Committed) : Absorbing → Prop
  | same (settled : ∀ n, acc.sup.registry.life member.id ≠ some (.down n .evaluate)) :
      AbsorbCase acc member acc
  | rewritten (n : Token) (event : ChildEvent)
      (settled : ∀ n, acc.sup.registry.life member.id ≠ some (.down n .evaluate))
      (found : acc.sup.pendingManualEvents.lookup (member.id, n) = some event) :
      AbsorbCase acc member { acc with
        sup := acc.sup.keepSnapshot member.id n { event with action := .restartInitiated } }
  | delivered (child : Child) (n : Token) (queued work : List Report)
      (reason : StopReason) (entry : acc.sup.registry.get member.id = some child)
      (owes : child.lifecycle = .down n .evaluate)
      (taken : acc.sup.takeReport acc.work member.id n =
        some ({ acc.sup with queuedTriggers := queued }, work, reason)) :
      AbsorbCase acc member
        { sup := { acc.sup.transition member.id (.down n .none) with
            queuedTriggers := queued }.removeIf (acc.sup.pruned member.id) member.id
          work := work
          deliveries := acc.deliveries ++
            [(⟨member.id, child.name, reason, absorbedAction (acc.sup.pruned member.id)⟩, n)]
          removed := acc.removed ||
            (acc.sup.pruned member.id && decide (member.id ∈ acc.sup.restartFns)) }
  | recorded (child : Child) (n : Token) (entry : acc.sup.registry.get member.id = some child)
      (owes : child.lifecycle = .down n .evaluate) :
      AbsorbCase acc member { acc with
        sup := ((acc.sup.transition member.id (.down n .snapshot)).removeIf
          (acc.sup.pruned member.id) member.id).keepSnapshot member.id n
            ⟨member.id, child.name, (acc.sup.slots n).endReason,
              absorbedAction (acc.sup.pruned member.id)⟩
        removed := acc.removed ||
          (acc.sup.pruned member.id && decide (member.id ∈ acc.sup.restartFns)) }

/-- What a report that is found nowhere in the loop's hands is told by. -/
theorem reportPlace_eq_deathPlane_iff : sup.reportPlace work id n = .deathPlane ↔
      sup.queuedTriggers.find? (isReportOf id n) = none ∧ work.find? (isReportOf id n) = none := by
  unfold reportPlace
  cases sup.queuedTriggers.find? (isReportOf id n) <;>
    cases work.find? (isReportOf id n) <;> simp

theorem takeReport_eq_none_iff
    : sup.takeReport work id n = none ↔ sup.reportPlace work id n = .deathPlane := by
  rw [reportPlace_eq_deathPlane_iff]
  unfold takeReport
  cases sup.queuedTriggers.find? (isReportOf id n) <;>
    cases work.find? (isReportOf id n) <;> simp

/-- A report taken out of the loop's hands changes nothing but its place. -/
theorem left_of_takeReport {left : SupervisionState} {rest : List Report} {reason : StopReason}
    (htake : sup.takeReport work id n = some (left, rest, reason)) :
    ∃ queued, left = { sup with queuedTriggers := queued } := by
  unfold takeReport at htake
  split at htake
  · cases htake
    exact ⟨_, rfl⟩
  · split at htake <;> cases htake
    exact ⟨_, rfl⟩

theorem absorbMember_cases (acc : Absorbing) (member : Committed) :
    AbsorbCase acc member (absorbMember acc member) := by
  unfold absorbMember
  cases hget : acc.sup.registry.get member.id with
  | none =>
    refine .same ?_
    intro n hlife
    rw [life_eq_none_iff.mpr hget] at hlife
    cases hlife
  | some child =>
    have hlife := life_of_get hget
    dsimp only
    cases hentry : child.lifecycle with
    | running | stopping | restarting => exact .same (by intro m hm; simp [hlife, hentry] at hm)
    | down n pending =>
      by_cases howes : pending = .evaluate
      · subst howes
        cases htake : acc.sup.takeReport acc.work member.id n with
        | none =>
          have hplace := takeReport_eq_none_iff.mp htake
          have hctl : child.ctl = n := by rw [Child.ctl, hentry]; rfl
          simp only [absorbable, hplace, hctl]
          exact .recorded child n hget hentry
        | some taken =>
          obtain ⟨left, work, reason⟩ := taken
          have hplace : acc.sup.reportPlace acc.work member.id n ≠ .deathPlane := by
            intro hplace
            rw [takeReport_eq_none_iff.mpr hplace] at htake
            cases htake
          have hdeliver : absorbable (acc.sup.reportPlace acc.work member.id n) true
              (some (.down n .evaluate)) = .deliver := by
            cases hcase : acc.sup.reportPlace acc.work member.id n with
            | queued | worklist => rfl
            | deathPlane => exact absurd hcase hplace
          obtain ⟨queued, rfl⟩ := left_of_takeReport htake
          simp only [hdeliver, htake]
          exact .delivered child n _ work reason hget hentry htake
      · have hsettled : ∀ m, acc.sup.registry.life member.id ≠ some (.down m .evaluate) := by
          intro m hm
          simp [hlife, hentry, howes] at hm
        have hkeep : absorbable (acc.sup.reportPlace acc.work member.id n) true
            (some (.down n pending)) = .keep := by
          cases pending <;> simp_all [absorbable]
        simp only [hkeep]
        split
        · unfold rewriteSnapshot
          cases hfound : acc.sup.pendingManualEvents.lookup (member.id, n) with
          | none => exact .same hsettled
          | some event =>
            by_cases haction : event.action = .removed
            · simp only [if_pos haction]
              exact .rewritten n event hsettled hfound
            · simp only [if_neg haction]
              exact .same hsettled
        · exact .same hsettled

/-- An absorption leaves the child its spec: it is not temporary, or it owes no
decision. -/
def Child.Stays (child : Child) : Prop :=
  child.restartType ≠ .temporary ∨ ∀ n, child.lifecycle ≠ .down n .evaluate

/-- What an absorption leaves of the registry and the group. -/
structure Absorbed (before after : SupervisionState) : Prop where
  entry : ∀ id child, after.registry.get id = some child →
    ∃ old, before.registry.get id = some old ∧
    child.restartType = old.restartType ∧
    child.lifecycle.heldToken = old.lifecycle.heldToken ∧
    (child.lifecycle = old.lifecycle ∨ child.lifecycle.AtRest)
  ids : ∃ keep : ActorId → Bool, after.registry.ids = before.registry.ids.filter keep ∧
    ∀ id child, before.registry.get id = some child → child.Stays → keep id = true
  strategy : after.strategy = before.strategy
  plan : currentPlan after.log = currentPlan before.log
  idle : before.pendingGroup = none → after.pendingGroup = none
  chain : ∀ chain, before.pendingGroup = some (.restarting chain) → ∃ left,
    after.pendingGroup = some (.restarting left) ∧
      ∀ id child, before.registry.get id = some child → child.Stays →
        (chain.queue.head? = some id → left.queue.head? = some id) ∧
          left.overrides.lookup id = chain.overrides.lookup id

namespace Absorbed

variable {before middle after : SupervisionState}
variable {id : ActorId}

/-- The entries keep their ids, and the group is as it was. -/
theorem of_ids (hids : after.registry.ids = before.registry.ids)
    (hgroup : after.pendingGroup = before.pendingGroup)
    (hstrategy : after.strategy = before.strategy)
    (hlog : currentPlan after.log = currentPlan before.log)
    (hentry : ∀ id child, after.registry.get id = some child → ∃ old,
      before.registry.get id = some old ∧ child.restartType = old.restartType ∧
      child.lifecycle.heldToken = old.lifecycle.heldToken ∧
      (child.lifecycle = old.lifecycle ∨ child.lifecycle.AtRest)) : Absorbed before after where
  entry := hentry
  ids := ⟨fun _ => true, by rw [hids, List.filter_true], fun _ _ _ _ => rfl⟩
  strategy := hstrategy
  plan := hlog
  idle := hgroup.trans
  chain := fun chain hchain => ⟨chain, hgroup.trans hchain, fun _ _ _ _ => ⟨id, rfl⟩⟩

theorem of_same (hregistry : after.registry = before.registry)
    (hgroup : after.pendingGroup = before.pendingGroup)
    (hstrategy : after.strategy = before.strategy)
    (hlog : currentPlan after.log = currentPlan before.log) : Absorbed before after := by
  refine .of_ids (by rw [hregistry]) hgroup hstrategy hlog fun id child hget => ?_
  rw [hregistry] at hget
  exact ⟨child, hget, rfl, rfl, .inl rfl⟩

theorem exists_stays (habsorbed : Absorbed before after) {child : Child}
    (hget : before.registry.get id = some child) (hstays : child.Stays) :
    ∃ left, after.registry.get id = some left ∧ left.restartType = child.restartType ∧
      left.Stays := by
  obtain ⟨keep, hids, hkeep⟩ := habsorbed.ids
  have hmem : id ∈ after.registry.ids := by
    rw [hids]
    exact List.mem_filter.mpr ⟨mem_ids_of_get hget, hkeep id child hget hstays⟩
  obtain ⟨left, hleft⟩ := Option.ne_none_iff_exists'.mp fun hnone => get_eq_none_iff.mp hnone hmem
  obtain ⟨old, hold, htype, _, hlife⟩ := habsorbed.entry id left hleft
  rw [hget] at hold
  cases hold
  refine ⟨left, hleft, htype, ?_⟩
  rcases hlife with hsame | ⟨n, pending, hdown, hrests⟩
  · unfold Child.Stays
    rw [htype, hsame]
    exact hstays
  · refine .inr ?_
    intro m hm
    rw [hdown] at hm
    cases hm
    exact hrests rfl

theorem trans (hfirst : Absorbed before middle) (hsecond : Absorbed middle after) :
    Absorbed before after where
  entry := by
    intro id child hget
    obtain ⟨mid, hmid, htype, htoken, hlife⟩ := hsecond.entry id child hget
    obtain ⟨old, hold, hold_type, hold_token, hold_life⟩ := hfirst.entry id mid hmid
    refine ⟨old, hold, htype.trans hold_type, htoken.trans hold_token, ?_⟩
    rcases hlife with hsame | hrests
    · rw [hsame]
      exact hold_life
    · exact .inr hrests
  ids := by
    obtain ⟨keep, hkeep, hstay⟩ := hfirst.ids
    obtain ⟨keep', hkeep', hstay'⟩ := hsecond.ids
    refine ⟨fun id => keep' id && keep id, ?_, ?_⟩
    · rw [hkeep', hkeep, List.filter_filter]
    · intro id child hget hstays
      obtain ⟨mid, hmid, _, hmidStays⟩ := hfirst.exists_stays hget hstays
      simp only [hstay id child hget hstays, hstay' id mid hmid hmidStays, Bool.and_self]
  strategy := hsecond.strategy.trans hfirst.strategy
  plan := hsecond.plan.trans hfirst.plan
  idle := fun hidle => hsecond.idle (hfirst.idle hidle)
  chain := by
    intro chain hchain
    obtain ⟨mid, hmid, hfront⟩ := hfirst.chain chain hchain
    obtain ⟨left, hleft, hfront'⟩ := hsecond.chain mid hmid
    refine ⟨left, hleft, ?_⟩
    intro id child hget hstays
    obtain ⟨there, hthere, _, hthereStays⟩ := hfirst.exists_stays hget hstays
    obtain ⟨hhead, hover⟩ := hfront id child hget hstays
    obtain ⟨hhead', hover'⟩ := hfront' id there hthere hthereStays
    exact ⟨fun h => hhead' (hhead h), hover'.trans hover⟩

theorem of_transition {pending : DownPending}
    (hlife : before.registry.life id = some (.down n .evaluate)) (hrests : pending ≠ .evaluate)
    (hregistry : after.registry = before.registry.transition id (.down n pending))
    (hgroup : after.pendingGroup = before.pendingGroup)
    (hstrategy : after.strategy = before.strategy)
    (hlog : currentPlan after.log = currentPlan before.log) : Absorbed before after := by
  refine .of_ids (by rw [hregistry, ids_transition]) hgroup hstrategy hlog
    fun other child hget => ?_
  rw [hregistry, get_transition] at hget
  split at hget
  next heq =>
    subst heq
    obtain ⟨old, hold, rfl⟩ := Option.map_eq_some_iff.mp hget
    obtain ⟨same, hsame, hdown⟩ := exists_get_of_life hlife
    rw [hold] at hsame
    cases hsame
    have hmoved : moved (.down n pending) old.lifecycle = .down n pending := by
      rw [moved, hdown, if_pos (by simp [isLegal])]
    refine ⟨old, hold, rfl, ?_, .inr ⟨n, pending, hmoved, hrests⟩⟩
    rw [hmoved, hdown]
    rfl
  · exact ⟨child, hget, rfl, rfl, .inl rfl⟩

theorem head_filter_ne {front : ActorId} (hne : front ≠ id) (hhead : queue.head? = some front) :
    (queue.filter fun other => other != id).head? = some front := by
  cases queue with
  | nil => cases hhead
  | cons =>
    cases hhead
    rw [List.filter_cons_of_pos (by simpa using hne)]
    rfl

theorem of_removed (hleaves : ∀ child, before.registry.get id = some child → ¬ child.Stays)
    (hregistry : after.registry = before.registry.remove id)
    (hgroup : after.pendingGroup = before.pendingGroup.map (GroupPhase.removeSpec id))
    (hstrategy : after.strategy = before.strategy)
    (hlog : currentPlan after.log = currentPlan before.log) : Absorbed before after := by
  have hne (other : ActorId) (child : Child) (hget : before.registry.get other = some child)
      (hstays : child.Stays) : other ≠ id := by
    rintro rfl
    exact hleaves child hget hstays
  refine ⟨?_, ?_, hstrategy, hlog, ?_, ?_⟩
  · intro other child hget
    rw [hregistry, get_remove] at hget
    split at hget
    · cases hget
    · exact ⟨child, hget, rfl, rfl, .inl rfl⟩
  · refine ⟨fun other => other != id, ?_, ?_⟩
    · rw [hregistry, ids_remove]
    · intro other child hget hstays
      simpa using hne other child hget hstays
  · intro hidle
    rw [hgroup, hidle]
    rfl
  · intro chain hchain
    refine ⟨_, by rw [hgroup, hchain]; rfl, ?_⟩
    intro other child hget hstays
    have hother := hne other child hget hstays
    exact ⟨head_filter_ne hother, Finmap.lookup_erase_ne hother⟩

end Absorbed

theorem temporary_of_pruned {child : Child} (hget : sup.registry.get id = some child) :
    sup.pruned id = true ↔ child.restartType = .temporary := by
  unfold pruned groupMemberEnd
  rw [hget]
  dsimp only
  split <;> simp_all

/-- The configuration in the middle of an absorption. -/
def Config.absorbing (c : Config) (own : List Delivery) (acc : Absorbing) : Config :=
  { c with sup := acc.sup, work := acc.work, out := own ++ acc.deliveries }

/-- A removal after a delivery or a record of an absorbed end. -/
theorem moves_removeIf {id : ActorId} {prune : Bool} (hunlaid : c.Unlaid) :
    Moves rules c (c.withSup (c.sup.removeIf prune id)) := by
  unfold removeIf
  split
  · exact .single (.prune id fun _ => hunlaid)
  · exact .refl

namespace AbsorbCase

variable {acc result : Absorbing} {member : Committed}

theorem leaves {child : Child} (hget : acc.sup.registry.get member.id = some child)
    (hdown : child.lifecycle = .down n .evaluate) (hprune : acc.sup.pruned member.id = true) :
    ∀ other, acc.sup.registry.get member.id = some other → ¬ other.Stays := by
  intro other hother
  rw [hget] at hother
  cases hother
  rintro (htype | howes)
  · exact htype ((temporary_of_pruned hget).mp hprune)
  · exact howes n hdown

theorem absorbed (hcase : AbsorbCase acc member result) : Absorbed acc.sup result.sup := by
  cases hcase with
  | same | rewritten => exact .of_same rfl rfl rfl rfl
  | delivered child n _ _ _ hget hdown | recorded child n hget hdown =>
    have hlife := (life_of_get hget).trans (congrArg some hdown)
    dsimp only
    cases hprune : acc.sup.pruned member.id with
    | false => exact .of_transition hlife (by simp) rfl rfl rfl rfl
    | true => exact .of_removed (leaves hget hdown hprune) remove_transition rfl rfl rfl

theorem settled (hcase : AbsorbCase acc member result) (m : Token) :
    result.sup.registry.life member.id ≠ some (.down m .evaluate) := by
  have hmoved (prune : Bool) {registry : Registry} {n : Token} {pending : DownPending}
      (hlife : registry.life member.id = some (.down n .evaluate)) (hrests : pending ≠ .evaluate)
      (hresult : result.sup.registry =
        if prune then (registry.transition member.id (.down n pending)).remove member.id
        else registry.transition member.id (.down n pending)) :
      result.sup.registry.life member.id ≠ some (.down m .evaluate) := by
    rw [hresult]
    split
    · rw [life_remove, if_pos rfl]
      simp
    · have hdown : (registry.transition member.id (.down n pending)).life member.id =
          some (.down n pending) := life_transition_down hlife rfl
      rw [hdown]
      intro hsame
      cases hsame
      exact hrests rfl
  cases hcase with
  | same hsettled | rewritten _ _ hsettled => exact hsettled m
  | delivered child n _ _ _ hget hdown | recorded child n hget hdown =>
    apply hmoved (acc.sup.pruned member.id)
      ((life_of_get hget).trans (congrArg some hdown))
    rotate_left
    · dsimp only
      unfold removeIf
      split <;> rfl
    · simp

end AbsorbCase

theorem nextIncarnation_absorbRecords :
    (sup.absorbRecords work commit).sup.nextIncarnation = sup.nextIncarnation := by
  have hremoveIf (before : SupervisionState) (prune : Bool) (id : ActorId) :
      (before.removeIf prune id).nextIncarnation = before.nextIncarnation := by
    unfold removeIf
    split <;> rfl
  have hmember (acc : Absorbing) (member : Committed) :
      (absorbMember acc member).sup.nextIncarnation = acc.sup.nextIncarnation := by
    have hcase := absorbMember_cases acc member
    generalize absorbMember acc member = result at hcase ⊢
    cases hcase with
    | same | rewritten => rfl
    | delivered | recorded => exact hremoveIf _ _ _
  unfold absorbRecords
  suffices ∀ (acc : Absorbing), (commit.foldl absorbMember acc).sup.nextIncarnation =
      acc.sup.nextIncarnation from this _
  induction commit with
  | nil => intro acc; rfl
  | cons member rest ih =>
    intro acc
    rw [List.foldl_cons, ih, hmember]

/-- What an absorption makes of the books it starts from. -/
structure AbsorbSpec (sup : SupervisionState) (commit : List Committed) (result : Absorbing) :
    Prop where
  absorbed : Absorbed sup result.sup
  settled : ∀ member ∈ commit, ∀ n,
    result.sup.registry.life member.id ≠ some (.down n .evaluate)

theorem absorbSpec_absorbRecords : AbsorbSpec sup commit (sup.absorbRecords work commit) := by
  -- The fold keeps what it absorbed: an entry at rest stays at rest.
  have hfold : ∀ (done rest : List Committed) (acc : Absorbing), Absorbed sup acc.sup →
      (∀ member ∈ done, ∀ n, acc.sup.registry.life member.id ≠ some (.down n .evaluate)) →
      AbsorbSpec sup (done ++ rest) (rest.foldl absorbMember acc) := by
    intro done rest
    induction rest generalizing done with
    | nil =>
      intro acc habsorbed hsettled
      rw [List.append_nil]
      exact ⟨habsorbed, hsettled⟩
    | cons member rest ih =>
      intro acc habsorbed hsettled
      have hcase := absorbMember_cases acc member
      rw [List.foldl_cons, List.append_cons done member rest]
      refine ih (done ++ [member]) (absorbMember acc member) (habsorbed.trans hcase.absorbed) ?_
      intro other hother n hlife
      rcases List.mem_append.mp hother with hdone | hlast
      · obtain ⟨child, hget, hdown⟩ := exists_get_of_life hlife
        obtain ⟨old, hold, _, _, hsame | ⟨m, pending, hrest, howes⟩⟩ :=
          hcase.absorbed.entry _ _ hget
        · exact hsettled other hdone n ((life_of_get hold).trans
            (congrArg some (hsame.symm.trans hdown)))
        · rw [hdown] at hrest
          cases hrest
          exact howes rfl
      · rw [List.mem_singleton] at hlast
        subst hlast
        exact hcase.settled n hlife
  exact hfold [] commit { sup := sup, work := work } (.of_same rfl rfl rfl rfl) (by simp)

theorem moves_absorbMember {own : List Delivery} {acc : Absorbing} {member : Committed}
    (hlooping : c.stage = .looping) (hunlaid : c.Unlaid) :
    Moves rules (c.absorbing own acc) (c.absorbing own (absorbMember acc member)) := by
  have hcase := absorbMember_cases acc member
  generalize absorbMember acc member = result at hcase ⊢
  cases hcase with
  | same => exact .refl
  | rewritten n event hsettled hfound =>
    exact .single (.rewrite member.id n event .restartInitiated hfound)
  | delivered child n queued work reason hget hdown htake =>
    have hlife := (life_of_get hget).trans (congrArg some hdown)
    have habsorb : Move rules (c.absorbing own acc) _ :=
      .absorb member.id n queued work
        ⟨member.id, child.name, reason, absorbedAction (acc.sup.pruned member.id)⟩
        hlooping hunlaid hlife htake rfl
    have hprune : Moves rules _ _ := @moves_removeIf rules
      { c with
        sup := { acc.sup.transition member.id (.down n .none) with queuedTriggers := queued }
        work := work
        out := own ++ acc.deliveries ++
          [(⟨member.id, child.name, reason, absorbedAction (acc.sup.pruned member.id)⟩, n)] }
      member.id (acc.sup.pruned member.id) hunlaid
    unfold Config.absorbing
    rw [← List.append_assoc]
    exact .head habsorb hprune
  | recorded child n hget hdown =>
    have habsorb : Move rules (c.absorbing own acc) _ :=
      .absorbSnapshot member.id n child (absorbedAction (acc.sup.pruned member.id)) hunlaid
        hget hdown
    cases hprune : acc.sup.pruned member.id with
    | false =>
      rw [hprune] at habsorb
      exact .single habsorb
    | true =>
      rw [hprune] at habsorb
      exact .head habsorb (.single (.prune member.id fun _ => hunlaid))

/-- Absorbing what the committed members still owe. -/
theorem moves_absorbRecords {own : List Delivery} {commit : List Committed}
    (hlooping : c.stage = .looping) (hunlaid : c.Unlaid) (hout : c.out = own) :
    Moves rules c (c.absorbing own (c.sup.absorbRecords c.work commit)) := by
  have hfold (acc : Absorbing) :
      Moves rules (c.absorbing own acc) (c.absorbing own (commit.foldl absorbMember acc)) := by
    induction commit generalizing acc with
    | nil => exact .refl
    | cons member commit ih =>
      exact (moves_absorbMember hlooping hunlaid).trans (ih (absorbMember acc member))
  have hhere : c.absorbing own { sup := c.sup, work := c.work } = c := by
    unfold Config.absorbing
    rw [List.append_nil, ← hout]
  have hall := hfold { sup := c.sup, work := c.work }
  rw [hhere] at hall
  exact hall

end TokioActors
