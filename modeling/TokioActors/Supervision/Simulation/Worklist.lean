/-
# The worklist as moves

One turn of the worklist is a sequence of moves, whatever the report's route.
-/

import TokioActors.Supervision.Simulation.Group

namespace TokioActors

open SupervisionState

namespace Cont

/-- The reports the loop still has to handle. -/
def work : Cont → List Report
  | next work => work
  | exhausted work => work
  | absorbed _ _ _ _ work => work
  | retried _ work => work

def out : Cont → List Delivery
  | next _ => []
  | exhausted _ => []
  | absorbed rest trigger name _ _ =>
    rest ++ [(⟨trigger.childId, name, trigger.reason, .restartInitiated⟩, trigger.incarnation)]
  | retried rest _ => rest

/-- The group restart that is still to be laid out. -/
def plan : Cont → Option Plan
  | absorbed _ trigger _ commit _ => some ⟨trigger.childId, commit, true⟩
  | _ => none

end Cont

def Config.after (c : Config) : SupervisionState × Next → Config
  | (sup, .loop work) => { c with sup := sup, work := work, out := [], plan := none }
  | (sup, .deliver event n cont) =>
    { c with
      sup := sup.note (.delivered event n (sup.restartStands event.childId n))
      work := cont.work
      out := cont.out
      plan := cont.plan }
  | (sup, .halt _ work) =>
    { c with
      sup := { sup with owed := sup.owed ++ work, log := .loopEnded :: sup.log }
      work := []
      out := []
      plan := none
      stage := .ended }

/-- What holds where the loop takes a report from its worklist. -/
structure Turn (c : Config) (ev : Report) (work : List Report) : Prop where
  looping : c.stage = .looping
  unplanned : c.plan = none
  head : c.work = ev :: work
  delivered : c.out = []
  nodup : c.sup.registry.ids.Nodup
  fresh : ∀ id child, c.sup.registry.get id = some child →
    child.lifecycle.heldToken < c.sup.nextIncarnation

variable {rules : Rules} {c : Config} {ev : Report} {work : List Report}

/-! ## The end of a turn -/

theorem moves_deliverNow {event final : ChildEvent} {n : Token} {cont : Cont}
    (hplan : c.plan = none) (hout : c.out = [(event, n)])
    (hsubject : final.childId = event.childId)
    (hwork : cont.work = c.work) (hcontOut : cont.out = []) (hcontPlan : cont.plan = none) :
    Moves rules c (c.after (c.sup, .deliver final n cont)) := by
  have htitle : Move rules c { c with out := [(final, n)] } :=
    .retitle event final n [] (Config.unlaid_of_none hplan) hout hsubject
  have hdeliver : Move rules { c with out := [(final, n)] } _ :=
    .deliver final n [] rfl
  refine .tail (.single htitle) ?_
  have hafter : c.after (c.sup, .deliver final n cont) =
      { c with
        sup := c.sup.note (.delivered final n (c.sup.restartStands final.childId n))
        out := [] } := by
    simp only [Config.after, hwork, hcontOut, hcontPlan, ← hplan]
  rw [hafter]
  exact hdeliver

theorem moves_halt {reason : StopReason} (hlooping : c.stage = .looping) (hout : c.out = []) :
    Moves rules c (c.after (c.sup, .halt reason c.work)) := by
  have hend : Move rules c _ := .endLoop hlooping
  have hafter : c.after (c.sup, .halt reason c.work) =
      { c with
        sup := { c.sup with owed := c.sup.owed ++ c.work, log := .loopEnded :: c.sup.log }
        work := []
        plan := none
        stage := .ended } := by
    simp only [Config.after, hout]
  rw [hafter]
  exact .single hend

theorem moves_oweDeliveries {deliveries rest : List Delivery}
    (hout : c.out = deliveries ++ rest) :
    Moves rules c { c with sup := c.sup.oweDeliveries deliveries, out := rest } := by
  unfold oweDeliveries
  induction deliveries generalizing c with
  | nil =>
    rw [List.nil_append] at hout
    subst hout
    exact .refl
  | cons delivery deliveries ih =>
    obtain ⟨event, n⟩ := delivery
    have howe : Move rules c _ := .owe event n (deliveries ++ rest)
      (c.sup.owed ++ [⟨event.childId, event.reason, n⟩])
      (c.sup.owe ⟨event.childId, event.reason, n⟩ event.childName).owedNames hout
      (List.perm_append_singleton _ _)
    rw [List.foldl_cons]
    exact .head howe (@ih { c with
      sup := c.sup.owe ⟨event.childId, event.reason, n⟩ event.childName
      out := deliveries ++ rest } rfl)

/-- The end of a turn after a spec was removed. -/
theorem moves_deliverUnlessPanicked {event : ChildEvent} {removed : Bool} {drop : Option String}
    {name : Option String} {action : SupervisionAction} (hlooping : c.stage = .looping)
    (hplan : c.plan = none) (hout : c.out = [(event, ev.incarnation)])
    (hsubject : event.childId = ev.childId) (htold : event.reason = ev.reason)
    (hwork : c.work = work) :
    Moves rules c (c.after (c.sup.deliverUnlessPanicked removed drop ev name action (.next work)
      work)) := by
  subst hwork
  have hdeliver : Moves rules c (c.after (c.sup, .deliver ⟨ev.childId, name, ev.reason, action⟩
      ev.incarnation (.next c.work))) :=
    moves_deliverNow hplan hout hsubject.symm rfl rfl rfl
  unfold deliverUnlessPanicked
  split
  next message =>
    have howe : Move rules c _ := .owe event ev.incarnation [] (c.sup.owed ++ [ev])
      (c.sup.owe ev name).owedNames hout (by
        rw [hsubject, htold]
        exact List.perm_append_singleton _ _)
    exact .head howe (@moves_halt rules { c with sup := c.sup.owe ev name, out := [] }
      (.failure (.panic message)) hlooping rfl)
  · exact hdeliver

/-! ## A delivery from a snapshot -/

theorem atRest_of_stale {life : ChildLifecycle} {n : Token} (hstale : reportClass life n = .stale)
    (hheld : life.heldToken = n) : life.AtRest := by
  rw [reportClass_eq_stale_iff] at hstale
  cases life with
  | running | stopping | restarting => exact absurd (congrArg some hheld) hstale.1
  | down m pending =>
    refine ⟨m, pending, rfl, ?_⟩
    rintro rfl
    have hm : m = n := hheld
    exact hstale.2 (by rw [hm])

theorem stale_of_not_open {sup : SupervisionState} {id : ActorId} {n : Token}
    {life : ChildLifecycle} (hclosed : ¬ sup.Open id n) (hlife : sup.registry.life id = some life) :
    reportClass life n = .stale := by
  by_contra hopen
  exact hclosed ⟨life, hlife, hopen⟩

theorem not_open_of_snapshotOf {sup : SupervisionState} {event : ChildEvent}
    (hsnapshot : sup.snapshotOf ev = some event) :
    ¬ sup.Open ev.childId ev.incarnation ∧
      sup.pendingManualEvents.lookup (ev.childId, ev.incarnation) = some event := by
  unfold snapshotOf at hsnapshot
  cases hlife : sup.registry.life ev.childId with
  | none =>
    rw [hlife] at hsnapshot
    refine ⟨?_, hsnapshot⟩
    rintro ⟨life, hsome, _⟩
    rw [hlife] at hsome
    cases hsome
  | some =>
    rw [hlife] at hsnapshot
    dsimp only at hsnapshot
    split at hsnapshot
    next hstale =>
      refine ⟨?_, hsnapshot⟩
      rintro ⟨other, hsome, hopen⟩
      rw [hlife] at hsome
      cases hsome
      exact hopen hstale
    · cases hsnapshot

/-- The barrier, the stop queue and the chain after the end of `n` was recorded. -/
theorem moves_settleAndGoOn {id : ActorId} {n : Token} {atFront : SupervisionState → Bool}
    (hlooping : c.stage = .looping) (hplan : c.plan = none)
    (hrests : ∀ life, c.sup.registry.life id = some life → life.heldToken = n → life.AtRest) :
    let settled := c.sup.settleBarrier id n
    let advanced := if settled.2 then settled.1.advanceGroupStop else (settled.1, none)
    Moves rules c (c.afterChain (goOn advanced (atFront advanced.1) c.work)) := by
  intro settled advanced
  have hsettle : Moves rules c (c.withSup settled.1) := moves_settleBarrier hrests
  have hadvance : Moves rules (c.withSup settled.1) (c.withSup (handedOver advanced)) := by
    change Moves rules _ (c.withSup (handedOver
      (if settled.2 then settled.1.advanceGroupStop else (settled.1, none))))
    split
    · exact moves_advanceGroupStop
    · exact .refl
  exact (hsettle.trans hadvance).trans (@moves_goOn rules (c.withSup (handedOver advanced)) advanced
    (atFront advanced.1) c.work hlooping hplan rfl rfl)

theorem moves_deliverSnapshot {event : ChildEvent} (hturn : Turn c ev work)
    (hsnapshot : c.sup.snapshotOf ev = some event) :
    Moves rules c (c.after (c.sup.deliverSnapshot ev event work)) := by
  obtain ⟨hclosed, hfound⟩ := not_open_of_snapshotOf hsnapshot
  have hmove : Move rules c _ := .snapshot ev work event
    (Config.unlaid_of_none hturn.unplanned) hturn.head hfound
  have hrests : ∀ life, (c.sup.takeSnapshot ev).registry.life ev.childId = some life →
      life.heldToken = ev.incarnation → life.AtRest := by
    intro life hlife hheld
    unfold takeSnapshot at hlife
    dsimp only at hlife
    split at hlife
    next hdown =>
      have hnone : (c.sup.registry.transition ev.childId (.down ev.incarnation .none)).life
          ev.childId = some (.down ev.incarnation .none) := life_transition_down hdown rfl
      rw [hnone] at hlife
      cases hlife
      exact ⟨_, _, rfl, by simp⟩
    · exact atRest_of_stale (stale_of_not_open hclosed hlife) hheld
  have hgo := @moves_settleAndGoOn rules
    { c with
      sup := c.sup.takeSnapshot ev, work := work, out := (event, ev.incarnation) :: c.out }
    ev.childId ev.incarnation (fun sup => (sup.chainFrontOf ev.childId).isSome) hturn.looping
    hturn.unplanned hrests
  refine .head hmove (hgo.trans ?_)
  refine moves_deliverNow hturn.unplanned ?_ rfl rfl rfl rfl
  exact congrArg ((event, ev.incarnation) :: ·) hturn.delivered

end TokioActors
