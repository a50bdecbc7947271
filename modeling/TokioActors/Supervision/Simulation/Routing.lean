/-
# Routed reports as moves

The end of a member goes to the barrier and the chain, and an end that meets no
group waits, is retried or is left to the strategy. A turn that decides the end of
its report does so first; the moves that follow decide nothing.
-/

import TokioActors.Supervision.Plans
import TokioActors.Supervision.Simulation.Manual
import TokioActors.Supervision.Simulation.Worklist

namespace TokioActors

open SupervisionState

variable {rules : Rules} {c : Config} {ev : Report} {work : List Report} {drop : Option String}

/-! ## Deciding an end -/

/-- The supervision state after the end of the report was decided. -/
def SupervisionState.closed (sup : SupervisionState) (ev : Report) (budget : RestartBudget)
    (obs : List Obs) : SupervisionState :=
  { sup.transition ev.childId (.down ev.incarnation .none) with
    budget := budget
    log := obs ++ sup.log }

/-- The event an end is decided with before its final name and action. -/
def Report.untitled (ev : Report) : ChildEvent := ⟨ev.childId, none, ev.reason, .removed⟩

/-- The configuration after the end of the report was decided. -/
def Config.decided (c : Config) (ev : Report) (work : List Report) (event : ChildEvent)
    (budget : RestartBudget) (obs : List Obs) : Config :=
  { c with
    sup := c.sup.closed ev budget obs
    work := work
    out := (event, ev.incarnation) :: c.out }

theorem Turn.out_eq {event : ChildEvent} (hturn : Turn c ev work) :
    (event, ev.incarnation) :: c.out = [(event, ev.incarnation)] := by
  rw [hturn.delivered]

/-- The report makes a group restart that covers the child, which owes the
decision about the end. -/
def SupervisionState.Absorbs (sup : SupervisionState) (ev : Report) (id : ActorId) (n : Token) :
    Prop :=
  sup.ChargeDue ev ∧ (sup.budget.checkAndRecord sup.now).2 = true ∧
    sup.strategy ≠ .oneForOne ∧ sup.strategy ≠ .simpleOneForOne ∧
    id ≠ ev.childId ∧ id ∈ commitIds sup.strategy sup.registry.ids ev.childId ∧
    sup.registry.life id = some (.down n .evaluate)

/-- The turn decides the end of the report and what the decision absorbs. -/
structure Judged (c : Config) (ev : Report) (work : List Report) (d : Config) : Prop where
  decided : ∃ event budget obs, event.childId = ev.childId ∧ Judgement c.sup ev budget obs ∧
    ∀ rules, Moves rules (c.decided ev work event budget obs) d
  absorbs : ∀ id n, c.sup.Absorbs ev id n → ¬ d.sup.Open id n

/-- The strategy restarts no group for the report, or the budget refuses it. -/
theorem Judged.of_alone {d : Config} {budget : RestartBudget} {obs : List Obs}
    (hjudged : Judgement c.sup ev budget obs)
    (halone : c.sup.ChargeDue ev → (c.sup.budget.checkAndRecord c.sup.now).2 = true →
      c.sup.strategy = .oneForOne ∨ c.sup.strategy = .simpleOneForOne)
    (hmoves : ∀ rules, Moves rules (c.decided ev work ev.untitled budget obs) d) :
    Judged c ev work d := by
  refine ⟨⟨ev.untitled, budget, obs, rfl, hjudged, hmoves⟩, ?_⟩
  rintro id n ⟨hdue, hgranted, hone, hsimple, _⟩
  rcases halone hdue hgranted with h | h
  · exact absurd h hone
  · exact absurd h hsimple

/-! ## The end of a member -/

/-- The last part of a turn on a member's end: its spec goes with an end that a
manual stop or its type overrides. -/
theorem moves_memberOut {event : ChildEvent} {override : Bool} {name : Option String}
    (hlooping : c.stage = .looping) (hplan : c.plan = none)
    (hout : c.out = [(event, ev.incarnation)]) (hsubject : event.childId = ev.childId)
    (htold : event.reason = ev.reason) :
    Moves rules c (c.after
      (if override then
        (c.sup.removeIf (c.sup.prunes ev.childId) ev.childId).deliverUnlessPanicked
          (c.sup.prunes ev.childId && decide (ev.childId ∈ c.sup.restartFns)) drop ev name .removed
          (.next c.work) c.work
      else
        (c.sup, .deliver ⟨ev.childId, name, ev.reason, .restartInitiated⟩ ev.incarnation
          (.next c.work)))) := by
  cases override with
  | false => exact moves_deliverNow hplan hout hsubject.symm rfl rfl rfl
  | true =>
    exact (moves_removeIf (Config.unlaid_of_none hplan)).trans (@moves_deliverUnlessPanicked rules
      _ ev c.work event _ drop name .removed hlooping hplan hout hsubject htold rfl)

/-- The end of a member of the pending group: it is recorded, the group goes on,
and the end is delivered. -/
theorem judged_member {child : Child} {override atFront : Bool} (hturn : Turn c ev work)
    (hget : c.sup.registry.get ev.childId = some child)
    (hopen : reportClass child.lifecycle ev.incarnation ≠ .stale)
    (hundue : ¬ c.sup.ChargeDue ev) :
    let recorded := c.sup.transition ev.childId (.down ev.incarnation .none)
    let settled := recorded.settleBarrier ev.childId ev.incarnation
    let advanced := if settled.2 then settled.1.advanceGroupStop else (settled.1, none)
    Judged c ev work (c.after (advanced.1.handleRouted ev work drop (.deliver .restartInitiated)
      ⟨advanced.2, atFront, override⟩)) := by
  intro recorded settled advanced
  have hdown : recorded.registry.life ev.childId = some (.down ev.incarnation .none) :=
    life_transition_down (Registry.life_of_get hget) (heldToken_of_open hopen)
  have hrests : ∀ life, recorded.registry.life ev.childId = some life →
      life.heldToken = ev.incarnation → life.AtRest := by
    intro life hsome _
    rw [hdown] at hsome
    exact ⟨_, _, (Option.some.inj hsome).symm, by simp⟩
  refine .of_alone (.spared hundue) (fun hdue => absurd hdue hundue) fun rules => ?_
  have hgo := @moves_settleAndGoOn rules (c.decided ev work ev.untitled c.sup.budget [])
    ev.childId ev.incarnation (fun _ => atFront) hturn.looping hturn.unplanned hrests
  exact hgo.trans (@moves_memberOut rules
    { c with
      sup := (goOn advanced atFront work).1
      work := (goOn advanced atFront work).2
      out := (ev.untitled, ev.incarnation) :: c.out }
    ev drop ev.untitled override
    ((goOn advanced atFront work).1.nameOf ev.childId) hturn.looping hturn.unplanned
    hturn.out_eq rfl rfl)

end TokioActors
