/-
# From the machine to the books

The configuration a state of the machine stands for, the conditions a run may be
put under, and what a manual call that waits has found in the books.
-/

import TokioActors.Supervision.Simulation.Turn
import TokioActors.Supervision.Soundness

namespace TokioActors

open SupervisionState

/-! ## The configuration of a state -/

/-- A collected report as the delivery it becomes. -/
def Collected.delivery (collected : Collected) : Delivery :=
  (⟨collected.report.childId, collected.name, collected.report.reason, .supervisorStopping⟩,
    collected.report.incarnation)

namespace Phase

def stage : Phase → Stage
  | .starting => .starting
  | .select => .looping
  | .turn => .looping
  | .work _ => .looping
  | .deliver _ _ _ => .looping
  | .collect c =>
    match c.stage with
    | .runners => .ended
    | .attempts => .ended
    | .restartPlane => .gathered
    | .deathPlane => .drained
  | .final _ => .delivering
  | .finalDeliver _ => .delivering
  | .hook => .delivering
  | .teardown _ _ => .down
  | .stopped _ => .down

/-- The reports the loop has to handle. -/
def reports : Phase → List Report
  | .work reports => reports
  | .deliver _ _ cont => cont.work
  | _ => []

def out : Phase → List Delivery
  | .deliver _ _ cont => cont.out
  | .collect c => c.out.map Collected.delivery
  | .final rest => rest.map Collected.delivery
  | .finalDeliver rest => rest.map Collected.delivery
  | _ => []

/-- The group restart that is decided and not laid out yet. -/
def plan : Phase → Option Plan
  | .deliver _ _ cont => cont.plan
  | _ => none

/-- Whether a `Kill` counts: once the run is over, whether it ended by one. -/
def killed (stored : Bool) : Phase → Bool
  | .stopped byKill => byKill
  | _ => stored

end Phase

def Sys.config (s : Sys) : Config where
  sup := s.sup
  work := s.phase.reports
  out := s.phase.out
  plan := s.phase.plan
  stage := s.phase.stage
  killed := s.phase.killed s.killed

/-! ## Conditions on runs -/

/-- The child a manual call other than a spawn is about. -/
def CallAction.subject : CallAction → Option ActorId
  | .stopChild id => some id
  | .terminateChild id => some id
  | .restartChild id => some id
  | .deleteChild id => some id
  | _ => none

namespace Sys

/-- The report the step handles, if it is a turn of the worklist on one. -/
def turnOf (s : Sys) (action : Action) : Option Report :=
  match action, s.phase with
  | .loop (.work _), .work (ev :: _) => some ev
  | _, _ => none

/-- No manual call changes the books while a group restart that was decided waits
for its layout: between the deliveries of what its members owed, a callback makes
none but spawns. -/
def Undisturbed (s : Sys) : Action → Prop
  | .call action => s.phase.plan.isSome = true → action.subject = none
  | _ => True

/-- A call restarts no child whose incarnation the pending group keeps down. -/
def Heeded (s : Sys) : Action → Prop
  | .call (.restartChild id) => s.sup.Unkept id
  | _ => True

/-- The step may let go of a report: the supervisor is killed, its teardown is next and
triggers are still queued, or the step handles a report the ledger moved past. -/
def LetsGo (s : Sys) (action : Action) : Prop :=
  s.killed = true ∨
    (s.config.stage = .starting ∨ s.config.stage = .delivering) ∧ s.sup.queuedTriggers ≠ [] ∨
    ∃ ev, s.turnOf action = some ev ∧ s.sup.MovedPast ev

end Sys

structure Rules.Allows (rules : Rules) (s : Sys) (action : Action) : Prop where
  quiet : rules.quiet → s.Undisturbed action
  heeded : rules.heeded → s.Heeded action
  still : rules.still → s.turnOf action = none
  kept : rules.kept → ¬ s.LetsGo action

theorem Rules.free_allows {s : Sys} {action : Action} : Rules.free.Allows s action :=
  ⟨False.elim, False.elim, False.elim, False.elim⟩

/-! ## What fits between a call and the books -/

/-- What a call that waits has found and still finds. -/
def Call.Fits (sup : SupervisionState) : Call → Prop
  | .joining id n _ kind => Joins sup id n kind
  | _ => True

def Call.spawns : Call → Bool
  | .spawning _ _ _ _ _ => true
  | _ => false

/-- A call waits in a callback, on what it found. -/
structure Sys.Fit (rules : Rules) (s : Sys) : Prop where
  waits : s.call ≠ none → s.phase.callback = true ∨ ∃ byKill, s.phase = .stopped byKill
  fits : ∀ call, s.call = some call → call.Fits s.sup
  quiet : rules.quiet → ∀ call, s.call = some call → s.phase.plan = none ∨ call.spawns = true

/-- Between the two states the machine makes moves, and the second one fits. -/
abbrev Simulates (rules : Rules) (s t : Sys) : Prop :=
  Moves rules s.config t.config ∧ t.Fit rules

variable {rules : Rules} {s t : Sys}

theorem Sys.Fit.idle (hcall : s.call = none) : s.Fit rules where
  waits := fun hsome => absurd hcall hsome
  fits := fun call hsome => by rw [hcall] at hsome; cases hsome
  quiet := fun _ call hsome => by rw [hcall] at hsome; cases hsome

theorem Sys.Fit.idle_of_phase (hfit : s.Fit rules) (hcallback : s.phase.callback = false)
    (hruns : s.phase.stage ≠ .down) : s.call = none := by
  by_contra hcall
  rcases hfit.waits hcall with hphase | ⟨byKill, hphase⟩
  · rw [hcallback] at hphase
    cases hphase
  · rw [hphase] at hruns
    exact hruns rfl

theorem Call.Fits.of_plane {sup next : SupervisionState} {call : Call} (hfits : call.Fits sup)
    (hframe : PlaneFrame sup next) : call.Fits next := by
  obtain ⟨⟨slots, deathSet, restartSet, now, counter, obs, rfl, _⟩, _, _, _⟩ := hframe
  cases call with
  | joining | subtree | spawning => exact hfits

/-! ## Events beside the loop -/

theorem simulate_env {action : EnvAction} (hfit : s.Fit rules)
    (hstep : s.step (.env action) = some t) : Simulates rules s t := by
  obtain ⟨next, henv, rfl⟩ := Option.map_eq_some_iff.mp hstep
  have hmove : PlaneMove s.sup next := .env action henv
  refine ⟨.single (.plane hmove), hfit.waits, ?_, hfit.quiet⟩
  intro call hcall
  exact (hfit.fits call hcall).of_plane hmove.frame

theorem simulate_kill (hfit : s.Fit rules) (hstep : s.step .kill = some t) :
    Simulates rules s t := by
  cases hstep
  refine ⟨?_, hfit.waits, hfit.fits, hfit.quiet⟩
  obtain ⟨sup, phase, call, killed⟩ := s
  cases phase with
  | stopped => exact .refl
  | _ => exact .single .kill

end TokioActors
