/-
# The end of the run as moves

The final collection, the final deliveries and the teardown are sequences of
moves, and with them every step of the machine is.
-/

import TokioActors.Supervision.Simulation.Calls
import TokioActors.Supervision.Simulation.Loop

namespace TokioActors

open SupervisionState Sys

variable {rules : Rules} {s t : Sys} {n : Token} {order : List ActorId} {waits : List StopWait}
  {sup : SupervisionState} {killed : Bool}

/-! ## The final collection -/

theorem moves_collectReports {c : Config} {out : List Collected} {reports : List Report}
    (hover : c.stage ≠ .starting ∧ c.stage ≠ .looping) (hwork : c.work = reports)
    (hout : c.out = out.map Collected.delivery) :
    Moves rules c { c with
      sup := (collectReports c.sup out reports).1
      work := []
      out := (collectReports c.sup out reports).2.map Collected.delivery } := by
  unfold collectReports
  induction reports generalizing c out with
  | nil => rw [List.foldl_nil, ← hwork, ← hout]
  | cons report reports ih =>
    have hcollect : Move rules c _ :=
      .collect report reports (collectedName c.sup report) hover hwork
    rw [List.foldl_cons]
    refine .head hcollect ?_
    exact @ih { c with
      sup := recordCollectedEnd c.sup report.childId report.incarnation
      work := reports
      out := c.out ++ [Collected.delivery ⟨report, collectedName c.sup report⟩] }
      (out ++ [⟨report, collectedName c.sup report⟩]) hover rfl (by
        rw [List.map_append, ← hout]
        rfl)

theorem collect_over {c : Collect} :
    Phase.stage (.collect c) ≠ .starting ∧ Phase.stage (.collect c) ≠ .looping := by
  unfold Phase.stage
  cases hstage : c.stage <;> simp [hstage]

theorem simulate_takeFinal {c after : Collect} {report : Report} {b : Config}
    (hstage : after.stage = c.stage) (hout : after.out = c.out)
    (htaken : Move rules b { b with
      sup := s.sup.note (.taken report.childId report.incarnation)
      work := [report] })
    (hbooks : b.out = c.out.map Collected.delivery ∧ b.plan = none ∧
      b.stage = Phase.stage (.collect c) ∧ b.killed = s.killed) :
    Moves rules b (s.takeFinal after report).config := by
  obtain ⟨hdecided, hplan, hbefore, hkilled⟩ := hbooks
  have hcollect : Move rules { b with
      sup := s.sup.note (.taken report.childId report.incarnation)
      work := [report] } _ :=
    .collect report [] (collectedName (s.sup.note (.taken report.childId report.incarnation))
      report) (by dsimp only; rw [hbefore]; exact collect_over) rfl
  refine .tail (.single htaken) ?_
  have hend : (s.takeFinal after report).config = { b with
      sup := recordCollectedEnd (s.sup.note (.taken report.childId report.incarnation))
        report.childId report.incarnation
      work := []
      out := b.out ++ [(⟨report.childId, collectedName
        (s.sup.note (.taken report.childId report.incarnation)) report, report.reason,
        .supervisorStopping⟩, report.incarnation)] } := by
    simp only [config, takeFinal, collectReport, Phase.reports, Phase.out, Phase.plan,
      Phase.killed, hout, hdecided, hplan, hbefore, hkilled, List.map_append, List.map_cons,
      List.map_nil, Collected.delivery]
    simp only [Phase.stage, hstage]
  rw [hend]
  exact hcollect

theorem simulate_collectDeath {c : Collect}
    (hstep : collectDeath ⟨sup, .collect c, none, killed⟩ c n = some t) :
    Simulates rules ⟨sup, .collect c, none, killed⟩ t := by
  unfold collectDeath at hstep
  split at hstep
  · cases hstep
  next task hfound =>
    obtain rfl := deathTask_spec hfound
    split at hstep <;> cases hstep
    next reason _ =>
      exact ⟨@simulate_takeFinal rules _ c _ _ (config ⟨sup, .collect c, none, killed⟩) rfl rfl
        (.takeDeath task reason hfound) ⟨rfl, rfl, rfl, rfl⟩, .idle rfl⟩
    next panic _ =>
      have hreplace : Move rules (config ⟨sup, .collect c, none, killed⟩) _ :=
        .plane (.replace task panic hfound)
      refine ⟨?_, .idle rfl⟩
      split <;> exact .single hreplace

theorem simulate_collectOutcome {c after : Collect} {task : RestartTask} {outcome : RestartOutcome}
    (hstage : after.stage = c.stage) (hout : after.out = c.out)
    (hfound : sup.restartTask task.incarnation = some task) :
    Simulates rules ⟨sup, .collect c, none, killed⟩
      (collectRestartOutcome ⟨sup.dropAttempt task, .collect c, none, killed⟩ after task.childId
        task.incarnation outcome) := by
  -- The collection's own notes of whom it awaits leave the books as they are.
  have hnotes {left : SupervisionState} {noted : Collect} (hnotedStage : noted.stage = c.stage)
      (hnotedOut : noted.out = c.out) : config ⟨left, .collect noted, none, killed⟩ =
        (config ⟨sup, .collect c, none, killed⟩).withSup left := by
    simp only [config, Phase.reports, Phase.out, Phase.plan, Phase.stage, Phase.killed,
      hnotedStage, hnotedOut]
  cases outcome with
  | adopted =>
    unfold collectRestartOutcome
    dsimp only
    split
    next haccepts =>
      refine ⟨?_, .idle rfl⟩
      split
      · rw [@hnotes _ { after with adopted := after.adopted ++ [task.incarnation] } hstage hout]
        exact .single (.adopt task (Config.unlaid_of_none rfl) hfound haccepts)
      · rw [hnotes hstage hout]
        exact .single (.adopt task (Config.unlaid_of_none rfl) hfound haccepts)
    · refine ⟨?_, .idle rfl⟩
      rw [hnotes hstage hout]
      exact .single (.adoptStale task hfound)
  | failed reason | stopped reason =>
    exact ⟨@simulate_takeFinal rules _ c _ _ (config ⟨sup, .collect c, none, killed⟩) hstage
      hout (.takeRestart task reason hfound) ⟨rfl, rfl, rfl, rfl⟩, .idle rfl⟩
  | cancelled | predecessorUnresponsive =>
    refine ⟨?_, .idle rfl⟩
    unfold collectRestartOutcome
    dsimp only
    rw [hnotes hstage hout]
    exact .single (.cancel task (Config.unlaid_of_none rfl) hfound)

theorem simulate_collectRestart {c : Collect}
    (hstep : collectRestart ⟨sup, .collect c, none, killed⟩ c n = some t) :
    Simulates rules ⟨sup, .collect c, none, killed⟩ t := by
  unfold collectRestart at hstep
  split at hstep
  · cases hstep
  next task hfound =>
    obtain rfl := restartTask_spec hfound
    dsimp only at hstep
    split at hstep
    · cases hstep
    · cases hstep
      exact @simulate_collectOutcome rules _ _ c { c with
        attempts := c.attempts.erase task.incarnation } task _ rfl rfl hfound
    next panic _ =>
      rcases @lostRestartTask_cases task sup panic with hlost | hlost <;>
        rw [hlost] at hstep <;> cases hstep
      · have hfollow : Move rules (config ⟨sup, .collect c, none, killed⟩) _ :=
          .plane (.follow task panic hfound)
        refine ⟨?_, .idle rfl⟩
        split <;> exact .single hfollow
      · exact ⟨@simulate_takeFinal rules _ c _ _ (config ⟨sup, .collect c, none, killed⟩) rfl rfl
          (.takeLost task panic hfound) ⟨rfl, rfl, rfl, rfl⟩, .idle rfl⟩

theorem simulate_collectNext {c : Collect}
    (hstep : collectNext ⟨sup, .collect c, none, killed⟩ c = some t) :
    Simulates rules ⟨sup, .collect c, none, killed⟩ t := by
  obtain ⟨stage, runners, attempts, adopted, out⟩ := c
  cases stage <;> simp only [collectNext, Option.ite_none_right_eq_some] at hstep <;>
    obtain ⟨_, hstep⟩ := hstep <;> cases hstep
  case runners => exact ⟨.refl, .idle rfl⟩
  case attempts =>
    have hgather : Move rules (config ⟨sup, .collect ⟨.attempts, runners, attempts, adopted, out⟩,
      none, killed⟩) _ := .gather rfl
    refine ⟨.head hgather ?_, .idle rfl⟩
    exact @moves_collectReports rules ⟨{ sup with owed := [], queuedTriggers := [] },
      sup.owed ++ sup.queuedTriggers ++ [], out.map Collected.delivery, none, .gathered, killed⟩
      out (sup.owed ++ sup.queuedTriggers) (by simp) (List.append_nil _) rfl
  case restartPlane => exact ⟨.single (.drainRestarts rfl), .idle rfl⟩
  case deathPlane => exact ⟨.single (.drainDeaths rfl), .idle rfl⟩

/-! ## The final deliveries and the teardown -/

theorem simulate_deliverFinal {rest : List Collected} {action : Action}
    (hallows : rules.Allows ⟨sup, .final rest, none, killed⟩ action) :
    Simulates rules ⟨sup, .final rest, none, killed⟩
      (deliverFinal ⟨sup, .final rest, none, killed⟩ rest) := by
  cases rest with
  | nil =>
    cases killed with
    | true => exact ⟨.single (.abort rfl fun h => hallows.kept h (.inl rfl)), .idle rfl⟩
    | false => exact ⟨.refl, .idle rfl⟩
  | cons collected rest =>
    obtain ⟨report, name⟩ := collected
    cases killed with
    | true => exact ⟨.single (.abort rfl fun h => hallows.kept h (.inl rfl)), .idle rfl⟩
    | false =>
      refine ⟨.head (.refuse true) (.single ?_), .idle rfl⟩
      exact .deliver ⟨report.childId, name, report.reason, .supervisorStopping⟩
        report.incarnation (rest.map Collected.delivery) rfl

theorem moves_beginChildStop {c : Config} {id : ActorId} :
    Moves rules c (c.withSup (beginChildStop c.sup id).1) := by
  have hasked (child : Child) (d : Config) (ask : Bool) : Moves rules d
      (d.withSup (if ask then d.sup.updateSlot child.ctl Slot.askAgain else d.sup)) := by
    split
    · exact .single (.plane (.command child.ctl Slot.askAgain))
    · exact .refl
  unfold beginChildStop
  split
  · exact .refl
  next child hget =>
    dsimp only
    split
    next n hlife =>
      split
      · exact hasked child c _
      · exact .single (.plane (.command child.ctl
          fun slot => slot.orderStop child.shutdown true c.sup.now))
    · exact hasked child c _
    next p next hlife =>
      exact .head (.plane (.command child.ctl
        fun slot => slot.orderStop child.shutdown false c.sup.now))
        (hasked child _ _)
    · exact .refl

theorem moves_beginPoolStop {c : Config} :
    Moves rules c (c.withSup (beginPoolStop c.sup order).1) := by
  have hfold : ∀ (order : List ActorId) (c : Config) (waits : List StopWait), Moves rules c
      (c.withSup (order.foldl (fun acc id =>
        ((beginChildStop acc.1 id).1, acc.2 ++ (beginChildStop acc.1 id).2.toList))
        (c.sup, waits)).1) := by
    intro order
    induction order with
    | nil => intro c waits; exact .refl
    | cons id rest ih =>
      intro c waits
      rw [List.foldl_cons]
      exact moves_beginChildStop.trans (ih (c.withSup (beginChildStop c.sup id).1) _)
  exact hfold order c []

theorem simulate_teardownNext
    (hstep : teardownNext ⟨sup, .teardown order waits, none, killed⟩ order waits = some t) :
    Simulates rules ⟨sup, .teardown order waits, none, killed⟩ t := by
  unfold teardownNext at hstep
  split at hstep
  · cases order with
    | nil =>
      cases hstep
      exact ⟨.refl, .idle rfl⟩
    | cons =>
      dsimp only at hstep
      split at hstep
      · cases hstep
        exact ⟨moves_beginPoolStop, .idle rfl⟩
      · cases hstep
        exact ⟨moves_beginChildStop, .idle rfl⟩
  · cases hstep

theorem moves_teardownOutcome {c : Config} {task : RestartTask} {outcome : RestartOutcome}
    (htorn : c.stage = .down) (hplan : c.plan = none)
    (hfound : c.sup.restartTask task.incarnation = some task) :
    Moves rules c (c.withSup
      (teardownOutcome (c.sup.dropAttempt task) task.childId task.incarnation outcome)) := by
  cases outcome with
  | adopted =>
    unfold teardownOutcome
    dsimp only
    split
    next haccepts => exact .single (.adopt task (Config.unlaid_of_none hplan) hfound haccepts)
    · exact .single (.adoptStale task hfound)
  | failed | stopped => exact .single (.discard task htorn hfound)
  | cancelled | predecessorUnresponsive =>
    exact .single (.cancel task (Config.unlaid_of_none hplan) hfound)

theorem simulate_teardownRestart
    (hstep : teardownRestart ⟨sup, .teardown order waits, none, killed⟩ order waits n = some t) :
    Simulates rules ⟨sup, .teardown order waits, none, killed⟩ t := by
  unfold teardownRestart at hstep
  split at hstep
  · cases hstep
  next task hfound =>
    obtain rfl := restartTask_spec hfound
    dsimp only at hstep
    split at hstep
    · cases hstep
    · cases hstep
      exact ⟨@moves_teardownOutcome rules (config ⟨sup, .teardown order waits, none, killed⟩) task _
        rfl rfl hfound, .idle rfl⟩
    next panic _ =>
      rcases @lostRestartTask_cases task sup panic with hlost | hlost <;>
        rw [hlost] at hstep <;> cases hstep
      · exact ⟨.single (.plane (.follow task panic hfound)), .idle rfl⟩
      · exact ⟨.single (.discardLost task panic rfl hfound), .idle rfl⟩

theorem simulate_finish {action : EndAction} (hfit : s.Fit rules)
    (hallows : rules.Allows s (.finish action)) (hstep : s.step (.finish action) = some t) :
    Simulates rules s t := by
  change s.endStep action = some t at hstep
  obtain ⟨sup, phase, call, killed⟩ := s
  have hidle (hcallback : phase.callback = false) (hruns : ∀ byKill, phase ≠ .stopped byKill) :
      call = none := by
    by_contra hcall
    rcases hfit.waits hcall with hphase | ⟨byKill, hphase⟩
    · cases hcallback.symm.trans hphase
    · exact hruns byKill hphase
  cases phase with
  | collect =>
    cases hidle rfl (by simp)
    cases action with
    | collectDeath =>
      simp only [endStep] at hstep
      split at hstep
      · exact simulate_collectDeath hstep
      · cases hstep
    | collectRestart =>
      simp only [endStep] at hstep
      split at hstep
      · exact simulate_collectRestart hstep
      · cases hstep
    | collectNext => exact simulate_collectNext hstep
    | observeKill | _ => simp [endStep] at hstep
  | final =>
    cases hidle rfl (by simp)
    cases action with
    | deliverFinal =>
      cases hstep
      exact simulate_deliverFinal hallows
    | _ => simp [endStep] at hstep
  | teardown =>
    cases hidle rfl (by simp)
    cases action with
    | teardownNext => exact simulate_teardownNext hstep
    | teardownRestart => exact simulate_teardownRestart hstep
    | observeKill =>
      cases killed with
      | true =>
        cases hstep
        exact ⟨.refl, .idle rfl⟩
      | false => cases hstep
    | _ => simp [endStep] at hstep
  | select =>
    cases hidle rfl (by simp)
    cases action with
    | observeKill =>
      cases killed with
      | true =>
        cases hstep
        exact ⟨.single (.abort rfl fun h => hallows.kept h (.inl rfl)), .idle rfl⟩
      | false => cases hstep
    | _ => simp [endStep] at hstep
  | starting =>
    cases action with
    | observeKill =>
      cases killed with
      | true =>
        cases hstep
        exact ⟨.single (.abort rfl fun h => hallows.kept h (.inl rfl)), fun _ => .inr ⟨true, rfl⟩,
          hfit.fits, fun _ _ _ => .inl rfl⟩
      | false => cases hstep
    | _ => simp [endStep] at hstep
  | _ => cases action <;> simp [endStep] at hstep

/-- Every step of the machine that keeps to the rules is a sequence of moves. -/
theorem simulate_step {action : Action} (hfit : s.Fit rules) (hsound : Sound s.config)
    (hallows : rules.Allows s action) (hstep : s.step action = some t) : Simulates rules s t := by
  cases action with
  | env => exact simulate_env hfit hstep
  | kill => exact simulate_kill hfit hstep
  | call => exact simulate_call hfit hallows hstep
  | loop => exact simulate_loop hfit hsound hallows hstep
  | finish => exact simulate_finish hfit hallows hstep

end TokioActors
