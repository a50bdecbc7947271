/-
# The message loop as moves

Every step of the message loop is a sequence of moves: the outcomes it drains
from the planes, the turns of its worklist, and what follows a callback.
-/

import TokioActors.Supervision.Simulation.Abstraction

namespace TokioActors

open SupervisionState

variable {rules : Rules} {s t : Sys} {n : Token} {task : RestartTask} {c : Config}
  {sup : SupervisionState} {killed : Bool}

/-! ## The end of a turn -/

theorem moves_endLoop {work : List Report} (hsup : c.sup = s.sup)
    (hwork : c.work = work) (hout : c.out = []) (hlooping : c.stage = .looping)
    (hkilled : c.killed = s.killed) : Moves rules c (s.endLoop work).config := by
  have hmove : Move rules c _ := .endLoop hlooping
  have hend : (s.endLoop work).config = { c with
      sup := { c.sup with owed := c.sup.owed ++ c.work, log := .loopEnded :: c.sup.log }
      work := []
      plan := none
      stage := .ended } := by
    simp only [Sys.config, Sys.endLoop, Phase.reports, Phase.out, Phase.plan, Phase.stage,
      Phase.killed, hsup, hwork, hout, hkilled, List.map_nil]
  rw [hend]
  exact .single hmove

theorem config_proceed {r : SupervisionState × Next} (hlooping : s.phase.stage = .looping) :
    (s.proceed r).config = s.config.after r := by
  obtain ⟨sup, phase, call, killed⟩ := s
  obtain ⟨left, next⟩ := r
  cases phase with
  | collect c =>
    change Phase.stage (.collect c) = _ at hlooping
    unfold Phase.stage at hlooping
    cases hstage : c.stage <;> simp [hstage] at hlooping
  | select | turn | work | deliver => cases next <;> rfl
  | _ => cases hlooping

theorem call_proceed {r : SupervisionState × Next} : (s.proceed r).call = s.call := by
  obtain ⟨sup, next⟩ := r
  cases next <;> rfl

theorem turn_of_phase {ev : Report} {work : List Report} (hsound : Sound s.config)
    (hphase : s.phase = .work (ev :: work)) : Turn s.config ev work := by
  obtain ⟨sup, phase, call, killed⟩ := s
  cases hphase
  exact ⟨rfl, rfl, rfl, rfl, hsound.nodup, fun id child hget =>
    hsound.fresh id _ (Registry.life_of_get hget)⟩

theorem simulate_afterDelivery {event : ChildEvent} {cont : Cont} {error : Option ActorError} :
    Simulates rules ⟨sup, .deliver event n cont, none, killed⟩
      (Sys.afterDelivery ⟨sup, .deliver event n cont, none, killed⟩ error cont) := by
  cases cont with
  | next =>
    cases error with
    | none => exact ⟨.refl, .idle rfl⟩
    | some => exact ⟨moves_endLoop rfl rfl rfl rfl rfl, .idle rfl⟩
  | exhausted => exact ⟨moves_endLoop rfl rfl rfl rfl rfl, .idle rfl⟩
  | absorbed rest trigger name commit work =>
    cases error with
    | none =>
      refine ⟨?_, .idle call_proceed⟩
      unfold Sys.afterDelivery
      dsimp only
      rw [config_proceed (by rfl)]
      exact moves_deliverAbsorbed rfl rfl rfl
    | some =>
      refine ⟨?_, .idle rfl⟩
      have howe := @moves_oweDeliveries rules (Sys.config ⟨sup, .deliver event n
        (.absorbed rest trigger name commit work), none, killed⟩) rest _ rfl
      refine howe.trans (.head (.owe _ trigger.incarnation []
        (trigger :: (sup.oweDeliveries rest).owed) (sup.oweDeliveries rest).owedNames rfl
        (List.Perm.refl _)) ?_)
      exact moves_endLoop rfl rfl rfl rfl rfl
  | retried rest work =>
    cases error with
    | none =>
      refine ⟨?_, .idle call_proceed⟩
      unfold Sys.afterDelivery
      dsimp only
      rw [config_proceed (by rfl)]
      exact moves_deliverRetried rfl rfl
    | some =>
      refine ⟨?_, .idle rfl⟩
      have howe := @moves_oweDeliveries rules (Sys.config ⟨sup, .deliver event n
        (.retried rest work), none, killed⟩) rest [] (List.append_nil _).symm
      exact howe.trans (moves_endLoop rfl rfl rfl rfl rfl)

/-! ## Outcomes of the planes -/

theorem restartTask_spec (hfound : sup.restartTask n = some task) : task.incarnation = n :=
  Keyed.key_of_find hfound

theorem deathTask_spec {task : DeathTask} (hfound : sup.deathTask n = some task) :
    task.incarnation = n :=
  Keyed.key_of_find hfound

theorem mem_restartKeys (hfound : sup.restartTask n = some task) :
    (task.childId, n) ∈ sup.restartKeys := by
  rw [← restartTask_spec hfound]
  exact List.mem_map_of_mem (f := RestartTask.key) (Keyed.mem_of_find hfound)

theorem life_recordAdopted {sup : SupervisionState} {id : ActorId} {n : Token}
    (haccepts : Sys.accepts sup id n = true) :
    (Sys.recordAdopted sup id n).registry.life id = some (.running n) := by
  obtain ⟨p, hlife⟩ := accepts_spec haccepts
  unfold Sys.recordAdopted
  refine Registry.life_noteSubtree.trans ?_
  refine Registry.life_transition.trans ?_
  rw [if_pos rfl]
  change (sup.registry.life id).map _ = _
  rw [hlife, Option.map_some, Registry.moved, if_pos (isLegal_running_iff.mpr ⟨p, rfl⟩)]

theorem afterChain_nil (hwork : c.work = []) : c.afterChain (sup, []) = c.withSup sup := by
  unfold Config.afterChain
  rw [← hwork]

/-- The loop adopts an attempt, and the group goes on where it waited for it. -/
theorem moves_adoptRestart (hlooping : c.stage = .looping)
    (hplan : c.plan = none) (hwork : c.work = [])
    (hfound : c.sup.restartTask task.incarnation = some task) :
    Moves rules c (c.afterChain (Sys.adoptRestart
      (c.sup.dropAttempt task) task.childId task.incarnation)) := by
  unfold Sys.adoptRestart
  split
  next haccepts =>
    have hadopt : Move rules c _ := .adopt task (Config.unlaid_of_none hplan) hfound haccepts
    have hrunning := @life_recordAdopted
      (c.sup.dropAttempt task) task.childId task.incarnation haccepts
    generalize Sys.recordAdopted (c.sup.dropAttempt task)
      task.childId task.incarnation = adopted at hadopt hrunning ⊢
    dsimp only
    split
    next group hpending =>
      split
      next hmember =>
        have hawait : Move rules (c.withSup adopted) _ := .group
          (.awaitAdopted group task.childId task.incarnation hpending hmember hrunning)
        rw [afterChain_nil hwork]
        exact .tail (.single hadopt) hawait
      · rw [afterChain_nil hwork]
        exact .single hadopt
    next chain hpending =>
      split
      · have hadvance := @moves_advanceAndInitiate rules (c.withSup adopted) hlooping hplan
        rw [show (c.withSup adopted).work = [] from hwork] at hadvance
        exact .head hadopt hadvance
      · rw [afterChain_nil hwork]
        exact .single hadopt
    · rw [afterChain_nil hwork]
      exact .single hadopt
  · rw [afterChain_nil hwork]
    exact .single (.adoptStale task hfound)

theorem atRest_recordCancelled {sup : SupervisionState} {id : ActorId} {n : Token}
    (hattempt : ∀ life, sup.registry.life id = some life → life.heldToken = n →
      ∃ p, life = .restarting p n) :
    ∀ life, (Sys.recordCancelled sup id n).registry.life id = some life → life.heldToken = n →
      life.AtRest := by
  intro life hlife hheld
  unfold Sys.recordCancelled at hlife
  cases hbefore : sup.registry.life id with
  | none =>
    rw [hbefore] at hlife
    change sup.registry.life id = _ at hlife
    rw [hbefore] at hlife
    cases hlife
  | some before =>
    rw [hbefore] at hlife
    by_cases hsame : before.heldToken = n
    · obtain ⟨p, rfl⟩ := hattempt before hbefore hsame
      dsimp only at hlife
      rw [if_pos rfl] at hlife
      change (sup.registry.transition id (.down n .none)).life id = _ at hlife
      rw [Registry.life_transition, if_pos rfl, hbefore, Option.map_some, Registry.moved,
        if_pos (isLegal_down_iff.mpr hsame)] at hlife
      cases hlife
      exact ⟨n, .none, rfl, by simp⟩
    · exfalso
      have hkept : sup.registry.life id = some life := by
        cases before with
        | restarting p next =>
          dsimp only at hlife
          rw [if_neg (show ¬ next = n from hsame)] at hlife
          exact hlife
        | _ => exact hlife
      rw [hbefore] at hkept
      cases hkept
      exact hsame hheld

/-- The loop records a cancelled attempt, and the group goes on without it. -/
theorem moves_cancelAttempt (hsound : Sound c)
    (hlooping : c.stage = .looping) (hplan : c.plan = none) (hwork : c.work = [])
    (hfound : c.sup.restartTask task.incarnation = some task) :
    Moves rules c (c.afterChain (Sys.cancelAttempt
      (c.sup.dropAttempt task) task.childId task.incarnation)) := by
  have hcancel : Move rules c _ := .cancel task (Config.unlaid_of_none hplan) hfound
  have hrests := @atRest_recordCancelled
    (c.sup.dropAttempt task) task.childId task.incarnation
    (hsound.restarting task.childId task.incarnation (mem_restartKeys hfound))
  have hgo := @moves_settleAndGoOn rules (c.withSup (Sys.recordCancelled
    (c.sup.dropAttempt task) task.childId task.incarnation))
    task.childId task.incarnation (fun _ => false) hlooping hplan hrests
  rw [show (c.withSup _).work = [] from hwork] at hgo
  refine .head hcancel ?_
  unfold Sys.cancelAttempt
  exact hgo

/-- The loop handles the outcome of an attempt that returned. -/
theorem simulate_outcome {outcome : RestartOutcome}
    (hsound : Sound (Sys.config ⟨sup, .select, none, killed⟩))
    (hfound : sup.restartTask task.incarnation = some task) :
    Simulates rules ⟨sup, .select, none, killed⟩
      (Sys.handleRestartOutcome ⟨sup.dropAttempt task, .select, none, killed⟩ task.childId
        task.incarnation outcome) := by
  cases outcome with
  | adopted => exact ⟨moves_adoptRestart rfl rfl rfl hfound, .idle rfl⟩
  | failed reason | stopped reason => exact ⟨.single (.takeRestart task reason hfound), .idle rfl⟩
  | cancelled dropPanic =>
    have hcancel : Moves rules (Sys.config ⟨sup, .select, none, killed⟩) _ :=
      moves_cancelAttempt hsound rfl rfl rfl hfound
    cases dropPanic with
    | none => exact ⟨hcancel, .idle rfl⟩
    | some => exact ⟨hcancel.trans (moves_endLoop rfl rfl rfl rfl rfl), .idle rfl⟩
  | predecessorUnresponsive =>
    have hcancel : Move rules (Sys.config ⟨sup, .select, none, killed⟩) _ :=
      .cancel task (Config.unlaid_of_none rfl) hfound
    exact ⟨.head hcancel (moves_endLoop rfl rfl rfl rfl rfl), .idle rfl⟩

/-- A lost attempt is followed to its end, or it failed. -/
theorem lostRestartTask_cases {panic : Option ActorError} :
    sup.lostRestartTask task panic = ({ sup.dropAttempt task with
        deathSet := (sup.dropAttempt task).deathSet ++
          [⟨task.childId, task.incarnation, .follow, none⟩] }, none) ∨
      sup.lostRestartTask task panic = ((sup.dropAttempt task).note (.reported task.childId
        task.incarnation (lostAttemptReason panic)), some (.failed (lostAttemptReason panic))) := by
  unfold lostRestartTask
  dsimp only
  split
  · exact .inl rfl
  · exact .inr rfl

theorem simulate_pollRestart (hsound : Sound (Sys.config ⟨sup, .select, none, killed⟩))
    (hstep : Sys.pollRestart ⟨sup, .select, none, killed⟩ n = some t) :
    Simulates rules ⟨sup, .select, none, killed⟩ t := by
  unfold Sys.pollRestart at hstep
  split at hstep
  · cases hstep
  next task hfound =>
    obtain rfl := restartTask_spec hfound
    split at hstep
    · cases hstep
    · cases hstep
      exact simulate_outcome hsound hfound
    next panic _ =>
      rcases @lostRestartTask_cases task sup panic with hlost | hlost <;>
        dsimp only at hstep <;> rw [hlost] at hstep <;> cases hstep
      · exact ⟨.single (.plane (.follow task panic hfound)), .idle rfl⟩
      · exact ⟨.single (.takeLost task panic hfound), .idle rfl⟩

theorem simulate_pollDeath (hstep : Sys.pollDeath ⟨sup, .select, none, killed⟩ n = some t) :
    Simulates rules ⟨sup, .select, none, killed⟩ t := by
  unfold Sys.pollDeath at hstep
  split at hstep
  · cases hstep
  next task hfound =>
    obtain rfl := deathTask_spec hfound
    split at hstep <;> cases hstep
    next reason _ => exact ⟨.single (.takeDeath task reason hfound), .idle rfl⟩
    next panic _ => exact ⟨.single (.plane (.replace task panic hfound)), .idle rfl⟩

theorem simulate_beginTeardown {action : Action} (hcall : s.call = none)
    (hallows : rules.Allows s action) (hbefore : s.phase = .starting ∨ s.phase = .hook) :
    Simulates rules s s.beginTeardown := by
  have hstage : s.config.stage = .starting ∨ s.config.stage = .delivering := by
    rcases hbefore with h | h <;> simp [Sys.config, Phase.stage, h]
  have hmove : Move rules s.config _ := .teardown hstage fun h => by_contra fun hqueued =>
    hallows.kept h (.inr (.inl ⟨hstage, hqueued⟩))
  refine ⟨.single ?_, .idle hcall⟩
  obtain ⟨sup, phase, call, killed⟩ := s
  rcases hbefore with rfl | rfl <;> exact hmove

theorem simulate_return {action : Action} {error : Option ActorError} (hcall : s.call = none)
    (hallows : rules.Allows s action) (hstep : s.returnStep error = some t) :
    Simulates rules s t := by
  obtain ⟨sup, phase, call, killed⟩ := s
  cases hcall
  cases phase with
  | starting =>
    cases error with
    | none =>
      cases hstep
      exact ⟨.single (.enter rfl), .idle rfl⟩
    | some =>
      cases hstep
      exact simulate_beginTeardown rfl hallows (.inl rfl)
  | turn =>
    cases error with
    | none =>
      cases hstep
      exact ⟨.refl, .idle rfl⟩
    | some =>
      cases hstep
      exact ⟨moves_endLoop rfl rfl rfl rfl rfl, .idle rfl⟩
  | deliver =>
    cases hstep
    exact simulate_afterDelivery
  | finalDeliver =>
    cases hstep
    exact ⟨.single (.refuse false), .idle rfl⟩
  | hook =>
    cases killed with
    | true =>
      cases hstep
      exact ⟨.single (.abort rfl fun h => hallows.kept h (.inl rfl)), .idle rfl⟩
    | false =>
      cases hstep
      exact simulate_beginTeardown rfl hallows (.inr rfl)
  | _ => cases hstep

theorem simulate_loop {action : LoopAction} (hfit : s.Fit rules) (hsound : Sound s.config)
    (hallows : rules.Allows s (.loop action)) (hstep : s.step (.loop action) = some t) :
    Simulates rules s t := by
  change s.loopStep action = some t at hstep
  obtain ⟨sup, phase, call, killed⟩ := s
  -- Between two events of the loop, and in its worklist, no call waits.
  have hidle (hphase : phase = .select ∨ ∃ work, phase = .work work) : call = none :=
    hfit.idle_of_phase (by rcases hphase with rfl | ⟨_, rfl⟩ <;> rfl)
      (by rcases hphase with rfl | ⟨_, rfl⟩ <;> simp [Phase.stage])
  have hselect {u : Option Sys} (hstep : (if phase = .select then u else none) = some t) :
      phase = .select ∧ call = none ∧ u = some t := by
    split at hstep
    next hphase => exact ⟨hphase, hidle (.inl hphase), hstep⟩
    · cases hstep
  cases action with
  | pollRestart =>
    obtain ⟨rfl, rfl, hstep⟩ := hselect hstep
    exact simulate_pollRestart hsound hstep
  | pollDeath =>
    obtain ⟨rfl, rfl, hstep⟩ := hselect hstep
    exact simulate_pollDeath hstep
  | pollVerdict =>
    obtain ⟨rfl, rfl, hstep⟩ := hselect hstep
    cases hstep
    exact ⟨@moves_advanceStopQueue rules ⟨sup, [], [], none, .looping, killed⟩, .idle rfl⟩
  | pollForwarder | beginTurn =>
    obtain ⟨rfl, rfl, hstep⟩ := hselect hstep
    cases hstep
    exact ⟨.refl, .idle rfl⟩
  | leave =>
    obtain ⟨rfl, rfl, hstep⟩ := hselect hstep
    cases hstep
    exact ⟨moves_endLoop rfl rfl rfl rfl rfl, .idle rfl⟩
  | work =>
    simp only [Sys.loopStep] at hstep
    split at hstep
    · cases hidle (.inr ⟨_, rfl⟩)
      split at hstep
      · cases hstep
        exact ⟨moves_endLoop rfl rfl rfl rfl rfl, .idle rfl⟩
      · cases hstep
        exact ⟨.refl, .idle rfl⟩
    next ev work =>
      cases hidle (.inr ⟨_, rfl⟩)
      cases hstep
      refine ⟨?_, .idle call_proceed⟩
      rw [config_proceed (by rfl)]
      refine moves_handleReport (turn_of_phase hsound rfl) (fun hstill => ?_) fun h hpast =>
        hallows.kept h (.inr (.inr ⟨ev, rfl, hpast⟩))
      cases hallows.still hstill
    · cases hstep
  | «return» =>
    simp only [Sys.loopStep] at hstep
    split at hstep
    next hcall => exact simulate_return hcall hallows hstep
    · cases hstep

end TokioActors
