/-
# Manual calls of the machine as moves

A manual call up to its wait, and what becomes of one that waits.
-/

import TokioActors.Supervision.Simulation.Abstraction

namespace TokioActors

open SupervisionState

variable {rules : Rules} {s t : Sys}

/-- A manual stop that answers, or goes on to wait for the subtree. -/
theorem simulate_afterStop {id : ActorId} {asked kind : ManualStop}
    (hcallback : s.phase.callback = true) (hquiet : rules.quiet → s.phase.plan = none) :
    Simulates rules s (s.afterStop id asked kind) := by
  have hreturned : ∀ r : Sys, (r = if asked = .terminate then
      { s with sup := s.sup.note (.terminated id), call := none } else { s with call := none }) →
      Simulates rules s r := by
    rintro r rfl
    split
    · exact ⟨.single (.terminated id hquiet), .idle rfl⟩
    · exact ⟨.refl, .idle rfl⟩
  unfold Sys.afterStop
  dsimp only
  split
  · split
    next p _ =>
      split
      · exact hreturned _ rfl
      · refine ⟨.refl, fun _ => .inl hcallback, ?_, fun h call _ => .inl (hquiet h)⟩
        intro call hcall
        cases hcall
        trivial
    · exact hreturned _ rfl
  · exact hreturned _ rfl

theorem simulate_manualStop {id : ActorId} {asked : ManualStop}
    (hcallback : s.phase.callback = true) (hcall : s.call = none)
    (hrules : StopRules rules s.config) :
    Simulates rules s (s.manualStop id asked) := by
  unfold Sys.manualStop
  split
  · exact ⟨.refl, .idle hcall⟩
  · have hspec : StopSpec rules s.config id (s.sup.manualStopDecided id asked).2
        (s.sup.manualStopDecided id asked).1 := spec_manualStopDecided hrules
    generalize s.sup.manualStopDecided id asked = decided at hspec ⊢
    obtain ⟨⟨sup, progress⟩, kind⟩ := decided
    have hacted : Moves rules s.config (Sys.config { s with sup := sup }) := hspec.moves
    cases progress with
    | answered reply =>
      cases reply with
      | ok =>
        obtain ⟨hmoves, hfit⟩ := @simulate_afterStop rules { s with sup := sup } id asked kind
          hcallback hrules.quiet
        exact ⟨hacted.trans hmoves, hfit⟩
      | _ => exact ⟨hacted, .idle hcall⟩
    | joining n =>
      refine ⟨hacted, fun _ => .inl hcallback, ?_, fun h call _ => .inl (hrules.quiet h)⟩
      intro call hsome
      cases hsome
      exact hspec.joins n rfl

theorem callback_up {phase : Phase} (hcallback : phase.callback = true) : phase.stage ≠ .down := by
  cases phase <;> simp_all [Phase.callback, Phase.stage]

theorem simulate_resume {built : Bool} {call : Call} (hfit : s.Fit rules)
    (hcallback : s.phase.callback = true) (hcall : s.call = some call)
    (hstep : s.resumeCall built call = some t) : Simulates rules s t := by
  have hfits := hfit.fits call hcall
  have hunlaid (hwaits : call.spawns = false) (h : rules.quiet) : s.phase.plan = none :=
    (hfit.quiet h _ hcall).resolve_right (by simp [hwaits])
  cases call with
  | joining id n asked kind =>
    have hquiet := hunlaid rfl
    have hafter := @simulate_afterStop rules s id asked kind hcallback hquiet
    unfold Sys.resumeCall at hstep
    dsimp only at hstep
    split at hstep
    next reason _ =>
      cases hstep
      have hfinish : Moves rules s.config
          (s.config.withSup (s.sup.finishManualStop id n kind reason)) :=
        moves_finishManualStop ⟨hquiet, callback_up hcallback⟩ hfits
      have hfinished := @simulate_afterStop rules
        { s with sup := s.sup.finishManualStop id n kind reason } id asked kind hcallback hquiet
      exact ⟨hfinish.trans hfinished.1, hfinished.2⟩
    · cases hstep
      exact ⟨.refl, .idle rfl⟩
    · cases hstep
      exact hafter
    · cases hstep
      exact hafter
    · cases hstep
  | subtree id =>
    have hquiet := hunlaid rfl
    unfold Sys.resumeCall at hstep
    dsimp only at hstep
    split at hstep
    · cases hstep
      refine ⟨?_, .idle rfl⟩
      split
      · exact .single (.terminated id hquiet)
      · exact .refl
    · cases hstep
  | spawning id name restartType shutdown p =>
    unfold Sys.resumeCall at hstep
    dsimp only at hstep
    split at hstep
    · cases hstep
      refine ⟨?_, .idle rfl⟩
      split
      next hspawns =>
        exact .single (.spawn id name restartType shutdown
          (Option.isNone_iff_eq_none.mp hspawns.2) (callback_up hcallback))
      · exact .refl
    · cases hstep

theorem simulate_escalate {call : Call} (hstep : s.escalateCall call = some t) :
    Simulates rules s t := by
  cases call with
  | joining => cases hstep
  | subtree _ p | spawning _ _ _ _ p =>
    cases hstep
    exact ⟨.single (.plane (.condemn p)), .idle rfl⟩

theorem simulate_spawnNamed {id : ActorId} {name : String} {restartType : RestartType}
    {shutdown : Shutdown} {built : Bool} (hcallback : s.phase.callback = true)
    (hcall : s.call = none) :
    Simulates rules s (s.spawnNamed id name restartType shutdown built) := by
  unfold Sys.spawnNamed
  split
  · exact ⟨.refl, .idle hcall⟩
  next hfree =>
    rw [not_or] at hfree
    have habsent : s.sup.registry.get id = none := by
      rw [← Option.not_isSome_iff_eq_none]
      exact hfree.2
    split
    · refine ⟨.refl, fun _ => .inl hcallback, ?_, ?_⟩
      · intro call hsome
        cases hsome
        trivial
      · intro _ call hsome
        cases hsome
        exact .inr rfl
    · split
      · exact ⟨.single (.spawn id (some name) restartType shutdown habsent (callback_up hcallback)),
          .idle hcall⟩
      · exact ⟨.refl, .idle hcall⟩

theorem simulate_call {action : CallAction} (hfit : s.Fit rules)
    (hallows : rules.Allows s (.call action)) (hstep : s.step (.call action) = some t) :
    Simulates rules s t := by
  change s.callStep action = some t at hstep
  unfold Sys.callStep at hstep
  split at hstep
  next hcallback =>
    -- A call that has a subject is made with no group restart waiting for its layout.
    have hquiet {id : ActorId} (hsubject : action.subject = some id) :
        rules.quiet → s.phase.plan = none := by
      intro h
      by_contra hplan
      have hnone := hallows.quiet h (Option.isSome_iff_ne_none.mpr hplan)
      rw [hsubject] at hnone
      cases hnone
    have hstops {id : ActorId} (hsubject : action.subject = some id) : StopRules rules s.config :=
      ⟨hquiet hsubject, callback_up hcallback⟩
    cases hcall : s.call with
    | none =>
      rw [hcall] at hstep
      cases action with
      | stopChild | terminateChild =>
        cases hstep
        exact simulate_manualStop hcallback hcall (hstops rfl)
      | restartChild id =>
        cases hstep
        split
        · exact ⟨.refl, hfit⟩
        · exact ⟨moves_restartChild (hquiet rfl) hallows.heeded (callback_up hcallback),
            .idle rfl⟩
      | deleteChild id =>
        cases hstep
        split
        · exact ⟨.refl, hfit⟩
        · exact ⟨moves_deleteChild (hquiet rfl), .idle rfl⟩
      | spawnNamed =>
        cases hstep
        exact simulate_spawnNamed hcallback hcall
      | spawnUnnamed id restartType shutdown =>
        dsimp only at hstep
        split at hstep
        next hfree =>
          cases hstep
          have hunused := hfree.2
          rw [Sys.unusedId, Bool.and_eq_true, Option.isNone_iff_eq_none] at hunused
          exact ⟨.single (.spawn id none restartType shutdown hunused.1
            (callback_up hcallback)), .idle rfl⟩
        · cases hstep
      | resume | escalate | abandon => cases hstep
    | some =>
      rw [hcall] at hstep
      cases action with
      | resume => exact simulate_resume hfit hcallback hcall hstep
      | escalate => exact simulate_escalate hstep
      | abandon =>
        cases hstep
        exact ⟨.refl, .idle rfl⟩
      | _ => cases hstep
  · cases hstep

end TokioActors
