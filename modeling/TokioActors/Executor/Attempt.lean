/-
# What a restart attempt can do

One access of an attempt after the spawn reads the command cell, the acknowledgment,
the task, or a timer. The inversion here lists the outcomes of every access; the
invariants of an attempt are proved from it, one case at a time.
-/

import TokioActors.Executor.Frame

namespace TokioActors.Executor

/-! ## One access -/

namespace Attempt

def heed (attempt : Attempt) (grace : Nat) (w : World) (order : StopOrder) : Attempt :=
  { attempt with ordered := true, step := (w.start grace attempt.step order).2 }

theorem readOrder_eq (attempt : Attempt) (setup : Setup) (w : World) (order : StopOrder) :
    attempt.readOrder setup w order =
      ((w.start setup.grace attempt.step order).1, attempt.heed setup.grace w order) := rfl

end Attempt

/-- What one access of an attempt does between the spawn and the end. -/
inductive AttemptMove (setup : Setup) (w : World) (attempt : Attempt) : World × Place → Prop
  | pass (branch : Branch) : AttemptMove setup w attempt (w, .init attempt branch)
  | read (order : StopOrder) (stop : w.stop = some order) :
      AttemptMove setup w attempt
        ((w.update.start setup.grace attempt.step order).1,
          .init (attempt.heed setup.grace w.update order) .changed)
  | readNothing (stop : w.stop = none) :
      AttemptMove setup w attempt (w.update, .init attempt .changed)
  | closed (closed : w.closed = true) (seen : w.unseen = false) :
      AttemptMove setup w attempt (w, .init { attempt with commandsOpen := false } .changed)
  | ackOrdered (ordered : attempt.ordered = true) (ack : w.ack = some true) :
      AttemptMove setup w attempt (w, .acked { attempt with ackOpen := false, acked := true })
  | ackRead (order : StopOrder) (stop : w.stop = some order) (ack : w.ack = some true) :
      AttemptMove setup w attempt
        ((w.update.start setup.grace attempt.step order).1,
          .acked
            (Attempt.heed { attempt with ackOpen := false, acked := true } setup.grace w.update
              order))
  | ackNothing (stop : w.stop = none) (ack : w.ack = some true) :
      AttemptMove setup w attempt
        (w.update, .acked { attempt with ackOpen := false, acked := true })
  | initFailed (ack : w.ack = some false) :
      AttemptMove setup w attempt (w, .init { attempt with ackOpen := false } .changed)
  | initEnded (ack : w.ack = some false) (off : attempt.step = .idle) :
      AttemptMove setup w attempt
        (w, .killPath { attempt with ackOpen := false } .initEnded (!w.killStored))
  | ended (reason : StopReason) (ended : w.ended = some reason) :
      AttemptMove setup w attempt
        ({ ((w.advance setup.grace attempt.step .taskEnded).1.borrow.return_
              (attempt.outcome w reason)) with fate := some reason }, .finished)
  | due (deadline : Nat) (armed : attempt.step.deadline = some deadline) (due : deadline ≤ w.now) :
      AttemptMove setup w attempt
        ((w.advance setup.grace attempt.step .deadlineReached).1,
          .init { attempt with step := (w.advance setup.grace attempt.step .deadlineReached).2 }
            .changed)
  | timerLate :
      AttemptMove setup w attempt (w, .init { attempt with timerPending := false } .changed)
  | timerFired (pending : attempt.timerPending = true) (unacked : attempt.acked = false)
      (early : attempt.step = .idle ∨ ∃ window, attempt.step = .graceful window) :
      AttemptMove setup w attempt
        (w, .killPath { attempt with timerPending := false, timeoutRaised := !w.killStored }
          .startTimeout (!w.killStored))

theorem position_off {step : LadderStep} (h : step.position = .off) : step = .idle := by
  cases step <;> first | rfl | cases h

theorem position_window {step : LadderStep} (h : step.position = .window) :
    ∃ window, step = .graceful window := by
  cases step <;> first | exact ⟨_, rfl⟩ | cases h

/-- Every access of an attempt is one of these. -/
theorem move_of_poll (setup : Setup) (w : World) (attempt : Attempt) (branch : Branch) :
    AttemptMove setup w attempt (attempt.poll setup w branch) := by
  cases branch with
  | changed =>
    simp only [Attempt.poll]
    split
    · split
      · unfold Attempt.readCommands
        cases hstop : w.stop with
        | none => exact .readNothing hstop
        | some order => exact .read order hstop
      · rename_i hseen
        split
        · exact .closed ‹_› (eq_false_of_ne_true hseen)
        · exact .pass .ack
    · exact .pass .ack
  | ack =>
    simp only [Attempt.poll]
    split
    · split
      · exact .pass .join
      · rename_i hack
        split
        · exact .ackOrdered ‹_› hack
        · unfold Attempt.readCommands
          cases hstop : w.stop with
          | none => exact .ackNothing hstop hack
          | some order => exact .ackRead order hstop hack
      · rename_i hack
        simp only [Attempt.decideKill, attemptStep, Attempt.view]
        by_cases hoff : attempt.step.position = .off
        · simpa [hoff] using AttemptMove.initEnded hack (position_off hoff)
        · simpa [hoff] using AttemptMove.initFailed hack
    · exact .pass .join
  | join =>
    simp only [Attempt.poll]
    split
    · exact .pass .deadline
    · exact .ended _ ‹_›
  | deadline =>
    simp only [Attempt.poll]
    split
    · split
      · exact .due _ ‹_› ‹_›
      · exact .pass .timer
    · exact .pass .timer
  | timer =>
    simp only [Attempt.poll]
    split
    · split
      · rename_i hfires
        have hpending := (Bool.and_eq_true_iff.mp hfires).1
        simp only [Attempt.decideKill, attemptStep, Attempt.view]
        by_cases hearly : (!attempt.acked &&
            (attempt.step.position == .off || attempt.step.position == .window)) = true
        · have hparts := hearly
          simp only [Bool.and_eq_true, Bool.or_eq_true, beq_iff_eq, Bool.not_eq_true'] at hparts
          have hstep := hparts.2.imp position_off position_window
          simpa [hearly] using AttemptMove.timerFired hpending hparts.1 hstep
        · simpa [hearly] using AttemptMove.timerLate
      · exact .pass .changed
    · exact .pass .changed

/-! ## The attempt's ladder -/

/-- Where an attempt's ladder is: on the way an order started, or on a kill path the
attempt itself began, before an order or during its window. -/
inductive Attempted (grace : Nat) : Option StopOrder → LadderStep → Trail → Prop
  | ladder {armed : Option StopOrder} {step : LadderStep} {trail : Trail}
      (on : OnLadder grace armed step trail) : Attempted grace armed step trail
  | killed (deadline : Nat) : Attempted grace none (.killGrace deadline) []
  | killedInWindow {order : StopOrder} {window : Option Nat} {trail : Trail}
      (climb : Climb grace order (.graceful window) trail) (deadline : Nat) :
      Attempted grace (some order) (.killGrace deadline) trail
  | abort {armed : Option StopOrder} {deadline : Nat} {trail : Trail}
      (before : Attempted grace armed (.killGrace deadline) trail) (now settle : Nat) :
      Attempted grace armed (.abortGrace settle) (trail ++ [(now, .abort)])
  | verdict {armed : Option StopOrder} {deadline : Nat} {trail : Trail}
      (before : Attempted grace armed (.abortGrace deadline) trail) (now : Nat) :
      Attempted grace armed .spent (trail ++ [(now, .writeVerdict)])

namespace Attempted

variable {w : World} {grace : Nat} {armed : Option StopOrder} {step : LadderStep} {trail : Trail}

theorem onLadder (hattempted : Attempted grace armed .idle trail) :
    OnLadder grace armed .idle trail := by
  cases hattempted with
  | ladder hon => exact hon

theorem onLadder_window {window : Option Nat}
    (hattempted : Attempted grace armed (.graceful window) trail) :
    OnLadder grace armed (.graceful window) trail := by
  cases hattempted with
  | ladder hon => exact hon

/-- What is left of a ladder that can still be cut short by a kill path. -/
theorem kill (hattempted : Attempted grace armed step trail)
    (hearly : step = .idle ∨ ∃ window, step = .graceful window) (deadline : Nat) :
    Attempted grace armed (.killGrace deadline) trail := by
  cases hattempted with
  | ladder hon =>
    cases hon with
    | idle => exact .killed deadline
    | climb hclimb =>
      rcases hearly with rfl | ⟨window, rfl⟩
      · exact absurd rfl hclimb.ne_idle
      · exact .killedInWindow hclimb deadline
  | killed | killedInWindow | abort | verdict => simp at hearly

theorem start {order : StopOrder} (hattempted : Attempted grace w.armed step w.trail)
    (hissued : order.issuedAt ≤ w.now) :
    Attempted grace (w.start grace step order).1.armed (w.start grace step order).2
      (w.start grace step order).1.trail := by
  cases step with
  | idle => exact .ladder (OnLadder.start hattempted.onLadder hissued)
  | graceful window => cases window <;> exact hattempted
  | killGrace | abortGrace | spent => exact hattempted

theorem deadline {deadline : Nat} (hattempted : Attempted grace w.armed step w.trail)
    (hdeadline : step.deadline = some deadline) (hdue : deadline ≤ w.now) :
    Attempted grace (w.advance grace step .deadlineReached).1.armed
      (w.advance grace step .deadlineReached).2
      (w.advance grace step .deadlineReached).1.trail := by
  cases step with
  | idle | spent => cases hdeadline
  | graceful => exact .ladder (hattempted.onLadder_window.deadline hdeadline hdue)
  | killGrace =>
    rw [World.advance_armed]
    exact .abort hattempted w.now _
  | abortGrace =>
    rw [World.advance_armed]
    exact .verdict hattempted w.now

/-- The rungs behind a position, for the order the ladder was started from. -/
def passed : Option StopOrder → LadderStep → List LadderAction
  | some order, step => behind order step
  | none, .abortGrace _ => [.abort]
  | none, .spent => [.abort, .writeVerdict]
  | none, _ => []

theorem sublist (hattempted : Attempted grace armed step trail) :
    (trail.map Prod.snd).Sublist (passed armed step) := by
  induction hattempted with
  | ladder hon =>
    cases hon with
    | idle => exact List.Sublist.refl _
    | climb hclimb => exact hclimb.sublist_behind
  | killed => exact List.Sublist.refl _
  | @killedInWindow order window trail hclimb deadline =>
    refine hclimb.sublist_behind.trans ?_
    cases hpolicy : order.policy <;> simp [passed, behind, upToKill, hpolicy, firstSignal]
  | @abort armed _ _ _ _ _ ih | @verdict armed _ _ _ _ ih =>
    rw [List.map_append]
    cases armed <;> exact ih.append (List.Sublist.refl _)

/-- No rung is taken twice, and the end of the task adds one more. -/
theorem nodup_release (hattempted : Attempted grace armed step trail) (now : Nat) :
    ((trail ++ [(now, LadderAction.releaseMark)]).map Prod.snd).Nodup := by
  have hpassed : (passed armed step ++ [LadderAction.releaseMark]).Nodup := by
    cases armed with
    | none => cases step <;> simp [passed]
    | some order =>
      cases hpolicy : order.policy <;> cases step <;>
        simp [passed, behind, upToKill, hpolicy, firstSignal]
  rw [List.map_append]
  exact (hattempted.sublist.append (List.Sublist.refl _)).nodup hpassed

theorem nodup (hattempted : Attempted grace armed step trail) : (trail.map Prod.snd).Nodup :=
  (List.sublist_append_left _ _).nodup (List.map_append ▸ hattempted.nodup_release 0)

end Attempted

end TokioActors.Executor
