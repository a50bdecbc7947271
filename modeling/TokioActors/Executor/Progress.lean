/-
# Where the executor's own steps lead

An executor that is polled gets through: once the task has ended it takes the end,
and once an order is in the command cell it takes the order to the ladder or finds
the end first. Neither needs a step of another party, except that an incarnation
handed over is adopted by its supervisor.
-/

import TokioActors.Executor.Phases

namespace TokioActors.Executor

open Attempt

/-- The steps of the executors alone. -/
def byExecutor (_ : State) (input : Input) : Prop := input = .go ∨ input = .adopt

/-- The executors' own steps lead to a place of this kind. -/
def Leads (setup : Setup) (goal : Place → Prop) (s : State) : Prop :=
  ∃ s', Machine.Reaches (step setup) byExecutor s s' ∧ goal s'.place

section Leads

variable {setup : Setup} {goal : Place → Prop} {w w' : World} {place place' : Place}

theorem Leads.here (hgoal : goal place) : Leads setup goal ⟨w, place⟩ := ⟨_, .refl, hgoal⟩

theorem Leads.of_step {s s' : State} {input : Input} (hallowed : byExecutor s input)
    (htaken : step setup s input = some s') (hleads : Leads setup goal s') :
    Leads setup goal s := by
  obtain ⟨t, hreach, hgoal⟩ := hleads
  exact ⟨t, .head hallowed htaken hreach, hgoal⟩

theorem Leads.of_go (hgo : go setup w place = some (w', place'))
    (hleads : Leads setup goal ⟨w', place'⟩) : Leads setup goal ⟨w, place⟩ :=
  hleads.of_step (.inl rfl) (by simp [step, hgo])

theorem Leads.next (hgo : ∃ w' place', go setup w place = some (w', place') ∧ goal place') :
    Leads setup goal ⟨w, place⟩ := by
  obtain ⟨w', place', hgo, hgoal⟩ := hgo
  exact .of_go hgo (.here hgoal)

theorem Leads.of_poll {attempt : Attempt} {branch : Branch}
    (hleads : Leads setup goal ⟨(attempt.poll setup w branch).1, (attempt.poll setup w branch).2⟩) :
    Leads setup goal ⟨w, .init attempt branch⟩ := hleads.of_go rfl

theorem Leads.of_pollRunner {step : LadderStep} {commandsOpen : Bool} {branch : Branch}
    (hleads : Leads setup goal ⟨(pollRunner setup w step commandsOpen branch).1,
      (pollRunner setup w step commandsOpen branch).2⟩) :
    Leads setup goal ⟨w, .runner step commandsOpen branch⟩ := hleads.of_go rfl

theorem Leads.adopt (hleads : Leads setup goal ⟨w, .runnerStart⟩) : Leads setup goal ⟨w, .handed⟩ :=
  hleads.of_step (.inr rfl) rfl

end Leads

/-! ## The end is taken -/

section Ends

variable {setup : Setup} {w : World}

abbrev Ends (setup : Setup) (s : State) : Prop := Leads setup (· = .finished) s

theorem ends_join {attempt : Attempt} (hended : w.ended.isSome = true) :
    Ends setup ⟨w, .init attempt .join⟩ := by
  obtain ⟨reason, hreason⟩ := Option.isSome_iff_exists.mp hended
  refine .of_poll ?_
  simp only [poll, hreason]
  exact .here rfl

theorem ends_runner_join {step : LadderStep} {commandsOpen : Bool}
    (hended : w.ended.isSome = true) :
    Ends setup ⟨w, .runner step commandsOpen .join⟩ := by
  obtain ⟨reason, hreason⟩ := Option.isSome_iff_exists.mp hended
  refine .of_pollRunner ?_
  simp only [pollRunner, hreason]
  exact .here rfl

/-- A runner's turn ends with a look at the task. -/
theorem ends_runner {step : LadderStep} {commandsOpen : Bool} {branch : Branch}
    (hended : w.ended.isSome = true) : Ends setup ⟨w, .runner step commandsOpen branch⟩ := by
  have hdeadline (branch : Branch) (hlast : pollRunner setup w step commandsOpen branch =
      pollRunner setup w step commandsOpen .deadline) :
      Ends setup ⟨w, .runner step commandsOpen branch⟩ := by
    refine .of_pollRunner ?_
    rw [hlast]
    simp only [pollRunner]
    split
    · split
      · exact ends_runner_join (by simpa using hended)
      · exact ends_runner_join hended
    · exact ends_runner_join hended
  cases branch with
  | join => exact ends_runner_join hended
  | changed =>
    refine .of_pollRunner ?_
    simp only [pollRunner]
    split
    · split
      · refine ends_runner_join ?_
        unfold readRunner
        split
        · rw [(Same.start _ _ _ _).ended]
          exact hended
        · exact hended
      · split
        · exact ends_runner_join hended
        · exact hdeadline _ rfl
    · exact hdeadline _ rfl
  | ack | deadline | timer => exact hdeadline _ rfl

theorem ends_runnerStart (hended : w.ended.isSome = true) : Ends setup ⟨w, .runnerStart⟩ := by
  refine .of_go rfl (ends_runner ?_)
  unfold readRunner
  split
  · rw [(Same.start _ _ _ _).ended]
    exact hended
  · exact hended

theorem readCommands_ended (attempt : Attempt) (w : World) :
    (attempt.readCommands setup w).1.ended = w.ended ∧
      (attempt.readCommands setup w).2.ackOpen = attempt.ackOpen := by
  unfold readCommands
  split
  · exact ⟨(Same.start _ _ _ _).ended, rfl⟩
  · exact ⟨rfl, rfl⟩

/-- A look at the command cell leads on to the acknowledgment: the cell is read at
most once, and closed at most once. -/
theorem ends_changed {ackOpen : Bool}
    (hack : ∀ w attempt, w.ended.isSome = true → attempt.ackOpen = ackOpen →
      Ends setup ⟨w, .init attempt .ack⟩)
    (w : World) (attempt : Attempt) (hended : w.ended.isSome = true)
    (hopen : attempt.ackOpen = ackOpen) : Ends setup ⟨w, .init attempt .changed⟩ := by
  have hdeaf (w : World) (attempt : Attempt) (hended : w.ended.isSome = true)
      (hopen : attempt.ackOpen = ackOpen)
      (hlistens : (attempt.commandsOpen && !attempt.ordered) = false) :
      Ends setup ⟨w, .init attempt .changed⟩ := by
    refine .of_poll ?_
    simp only [poll, hlistens]
    exact hack w attempt hended hopen
  have hseen (w : World) (attempt : Attempt) (hended : w.ended.isSome = true)
      (hopen : attempt.ackOpen = ackOpen) (hseen : w.unseen = false) :
      Ends setup ⟨w, .init attempt .changed⟩ := by
    refine .of_poll ?_
    simp only [poll, hseen]
    split
    · simp only [Bool.false_eq_true, if_false]
      split
      · exact hdeaf w _ hended hopen rfl
      · exact hack w attempt hended hopen
    · exact hack w attempt hended hopen
  cases hunseen : w.unseen with
  | false => exact hseen w attempt hended hopen hunseen
  | true =>
    cases hlistens : (attempt.commandsOpen && !attempt.ordered) with
    | false => exact hdeaf w attempt hended hopen hlistens
    | true =>
      refine .of_poll ?_
      simp only [poll, hlistens, hunseen, if_true, readCommands]
      split
      · refine hdeaf _ _ ?_ hopen (by simp [readOrder_eq, heed])
        rw [readOrder_eq, (Same.start _ _ _ _).ended]
        exact hended
      · exact hseen w.update attempt hended hopen rfl

theorem ends_ack_read (w : World) (attempt : Attempt) (hended : w.ended.isSome = true)
    (hread : attempt.ackOpen = false) : Ends setup ⟨w, .init attempt .ack⟩ := by
  refine .of_poll ?_
  simp only [poll, hread]
  exact ends_join hended

theorem ends_killPath {attempt : Attempt} {cause : Killer} {raise : Bool}
    (hchanged : ∀ w attempt', w.ended.isSome = true → attempt'.ackOpen = attempt.ackOpen →
      Ends setup ⟨w, .init attempt' .changed⟩)
    (hended : w.ended.isSome = true) : Ends setup ⟨w, .killPath attempt cause raise⟩ := by
  refine .of_go rfl (hchanged _ _ ?_ rfl)
  cases raise <;> exact hended

theorem ends_acked {attempt : Attempt}
    (hchanged : ∀ w attempt', w.ended.isSome = true → attempt'.ackOpen = attempt.ackOpen →
      Ends setup ⟨w, .init attempt' .changed⟩)
    (hended : w.ended.isSome = true) : Ends setup ⟨w, .acked attempt⟩ := by
  by_cases hadopt : attemptStep .init (.ack (attempt.ordered || w.stop.isSome) w.ended.isSome)
      (attempt.view w) = .adopt
  · have hgo : go setup w (.acked attempt) = some (w.borrow.return_ .adopted, .handed) := by
      simp only [go, hadopt, if_true]
    exact .of_go hgo (.adopt (ends_runnerStart hended))
  · have hgo : go setup w (.acked attempt) = some (w.borrow, .init attempt .changed) := by
      simp only [go, hadopt, if_false]
    exact .of_go hgo (hchanged _ _ hended rfl)

theorem ends_ack (w : World) (attempt : Attempt) (hended : w.ended.isSome = true) :
    Ends setup ⟨w, .init attempt .ack⟩ := by
  cases hopen : attempt.ackOpen with
  | false => exact ends_ack_read w attempt hended hopen
  | true =>
    refine .of_poll ?_
    simp only [poll, hopen, if_true]
    split
    · exact ends_join hended
    · split
      · exact ends_acked (ends_changed ends_ack_read) hended
      · refine ends_acked ?_ ?_
        · rw [(readCommands_ended _ _).2]
          exact ends_changed ends_ack_read
        · rw [(readCommands_ended _ _).1]
          exact hended
    · unfold decideKill
      split
      · simp only [reduceCtorEq, if_false]
        exact ends_killPath (ends_changed ends_ack_read) hended
      · exact ends_changed ends_ack_read _ _ hended rfl

/-- Wherever an attempt is in its turn, it takes the end of the task. -/
theorem ends_init {attempt : Attempt} {branch : Branch} (hended : w.ended.isSome = true) :
    Ends setup ⟨w, .init attempt branch⟩ := by
  have hchanged (w : World) (attempt' : Attempt) (hended : w.ended.isSome = true) :
      Ends setup ⟨w, .init attempt' .changed⟩ :=
    ends_changed (fun w attempt hended _ => ends_ack w attempt hended) w attempt' hended rfl
  have htimer : Ends setup ⟨w, .init attempt .timer⟩ := by
    refine .of_poll ?_
    simp only [poll]
    split
    · split
      · unfold decideKill
        split
        · exact ends_killPath (fun w attempt' h _ => hchanged w attempt' h) hended
        · exact hchanged _ _ hended
      · exact hchanged _ _ hended
    · exact hchanged _ _ hended
  cases branch with
  | changed => exact hchanged w attempt hended
  | ack => exact ends_ack w attempt hended
  | join => exact ends_join hended
  | timer => exact htimer
  | deadline =>
    refine .of_poll ?_
    simp only [poll]
    split
    · split
      · exact hchanged _ _ (by simpa using hended)
      · exact htimer
    · exact htimer

/-- An executor takes the end of the task it spawned. -/
theorem ends_of_ended {s : State} (hsound : Sound setup s) (hspawned : s.world.spawned = true)
    (hended : s.world.ended.isSome = true) : Ends setup s := by
  obtain ⟨w, place⟩ := s
  cases hsound.phase with
  | waiting hfresh | checking hfresh | building hfresh => cases hfresh.spawned.symm.trans hspawned
  | starting =>
    refine .of_go rfl (ends_init ?_)
    rw [(readCommands_ended _ _).1]
    exact hended
  | init => exact ends_init hended
  | acked => exact ends_acked (fun _ _ h _ => ends_init h) hended
  | killPath => exact ends_killPath (fun _ _ h _ => ends_init h) hended
  | handed => exact .adopt (ends_runnerStart hended)
  | runnerStart => exact ends_runnerStart hended
  | runner => exact ends_runner hended
  | finished => exact .here rfl

end Ends

/-! ## An order is taken -/

def Place.ladder : Place → LadderStep
  | .init attempt _ => attempt.step
  | .acked attempt => attempt.step
  | .killPath attempt _ _ => attempt.step
  | .runner step _ _ => step
  | _ => .idle

/-- The ladder was started, or the executor is through. -/
def Answered (place : Place) : Prop := place.ladder ≠ .idle ∨ place = .finished

section Answers

variable {setup : Setup} {w : World}

/-- An attempt whose ladder has not begun has read no order. -/
theorem InInit.unordered {grace : Nat} {attempt : Attempt} (hok : InInit grace w attempt)
    (hidle : attempt.step = .idle) : attempt.ordered = false :=
  eq_false_of_ne_true fun h => (hok.ordered h).2 hidle

theorem answers_changed {attempt : Attempt} (hstop : w.stop.isSome = true)
    (hunseen : w.unseen = true) (hopen : attempt.commandsOpen = true)
    (hordered : attempt.ordered = false) : Leads setup Answered ⟨w, .init attempt .changed⟩ := by
  obtain ⟨order, hstop⟩ := Option.isSome_iff_exists.mp hstop
  refine .of_poll (.here (.inl ?_))
  simp only [poll, hopen, hordered, hunseen, readCommands, hstop]
  exact start_ne_idle _ _ _ _

theorem answers_killPath {attempt : Attempt} {cause : Killer} {raise : Bool} :
    Leads setup Answered ⟨w, .killPath attempt cause raise⟩ :=
  .of_go rfl (.here (.inl nofun))

theorem answers_decideKill {attempt : Attempt} {event : AttemptEvent} {cause : Killer}
    (hchanged : Leads setup Answered ⟨w, .init attempt .changed⟩) :
    Leads setup Answered ⟨w, attempt.decideKill event cause w⟩ := by
  unfold decideKill
  split
  · exact answers_killPath
  · exact hchanged

/-- An attempt whose turn comes takes the order, from any branch of its select. -/
theorem answers_init {attempt : Attempt} {branch : Branch} (hstop : w.stop.isSome = true)
    (hunseen : w.unseen = true) (hopen : attempt.commandsOpen = true)
    (hordered : attempt.ordered = false) (hidle : attempt.step = .idle) :
    Leads setup Answered ⟨w, .init attempt branch⟩ := by
  have htimer : Leads setup Answered ⟨w, .init attempt .timer⟩ := by
    refine .of_poll ?_
    simp only [poll]
    split
    · split
      · exact answers_decideKill (answers_changed hstop hunseen hopen hordered)
      · exact answers_changed hstop hunseen hopen hordered
    · exact answers_changed hstop hunseen hopen hordered
  have hdeadline : Leads setup Answered ⟨w, .init attempt .deadline⟩ := by
    refine .of_poll ?_
    simp only [poll, hidle, LadderStep.deadline]
    exact htimer
  have hjoin : Leads setup Answered ⟨w, .init attempt .join⟩ := by
    refine .of_poll ?_
    simp only [poll]
    split
    · exact hdeadline
    · exact .here (.inr rfl)
  cases branch with
  | changed => exact answers_changed hstop hunseen hopen hordered
  | timer => exact htimer
  | deadline => exact hdeadline
  | join => exact hjoin
  | ack =>
    refine .of_poll ?_
    simp only [poll]
    split
    · split
      · exact hjoin
      · obtain ⟨order, hstop⟩ := Option.isSome_iff_exists.mp hstop
        simp only [hordered, Bool.false_eq_true, if_false, readCommands, hstop]
        exact .here (.inl (start_ne_idle _ _ _ _))
      · exact answers_decideKill (answers_changed hstop hunseen hopen hordered)
    · exact hjoin

theorem answers_runner {commandsOpen : Bool} {branch : Branch} (hstop : w.stop.isSome = true)
    (hunseen : w.unseen = true) (hopen : commandsOpen = true) :
    Leads setup Answered ⟨w, .runner .idle commandsOpen branch⟩ := by
  have hchanged : Leads setup Answered ⟨w, .runner .idle commandsOpen .changed⟩ := by
    obtain ⟨order, hstop⟩ := Option.isSome_iff_exists.mp hstop
    refine .of_pollRunner (.here (.inl ?_))
    simp only [pollRunner, hopen, hunseen, readRunner, hstop]
    exact start_ne_idle _ _ _ _
  have hjoin : Leads setup Answered ⟨w, .runner .idle commandsOpen .join⟩ := by
    refine .of_pollRunner ?_
    simp only [pollRunner]
    split
    · exact hchanged
    · exact .here (.inr rfl)
  cases branch with
  | changed => exact hchanged
  | join => exact hjoin
  | ack | deadline | timer => exact .of_pollRunner hjoin

theorem answers_runnerStart (hstop : w.stop.isSome = true) :
    Leads setup Answered ⟨w, .runnerStart⟩ := by
  obtain ⟨order, hstop⟩ := Option.isSome_iff_exists.mp hstop
  refine .of_go rfl (.here (.inl ?_))
  simp only [readRunner, hstop]
  exact start_ne_idle _ _ _ _

/-- An order in the command cell of a spawned incarnation starts the ladder, unless
the executor finds the end of the task first. -/
theorem answers_of_stop {s : State} (hsound : Sound setup s) (hspawned : s.world.spawned = true)
    (hstop : s.world.stop.isSome = true) : Leads setup Answered s := by
  obtain ⟨w, place⟩ := s
  by_cases hladder : place.ladder = .idle
  · cases hsound.phase with
    | waiting hfresh | checking hfresh | building hfresh => cases hfresh.spawned.symm.trans hspawned
    | starting =>
      obtain ⟨order, (hstop : w.stop = some order)⟩ := Option.isSome_iff_exists.mp hstop
      refine .of_go rfl (.here (.inl ?_))
      simp only [readCommands, hstop]
      exact start_ne_idle _ _ _ _
    | @init attempt _ hok =>
      have hordered := hok.unordered hladder
      obtain ⟨hunseen, hopen⟩ := (hok.heard.pending hstop).resolve_left (by simp [hordered])
      exact answers_init hstop hunseen hopen hordered hladder
    | @acked attempt hok =>
      have hordered := hok.unordered hladder
      obtain ⟨hunseen, hopen⟩ := (hok.heard.pending hstop).resolve_left (by simp [hordered])
      have hgo : go setup w (.acked attempt) = some (w.borrow, .init attempt .changed) := by
        have hkeep : attemptStep .init (.ack (attempt.ordered || w.stop.isSome) w.ended.isSome)
            (attempt.view w) ≠ .adopt := fun h => by
          have hnone := (Bool.or_eq_false_iff.mp (adopt_iff.mp h).1).2
          cases hnone.symm.trans hstop
        simp only [go, hkeep, if_false]
      exact .of_go hgo (answers_changed hstop hunseen hopen hordered)
    | killPath => exact answers_killPath
    | handed => exact .adopt (answers_runnerStart hstop)
    | runnerStart => exact answers_runnerStart hstop
    | runner _ _ hheard =>
      obtain rfl : _ = LadderStep.idle := hladder
      obtain ⟨hunseen, hopen⟩ := (hheard.pending hstop).resolve_left (by simp)
      exact answers_runner hstop hunseen hopen
    | finished => exact .here (.inr rfl)
  · exact .here (.inl hladder)

end Answers

/-! ## An acknowledged incarnation is handed over -/

/-- The attempt is still to read the acknowledgment or to act on it, no ladder has
begun, and the start timeout is not due. -/
def Unacknowledged (w : World) : Place → Prop
  | .init attempt _ => attempt.ackOpen = true ∧ attempt.step = .idle ∧
      ∀ deadline, attempt.startDeadline = some deadline → w.now < deadline
  | .acked attempt => attempt.step = .idle
  | _ => False

section Hands

variable {setup : Setup} {w : World} {attempt : Attempt}

theorem hands_acked (hstop : w.stop = none) (hordered : attempt.ordered = false)
    (hidle : attempt.step = .idle) : Leads setup (· = .handed) ⟨w, .acked attempt⟩ := by
  have hadopt : attemptStep .init (.ack (attempt.ordered || w.stop.isSome) w.ended.isSome)
      (attempt.view w) = .adopt := by
    simp [attemptStep, view, hidle, hordered, hstop, LadderStep.position]
  exact .next ⟨w.borrow.return_ .adopted, .handed, by simp only [go, hadopt, if_true], rfl⟩

theorem hands_ack (hack : w.ack = some true) (hopen : attempt.ackOpen = true)
    (hstop : w.stop = none) (hordered : attempt.ordered = false) (hidle : attempt.step = .idle) :
    Leads setup (· = .handed) ⟨w, .init attempt .ack⟩ := by
  refine .of_poll ?_
  simp only [poll, hopen, hack, hordered, readCommands, hstop, if_true,
    Bool.false_eq_true, if_false]
  exact hands_acked hstop rfl hidle

theorem hands_changed (hack : w.ack = some true) (hopen : attempt.ackOpen = true)
    (hstop : w.stop = none) (hordered : attempt.ordered = false) (hidle : attempt.step = .idle) :
    Leads setup (· = .handed) ⟨w, .init attempt .changed⟩ := by
  have hseen (w : World) (hack : w.ack = some true) (hstop : w.stop = none)
      (hseen : w.unseen = false) : Leads setup (· = .handed) ⟨w, .init attempt .changed⟩ := by
    refine .of_poll ?_
    simp only [poll, hseen, Bool.false_eq_true, if_false]
    split
    · split
      · refine .of_poll ?_
        simp only [poll, Bool.false_and, Bool.false_eq_true, if_false]
        exact hands_ack hack hopen hstop hordered hidle
      · exact hands_ack hack hopen hstop hordered hidle
    · exact hands_ack hack hopen hstop hordered hidle
  cases hunseen : w.unseen with
  | false => exact hseen w hack hstop hunseen
  | true =>
    refine .of_poll ?_
    simp only [poll, hunseen, readCommands, hstop, if_true]
    split
    · exact hseen w.update hack hstop rfl
    · exact hands_ack hack hopen hstop hordered hidle

/-- An attempt that finds the acknowledgment and no order hands the incarnation over,
from any branch of its select. -/
theorem hands_of_ack {s : State} (hsound : Sound setup s) (hawaits : Unacknowledged s.world s.place)
    (hack : s.world.ack = some true) (hstop : s.world.stop = none) (hup : s.world.ended = none) :
    Leads setup (· = .handed) s := by
  obtain ⟨w, place⟩ := s
  cases hsound.phase with
  | acked hok => exact hands_acked hstop (hok.unordered hawaits) hawaits
  | @init attempt branch hok =>
    obtain ⟨hopen, hidle, htimer⟩ := hawaits
    have hordered := hok.unordered hidle
    have hchanged := @hands_changed setup w attempt hack hopen hstop hordered hidle
    have htimed : Leads setup (· = .handed) ⟨w, .init attempt .timer⟩ := by
      refine .of_poll ?_
      simp only [poll]
      split
      next deadline hdeadline =>
        rw [decide_eq_false (Nat.not_le_of_lt (htimer deadline hdeadline)), Bool.and_false,
          if_neg (by simp)]
        exact hchanged
      · exact hchanged
    have hdue : Leads setup (· = .handed) ⟨w, .init attempt .deadline⟩ := by
      refine .of_poll ?_
      simp only [poll, hidle, LadderStep.deadline]
      exact htimed
    cases branch with
    | changed => exact hchanged
    | ack => exact hands_ack hack hopen hstop hordered hidle
    | join =>
      refine .of_poll ?_
      simp only [poll, show w.ended = none from hup]
      exact hdue
    | deadline => exact hdue
    | timer => exact htimed
  | _ => cases hawaits

end Hands

/-! ## The wait for the predecessor ends -/

/-- Nothing keeps the attempt waiting any more. -/
def WaitOver (setup : Setup) (w : World) : Prop :=
  setup.predecessor = false ∨ w.cancelOrOrder = true ∨ w.subtreeGone = true ∨
    w.subtreeExpired = true

/-- An attempt whose wait has ended calls its factory or returns. -/
theorem leads_of_waitOver {setup : Setup} {s : State} (hplace : s.place = .waiting)
    (hover : WaitOver setup s.world) :
    Leads setup (fun place => place = .building ∨ place = .finished) s := by
  obtain ⟨w, place⟩ := s
  obtain rfl : place = .waiting := hplace
  have hchecking (w : World) :
      Leads setup (fun place => place = .building ∨ place = .finished) ⟨w, .checking⟩ := by
    refine .next ?_
    simp only [go]
    split
    · exact ⟨_, _, rfl, .inr rfl⟩
    · exact ⟨_, _, rfl, .inl rfl⟩
  cases hpredecessor : setup.predecessor with
  | false => exact .of_go (by simp only [go, hpredecessor, Bool.not_false, if_true]) (hchecking w)
  | true =>
    cases haction : successorWaitStep w.subtreeGone w.cancelOrOrder w.subtreeExpired with
    | cancel | escalate =>
      refine .next ?_
      simp only [go, hpredecessor, haction]
      exact ⟨_, _, rfl, .inr rfl⟩
    | proceed => exact .of_go (by simp [go, hpredecessor, haction]) (hchecking w.update)
    | keep =>
      simp only [successorWaitStep] at haction
      rcases hover with h | h | h | h
      · cases hpredecessor.symm.trans h
      · simp [show w.cancelOrOrder = true from h] at haction
      · cases hcancel : w.cancelOrOrder <;>
          simp [hcancel, show w.subtreeGone = true from h] at haction
      · cases hcancel : w.cancelOrOrder <;> cases hgone : w.subtreeGone <;>
          simp [hcancel, hgone, show w.subtreeExpired = true from h] at haction

end TokioActors.Executor
