/-
# The phases of a restart attempt

Each place of an executor has its own facts: nothing was spawned before the check
and the factory, nothing was returned before the end or the hand-over, and an order
in the command cell was taken to the ladder or will be read by the next look at the
cell. Together they are kept by every step, whoever takes it.
-/

import TokioActors.Executor.Attempt
import TokioActors.Executor.Runner

namespace TokioActors.Executor

/-! ## What an access of the ladder or the lane leaves -/

/-- The parts of the world that neither a ladder nor a raise touches. -/
structure Same (w w' : World) : Prop where
  now : w'.now = w.now
  stop : w'.stop = w.stop
  closed : w'.closed = w.closed
  ended : w'.ended = w.ended
  spawned : w'.spawned = w.spawned
  fate : w'.fate = w.fate
  outcomes : w'.outcomes = w.outcomes
  checked : w'.checked = w.checked

namespace Same

variable {w w' w'' : World}

theorem trans (hfirst : Same w w') (hsecond : Same w' w'') : Same w w'' where
  now := hsecond.now.trans hfirst.now
  stop := hsecond.stop.trans hfirst.stop
  closed := hsecond.closed.trans hfirst.closed
  ended := hsecond.ended.trans hfirst.ended
  spawned := hsecond.spawned.trans hfirst.spawned
  fate := hsecond.fate.trans hfirst.fate
  outcomes := hsecond.outcomes.trans hfirst.outcomes
  checked := hsecond.checked.trans hfirst.checked

theorem refl (w : World) : Same w w := ⟨rfl, rfl, rfl, rfl, rfl, rfl, rfl, rfl⟩

theorem update (w : World) : Same w w.update := ⟨rfl, rfl, rfl, rfl, rfl, rfl, rfl, rfl⟩

theorem borrow (w : World) : Same w w.borrow := ⟨rfl, rfl, rfl, rfl, rfl, rfl, rfl, rfl⟩

theorem raise (w : World) (reason : StopReason) (killer : Killer) :
    Same w (w.raise reason killer) :=
  ⟨rfl, rfl, rfl, rfl, rfl, rfl, rfl, rfl⟩

theorem advance (w : World) (grace : Nat) (step : LadderStep) (event : LadderEvent) :
    Same w (w.advance grace step event).1 := by
  constructor <;> simp

theorem start (w : World) (grace : Nat) (step : LadderStep) (order : StopOrder) :
    Same w (w.start grace step order).1 := by
  constructor <;> simp [World.start]

end Same

/-! ## Orders that were written -/

/-- An order in the command cell was taken, or the cell shows it as new to a reader
that still listens; the reader stops listening only once nothing more can be written. -/
structure Heard (w : World) (taken : Prop) (commandsOpen : Bool) : Prop where
  pending : w.stop.isSome = true → taken ∨ w.unseen = true ∧ commandsOpen = true
  shut : commandsOpen = false → w.closed = true

namespace Heard

variable {w w' : World} {taken : Prop} {commandsOpen : Bool}

theorem outside (hheard : Heard w taken commandsOpen) (hframe : Outside w w') :
    Heard w' taken commandsOpen where
  pending hstop := by
    cases hold : w.stop with
    | some =>
      have hpending := hheard.pending (by rw [hold]; rfl)
      exact hpending.imp_right fun h => ⟨hframe.unseen h.1, h.2⟩
    | none =>
      obtain ⟨order, hnew⟩ := Option.isSome_iff_exists.mp hstop
      obtain ⟨hopen, -, hunseen⟩ := hframe.written hold order hnew
      refine .inr ⟨hunseen, ?_⟩
      by_contra hshut
      cases (hheard.shut (eq_false_of_ne_true hshut)).symm.trans hopen
  shut hshut := hframe.closed (hheard.shut hshut)

theorem of_taken (htaken : taken) (hshut : commandsOpen = false → w.closed = true) :
    Heard w taken commandsOpen := ⟨fun _ => .inl htaken, hshut⟩

theorem of_none (hstop : w.stop = none) (hshut : commandsOpen = false → w.closed = true) :
    Heard w taken commandsOpen where
  pending h := by rw [hstop] at h; cases h
  shut := hshut

/-- A reader that has seen all and finds the cell closed may stop listening. -/
theorem close (hheard : Heard w taken commandsOpen) (hclosed : w.closed = true)
    (hseen : w.unseen = false) : Heard w taken false where
  pending hstop := by
    refine .inl ((hheard.pending hstop).resolve_right fun h => ?_)
    cases hseen.symm.trans h.1
  shut _ := hclosed

end Heard

/-! ## The places -/

/-- Nothing was done yet for the incarnation. -/
structure Fresh (w : World) : Prop where
  spawned : w.spawned = false
  outcomes : w.outcomes = []
  fate : w.fate = none
  idle : w.armed = none ∧ w.trail = []

/-- An incarnation that was spawned and not taken to its end. -/
structure Busy (w : World) (outcomes : List RestartOutcome) : Prop where
  spawned : w.spawned = true
  checked : w.checked = some false
  outcomes : w.outcomes = outcomes
  fate : w.fate = none

/-- What holds of an attempt between the spawn and the end. -/
structure InInit (grace : Nat) (w : World) (attempt : Attempt) : Prop where
  busy : Busy w []
  ladder : Attempted grace w.armed attempt.step w.trail
  heard : Heard w (attempt.ordered = true) attempt.commandsOpen
  ordered : attempt.ordered = true → w.stop.isSome = true ∧ attempt.step ≠ .idle

structure Through (w : World) : Prop where
  one : w.outcomes.length = 1
  fate : ∀ reason, w.fate = some reason → w.ended = some reason
  spawned : w.spawned = true → w.checked = some false ∧ w.fate.isSome = true
  stopped : ∀ reason, .stopped reason ∈ w.outcomes → w.stop.isSome = true ∧ w.ended = some reason
  once : (w.trail.map Prod.snd).Nodup

inductive Phase (grace : Nat) (w : World) : Place → Prop
  | waiting (fresh : Fresh w) : Phase grace w .waiting
  | checking (fresh : Fresh w) : Phase grace w .checking
  | building (fresh : Fresh w) (checked : w.checked = some false) : Phase grace w .building
  | starting (busy : Busy w []) (idle : w.armed = none ∧ w.trail = []) : Phase grace w .starting
  | init {attempt : Attempt} {branch : Branch} (ok : InInit grace w attempt) :
      Phase grace w (.init attempt branch)
  | acked {attempt : Attempt} (ok : InInit grace w attempt) : Phase grace w (.acked attempt)
  | killPath {attempt : Attempt} {cause : Killer} {raise : Bool} (ok : InInit grace w attempt)
      (early : attempt.step = .idle ∨ ∃ window, attempt.step = .graceful window) :
      Phase grace w (.killPath attempt cause raise)
  | handed (busy : Busy w [.adopted]) (idle : w.armed = none ∧ w.trail = [])
      (read : w.readOrder = false) (heard : Heard w False true) : Phase grace w .handed
  | runnerStart (busy : Busy w [.adopted]) (idle : w.armed = none ∧ w.trail = [])
      (heard : Heard w False true) : Phase grace w .runnerStart
  | runner {step : LadderStep} {commandsOpen : Bool} {branch : Branch} (busy : Busy w [.adopted])
      (on : OnLadder grace w.armed step w.trail) (heard : Heard w (step ≠ .idle) commandsOpen) :
      Phase grace w (.runner step commandsOpen branch)
  | finished (through : Through w) : Phase grace w .finished

/-! ## Steps of the other parties -/

section Outside

variable {grace : Nat} {w w' : World}

theorem Fresh.outside (hfresh : Fresh w) (hframe : Outside w w') : Fresh w' where
  spawned := hframe.spawned.trans hfresh.spawned
  outcomes := hframe.outcomes.trans hfresh.outcomes
  fate := hframe.fate.trans hfresh.fate
  idle := ⟨hframe.armed.trans hfresh.idle.1, hframe.trail.trans hfresh.idle.2⟩

theorem Busy.outside {outcomes : List RestartOutcome} (hbusy : Busy w outcomes)
    (hframe : Outside w w') : Busy w' outcomes where
  spawned := hframe.spawned.trans hbusy.spawned
  checked := hframe.checked.trans hbusy.checked
  outcomes := hframe.outcomes.trans hbusy.outcomes
  fate := hframe.fate.trans hbusy.fate

theorem Outside.stop_isSome (hframe : Outside w w') (hstop : w.stop.isSome = true) :
    w'.stop.isSome = true := by
  obtain ⟨order, hstop⟩ := Option.isSome_iff_exists.mp hstop
  rw [hframe.stop order hstop]
  rfl

theorem InInit.outside {attempt : Attempt} (hok : InInit grace w attempt) (hframe : Outside w w') :
    InInit grace w' attempt where
  busy := hok.busy.outside hframe
  ladder := by
    rw [hframe.armed, hframe.trail]
    exact hok.ladder
  heard := hok.heard.outside hframe
  ordered hordered := (hok.ordered hordered).imp_left hframe.stop_isSome

theorem Through.outside (hthrough : Through w) (hframe : Outside w w') : Through w' where
  one := by
    rw [hframe.outcomes]
    exact hthrough.one
  fate reason hfate := hframe.ended reason (hthrough.fate reason (hframe.fate.symm.trans hfate))
  spawned hspawned := by
    rw [hframe.checked, hframe.fate]
    exact hthrough.spawned (hframe.spawned.symm.trans hspawned)
  stopped reason hmem := by
    rw [hframe.outcomes] at hmem
    exact (hthrough.stopped reason hmem).imp hframe.stop_isSome (hframe.ended reason)
  once := by
    rw [hframe.trail]
    exact hthrough.once

/-- The other parties leave every place's facts. -/
theorem Phase.outside {place : Place} (hphase : Phase grace w place) (hframe : Outside w w') :
    Phase grace w' place := by
  have hidle (h : w.armed = none ∧ w.trail = []) : w'.armed = none ∧ w'.trail = [] :=
    ⟨hframe.armed.trans h.1, hframe.trail.trans h.2⟩
  cases hphase with
  | waiting hfresh => exact .waiting (hfresh.outside hframe)
  | checking hfresh => exact .checking (hfresh.outside hframe)
  | building hfresh hchecked =>
    exact .building (hfresh.outside hframe) (hframe.checked.trans hchecked)
  | starting hbusy hnone => exact .starting (hbusy.outside hframe) (hidle hnone)
  | init hok => exact .init (hok.outside hframe)
  | acked hok => exact .acked (hok.outside hframe)
  | killPath hok hearly => exact .killPath (hok.outside hframe) hearly
  | handed hbusy hnone hread hheard =>
    exact .handed (hbusy.outside hframe) (hidle hnone) (hframe.readOrder.trans hread)
      (hheard.outside hframe)
  | runnerStart hbusy hnone hheard =>
    exact .runnerStart (hbusy.outside hframe) (hidle hnone) (hheard.outside hframe)
  | runner hbusy hon hheard =>
    refine .runner (hbusy.outside hframe) ?_ (hheard.outside hframe)
    rw [hframe.armed, hframe.trail]
    exact hon
  | finished hthrough => exact .finished (hthrough.outside hframe)

end Outside

/-! ## Steps of the executor -/

section Executor

variable {setup : Setup} {w w' : World}
variable {place' place : Place} {s : State} {order : StopOrder}

theorem Busy.same {outcomes : List RestartOutcome} (hbusy : Busy w outcomes) (hsame : Same w w') :
    Busy w' outcomes where
  spawned := hsame.spawned.trans hbusy.spawned
  checked := hsame.checked.trans hbusy.checked
  outcomes := hsame.outcomes.trans hbusy.outcomes
  fate := hsame.fate.trans hbusy.fate

theorem Dated.same (hdated : Dated w) (hsame : Same w w') : Dated w' := by
  intro order hstop
  rw [hsame.now]
  exact hdated order (hsame.stop.symm.trans hstop)

/-- The order a ladder is on is the one in the command cell. -/
def Sourced (w : World) : Prop := ∀ order, w.armed = some order → w.stop = some order

theorem Sourced.same (hsource : Sourced w) (hsame : Same w w') (harmed : w'.armed = w.armed) :
    Sourced w' := by
  intro order h
  rw [hsame.stop]
  exact hsource order (harmed.symm.trans h)

theorem Sourced.start (hsource : Sourced w) (hstop : w.stop = some order)
    (grace : Nat) (step : LadderStep) : Sourced (w.start grace step order).1 := by
  intro other harmed
  rw [(Same.start w grace step order).stop]
  by_cases hidle : step = .idle
  · simp only [World.start, hidle, if_true] at harmed
    rwa [← harmed]
  · simp only [World.start, hidle, if_false] at harmed
    exact hsource other harmed

theorem ladderStep_ne_idle {step : LadderStep} (hstarted : step ≠ .idle) (event : LadderEvent)
    (now grace : Nat) : (ladderStep step event now grace).1 ≠ .idle := by
  cases step with
  | idle => exact absurd rfl hstarted
  | graceful window => cases window <;> cases event <;> nofun
  | killGrace | abortGrace | spent => cases event <;> nofun

theorem start_ne_idle (w : World) (grace : Nat) (step : LadderStep) (order : StopOrder) :
    (w.start grace step order).2 ≠ .idle := by
  show (ladderStep step (.order order) w.now grace).1 ≠ .idle
  by_cases hidle : step = .idle
  · subst hidle
    cases hpolicy : order.policy <;> simp [ladderStep, hpolicy]
  · exact ladderStep_ne_idle hidle _ _ _

/-- An attempt that has read the order holds its facts, whatever it had heard before. -/
theorem InInit.of_read {attempt : Attempt} {order : StopOrder} (hbusy : Busy w [])
    (hladder : Attempted setup.grace w.armed attempt.step w.trail)
    (hshut : attempt.commandsOpen = false → w.closed = true) (hdated : Dated w)
    (hstop : w.stop = some order) :
    InInit setup.grace (w.update.start setup.grace attempt.step order).1
      (attempt.heed setup.grace w.update order) where
  busy := hbusy.same ((Same.update w).trans (Same.start _ _ _ _))
  ladder := Attempted.start (w := w.update) hladder (hdated order hstop)
  heard := .of_taken rfl fun h => by
    rw [(Same.start _ _ _ _).closed]
    exact hshut h
  ordered _ := by
    rw [(Same.start _ _ _ _).stop]
    exact ⟨by simp [World.update, hstop], start_ne_idle _ _ _ _⟩

theorem InInit.heed {attempt : Attempt} (hok : InInit setup.grace w attempt)
    (hdated : Dated w) (hstop : w.stop = some order) :
    InInit setup.grace (w.update.start setup.grace attempt.step order).1
      (attempt.heed setup.grace w.update order) :=
  .of_read hok.busy hok.ladder hok.heard.shut hdated hstop

theorem InInit.update {attempt : Attempt} (hok : InInit setup.grace w attempt)
    (hstop : w.stop = none) :
    InInit setup.grace w.update attempt where
  busy := hok.busy.same (Same.update w)
  ladder := hok.ladder
  heard := .of_none hstop hok.heard.shut
  ordered := hok.ordered

/-- The attempt reports `Stopped` only when there is an order. -/
theorem Attempt.outcome_stopped {attempt : Attempt} {reason other : StopReason}
    (hordered : attempt.ordered = true → w.stop.isSome = true)
    (houtcome : attempt.outcome w reason = .stopped other) :
    w.stop.isSome = true ∧ other = reason := by
  simp only [Attempt.outcome, attemptStep] at houtcome
  cases htimeout : attempt.timeoutRaised with
  | true => simp [htimeout] at houtcome
  | false =>
    cases hany : (attempt.ordered || w.stop.isSome) with
    | false => simp [htimeout, hany] at houtcome
    | true =>
      have hother : reason = other := by simpa [htimeout, hany] using houtcome
      refine ⟨?_, hother.symm⟩
      rcases Bool.or_eq_true_iff.mp hany with h | h
      · exact hordered h
      · exact h

structure Sound (setup : Setup) (s : State) : Prop where
  dated : Dated s.world
  source : Sourced s.world
  phase : Phase setup.grace s.world s.place

/-- An access that leaves the record and the ladder's order keeps what holds. -/
theorem Sound.same (hsound : Sound setup s) (hsame : Same s.world w')
    (harmed : w'.armed = s.world.armed) (hphase : Phase setup.grace w' place') :
    Sound setup ⟨w', place'⟩ :=
  ⟨hsound.dated.same hsame, hsound.source.same hsame harmed, hphase⟩

/-- An access that reads an order keeps what holds. -/
theorem Sound.start {step : LadderStep}
    (hsound : Sound setup s) (hstop : s.world.stop = some order)
    (hphase : Phase setup.grace (s.world.update.start setup.grace step order).1 place') :
    Sound setup ⟨(s.world.update.start setup.grace step order).1, place'⟩ :=
  ⟨hsound.dated.same ((Same.update _).trans (Same.start _ _ _ _)),
    Sourced.start (hsound.source.same (Same.update _) rfl) hstop _ _, hphase⟩

theorem Sound.attempt {attempt : Attempt} (hsound : Sound setup ⟨w, place⟩)
    (hok : InInit setup.grace w attempt) (hmove : AttemptMove setup w attempt (w', place')) :
    Sound setup ⟨w', place'⟩ := by
  cases hmove with
  | pass => exact hsound.same (Same.refl w) rfl (.init hok)
  | read order hstop => exact hsound.start hstop (.init (hok.heed hsound.dated hstop))
  | readNothing hstop => exact hsound.same (Same.update w) rfl (.init (hok.update hstop))
  | closed hclosed hseen =>
    exact hsound.same (Same.refl w) rfl
      (.init ⟨hok.busy, hok.ladder, hok.heard.close hclosed hseen, hok.ordered⟩)
  | ackOrdered =>
    exact hsound.same (Same.refl w) rfl (.acked ⟨hok.busy, hok.ladder, hok.heard, hok.ordered⟩)
  | ackRead order hstop =>
    have hacked : InInit setup.grace w { attempt with ackOpen := false, acked := true } :=
      ⟨hok.busy, hok.ladder, hok.heard, hok.ordered⟩
    exact hsound.start hstop (.acked (hacked.heed hsound.dated hstop))
  | ackNothing hstop =>
    have hread := hok.update hstop
    exact hsound.same (Same.update w) rfl
      (.acked ⟨hread.busy, hread.ladder, hread.heard, hread.ordered⟩)
  | initFailed | timerLate =>
    exact hsound.same (Same.refl w) rfl (.init ⟨hok.busy, hok.ladder, hok.heard, hok.ordered⟩)
  | initEnded _ hoff =>
    exact hsound.same (Same.refl w) rfl
      (.killPath ⟨hok.busy, hok.ladder, hok.heard, hok.ordered⟩ (.inl hoff))
  | timerFired _ _ hearly =>
    exact hsound.same (Same.refl w) rfl
      (.killPath ⟨hok.busy, hok.ladder, hok.heard, hok.ordered⟩ hearly)
  | ended reason hended =>
    have hthrough : Through
        { ((w.advance setup.grace attempt.step .taskEnded).1.borrow.return_
            (attempt.outcome w reason)) with fate := some reason } := by
      refine ⟨?_, ?_, ?_, ?_, ?_⟩
      · simp [World.return_, World.borrow, hok.busy.outcomes]
      · rintro other ⟨⟩
        simpa [World.return_, World.borrow] using hended
      · intro _
        refine ⟨?_, rfl⟩
        simpa [World.return_, World.borrow] using hok.busy.checked
      · intro other hmem
        have houtcome : attempt.outcome w reason = .stopped other := by
          simpa [World.return_, World.borrow, hok.busy.outcomes, eq_comm] using hmem
        obtain ⟨hstop, rfl⟩ := Attempt.outcome_stopped (fun h => (hok.ordered h).1) houtcome
        simpa [World.return_, World.borrow] using And.intro hstop hended
      · simpa [World.return_, World.borrow, Trail.add] using hok.ladder.nodup_release w.now
    refine ⟨?_, ?_, .finished hthrough⟩
    · simpa [Dated, World.return_, World.borrow] using hsound.dated
    · simpa [Sourced, World.return_, World.borrow] using hsound.source
  | due deadline harmed hdue =>
    have hsame := Same.advance w setup.grace attempt.step .deadlineReached
    refine hsound.same hsame (by simp) (.init
      ⟨hok.busy.same hsame, hok.ladder.deadline harmed hdue, ?_, ?_⟩)
    · exact ⟨by simpa using hok.heard.pending, by simpa using hok.heard.shut⟩
    · intro hordered
      obtain ⟨hstop, hstarted⟩ := hok.ordered hordered
      exact ⟨by simpa using hstop, ladderStep_ne_idle hstarted _ _ _⟩

theorem Sound.runner {step : LadderStep} {commandsOpen : Bool}
    (hsound : Sound setup ⟨w, place⟩) (hbusy : Busy w [.adopted])
    (hon : OnLadder setup.grace w.armed step w.trail) (hheard : Heard w (step ≠ .idle) commandsOpen)
    (hmove : RunnerMove setup w step commandsOpen (w', place')) : Sound setup ⟨w', place'⟩ := by
  cases hmove with
  | pass => exact hsound.same (Same.refl w) rfl (.runner hbusy hon hheard)
  | read order hstop hidle =>
    subst hidle
    have hsame := (Same.update w).trans (Same.start w.update setup.grace .idle order)
    refine hsound.start hstop (.runner (hbusy.same hsame) ?_ ?_)
    · exact OnLadder.start (w := w.update) hon (hsound.dated order hstop)
    · exact .of_taken (start_ne_idle _ _ _ _) fun hshut => hsame.closed.trans (hheard.shut hshut)
  | readNothing hstop =>
    exact hsound.same (Same.update w) rfl
      (.runner (hbusy.same (Same.update w)) hon (.of_none hstop hheard.shut))
  | closed hclosed hseen =>
    exact hsound.same (Same.refl w) rfl (.runner hbusy hon (hheard.close hclosed hseen))
  | due deadline harmed hdue =>
    have hsame := Same.advance w setup.grace step .deadlineReached
    refine hsound.same hsame (by simp) (.runner (hbusy.same hsame) (hon.deadline harmed hdue) ?_)
    have hstarted : step ≠ .idle := by
      rintro rfl
      cases harmed
    exact .of_taken (ladderStep_ne_idle hstarted _ _ _) fun hshut =>
      hsame.closed.trans (hheard.shut hshut)
  | ended reason hended =>
    have hthrough :
        Through { (w.advance setup.grace step .taskEnded).1 with fate := some reason } := by
      refine ⟨?_, ?_, ?_, ?_, ?_⟩
      · simp [hbusy.outcomes]
      · rintro other ⟨⟩
        simpa using hended
      · intro _
        exact ⟨by simpa using hbusy.checked, rfl⟩
      · intro other hmem
        simp [hbusy.outcomes] at hmem
      · simpa [Trail.add] using (Attempted.ladder hon).nodup_release w.now
    refine ⟨?_, ?_, .finished hthrough⟩
    · simpa [Dated] using hsound.dated
    · simpa [Sourced] using hsound.source

/-- An attempt that ends before the spawn. -/
theorem Fresh.through {outcome : RestartOutcome} (hfresh : Fresh w)
    (houtcomes : w'.outcomes = w.outcomes ++ [outcome]) (hspawned : w'.spawned = w.spawned)
    (hfate : w'.fate = w.fate) (htrail : w'.trail = w.trail)
    (hstopped : ∀ reason, outcome ≠ .stopped reason) : Through w' where
  one := by simp [houtcomes, hfresh.outcomes]
  fate reason h := by cases (hfate.trans hfresh.fate).symm.trans h
  spawned h := by cases (hspawned.trans hfresh.spawned).symm.trans h
  stopped reason hmem := by
    rw [houtcomes, hfresh.outcomes] at hmem
    exact absurd (List.mem_singleton.mp hmem).symm (hstopped reason)
  once := by simp [htrail, hfresh.idle.2]

theorem Sound.starting {attempt : Attempt} (hsound : Sound setup ⟨w, place⟩)
    (hbusy : Busy w []) (hidle : w.armed = none ∧ w.trail = []) (hstep : attempt.step = .idle)
    (hordered : attempt.ordered = false) (hopen : attempt.commandsOpen = true) :
    Sound setup ⟨(attempt.readCommands setup w).1,
      .init (attempt.readCommands setup w).2 .changed⟩ := by
  unfold Attempt.readCommands
  have hladder : Attempted setup.grace w.armed attempt.step w.trail := by
    rw [hidle.1, hidle.2, hstep]
    exact .ladder .idle
  have hshut {P : Prop} (h : attempt.commandsOpen = false) : P := by
    cases hopen.symm.trans h
  cases hstop : w.stop with
  | none =>
    have hok : InInit setup.grace w attempt :=
      ⟨hbusy, hladder, .of_none hstop hshut, fun h => by cases hordered.symm.trans h⟩
    exact hsound.same (Same.update w) rfl (.init (hok.update hstop))
  | some => exact hsound.start hstop (.init (.of_read hbusy hladder hshut hsound.dated hstop))

/-- An acknowledged incarnation is handed over only without an order and with the
ladder off. -/
theorem adopt_iff {ordered ended : Bool} {view : AttemptView} :
    attemptStep .init (.ack ordered ended) view = .adopt ↔ ordered = false ∧
      view.ladder = .off := by
  simp [attemptStep]

theorem Sound.go (hsound : Sound setup ⟨w, place⟩)
    (htaken : go setup w place = some (w', place')) : Sound setup ⟨w', place'⟩ := by
  cases hsound.phase with
  | waiting hfresh =>
    simp only [Executor.go] at htaken
    split at htaken
    · cases htaken
      exact hsound.same (Same.refl w) rfl (.checking hfresh)
    · split at htaken
      · cases htaken
        exact ⟨hsound.dated, hsound.source, .finished
          (hfresh.through rfl rfl rfl rfl (by rintro _ ⟨⟩))⟩
      · cases htaken
        exact hsound.same (Same.update w) rfl (.checking ⟨hfresh.1, hfresh.2, hfresh.3, hfresh.4⟩)
      · cases htaken
        exact ⟨hsound.dated, hsound.source, .finished
          (hfresh.through rfl rfl rfl rfl (by rintro _ ⟨⟩))⟩
      · cases htaken
        exact hsound.same (Same.update w) rfl (.waiting ⟨hfresh.1, hfresh.2, hfresh.3, hfresh.4⟩)
  | checking hfresh =>
    simp only [Executor.go] at htaken
    split at htaken
    · cases htaken
      exact ⟨hsound.dated, hsound.source, .finished
        (hfresh.through rfl rfl rfl rfl (by rintro _ ⟨⟩))⟩
    · rename_i hclear
      cases htaken
      refine ⟨hsound.dated, hsound.source, .building ⟨hfresh.1, hfresh.2, hfresh.3, hfresh.4⟩ ?_⟩
      cases hread : w.cancelOrOrder with
      | true => simp [attemptStep, hread] at hclear
      | false => rfl
  | building | handed | finished => cases htaken
  | starting hbusy hidle =>
    cases htaken
    exact hsound.starting hbusy hidle rfl rfl rfl
  | init hok => exact hsound.attempt hok (Option.some.inj htaken ▸ move_of_poll setup w _ _)
  | @acked attempt hok =>
    simp only [Executor.go] at htaken
    split at htaken
    · rename_i hadopt
      cases htaken
      obtain ⟨hclear, hoff⟩ := adopt_iff.mp hadopt
      have hstop : w.stop = none :=
        Option.not_isSome_iff_eq_none.mp (Bool.eq_false_iff.mp (Bool.or_eq_false_iff.mp hclear).2)
      have hladder := hok.ladder
      rw [position_off hoff] at hladder
      refine ⟨hsound.dated, hsound.source, .handed ?_ hladder.onLadder.of_idle ?_ ?_⟩
      · exact ⟨hok.busy.spawned, hok.busy.checked, congrArg (· ++ [_]) hok.busy.outcomes,
          hok.busy.fate⟩
      · simp [World.return_, World.borrow, hstop]
      · exact .of_none hstop (by rintro ⟨⟩)
    · cases htaken
      exact hsound.same (Same.borrow w) rfl
        (.init ⟨hok.busy.same (Same.borrow w), hok.ladder, ⟨hok.heard.pending, hok.heard.shut⟩,
          hok.ordered⟩)
  | @killPath attempt cause raise hok hearly =>
    cases htaken
    have hsame : Same w (if raise then w.raise .kill cause else w) := by
      cases raise
      · exact Same.refl w
      · exact Same.raise w .kill cause
    have hrecord : (if raise then w.raise .kill cause else w).armed = w.armed ∧
        (if raise then w.raise .kill cause else w).trail = w.trail ∧
        (if raise then w.raise .kill cause else w).unseen = w.unseen := by
      cases raise <;> exact ⟨rfl, rfl, rfl⟩
    obtain ⟨harmed, htrail, hunseen⟩ := hrecord
    refine hsound.same hsame harmed (.init ⟨hok.busy.same hsame, ?_, ?_, ?_⟩)
    · rw [harmed, htrail]
      exact hok.ladder.kill hearly _
    · refine ⟨?_, ?_⟩
      · rw [hsame.stop, hunseen]
        exact hok.heard.pending
      · rw [hsame.closed]
        exact hok.heard.shut
    · rw [hsame.stop]
      exact fun hordered => ⟨(hok.ordered hordered).1, (by rintro ⟨⟩)⟩
  | runnerStart hbusy hidle hheard =>
    cases htaken
    have hon : OnLadder setup.grace w.armed .idle w.trail := by
      rw [hidle.1, hidle.2]
      exact .idle
    have hheard' : Heard w (LadderStep.idle ≠ .idle) true :=
      ⟨fun hstop => .inr ((hheard.pending hstop).resolve_left id), hheard.shut⟩
    exact hsound.runner hbusy hon hheard' (move_of_readRunner setup w true)
  | runner hbusy hon hheard =>
    exact hsound.runner hbusy hon hheard (Option.some.inj htaken ▸ move_of_pollRunner setup w _ _ _)

theorem Sound.step {s' : State} {input : Input} (hsound : Sound setup s)
    (htaken : Executor.step setup s input = some s') : Sound setup s' := by
  cases move_of_step htaken with
  | outside hframe =>
    refine ⟨hsound.dated.outside hframe, ?_, hsound.phase.outside hframe⟩
    intro order harmed
    exact hframe.stop order (hsound.source order (hframe.armed.symm.trans harmed))
  | go hgo => exact hsound.go hgo
  | built =>
    cases hsound.phase with
    | building hfresh hchecked =>
      exact ⟨hsound.dated, hsound.source,
        .starting ⟨rfl, hchecked, hfresh.outcomes, hfresh.fate⟩ hfresh.idle⟩
  | buildFails | specGone =>
    cases hsound.phase with
    | building hfresh =>
      exact ⟨hsound.dated, hsound.source, .finished (hfresh.through rfl rfl rfl rfl nofun)⟩
  | adopt =>
    cases hsound.phase with
    | handed hbusy hidle hread hheard =>
      exact ⟨hsound.dated, hsound.source, .runnerStart hbusy hidle hheard⟩

/-- What holds of a restart attempt, in every state it reaches. -/
theorem sound_of_reaches {allowed : State → Input → Prop}
    (hreach : Reaches setup allowed s) : Sound setup s := by
  have hempty : Dated init.world ∧ Sourced init.world :=
    ⟨fun _ hstop => (nomatch hstop), fun _ harmed => (nomatch harmed)⟩
  refine hreach.invariant ⟨hempty.1, hempty.2, .waiting ⟨rfl, rfl, rfl, rfl, rfl⟩⟩ ?_
  exact fun _ _ _ hsound _ htaken => hsound.step htaken

end Executor

end TokioActors.Executor
