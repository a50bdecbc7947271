/-
# The ladder of a runner

A runner starts its ladder from the order it finds at its start or that is written
later, and climbs it as the deadlines are reached. Every run's actions are a part of
the ladder, in its order, each after the time its policy gives, and the end of the
task adds nothing but the release of the mark.

A window or a grace counts for at most `farFuture`, the most a timer is set to.
-/

import TokioActors.Executor.Frame

namespace TokioActors.Executor

open Machine

/-! ## One poll -/

inductive RunnerMove (setup : Setup) (w : World) (step : LadderStep) (commandsOpen : Bool) :
    World × Place → Prop
  | ended (reason : StopReason) (ended : w.ended = some reason) :
      RunnerMove setup w step commandsOpen
        ({ (w.advance setup.grace step .taskEnded).1 with fate := some reason }, .finished)
  | read (order : StopOrder) (stop : w.stop = some order) (idle : step = .idle) :
      RunnerMove setup w step commandsOpen
        ((w.update.start setup.grace step order).1,
          .runner (w.update.start setup.grace step order).2 commandsOpen .join)
  | readNothing (stop : w.stop = none) :
      RunnerMove setup w step commandsOpen (w.update, .runner step commandsOpen .join)
  | closed (closed : w.closed = true) (seen : w.unseen = false) :
      RunnerMove setup w step commandsOpen (w, .runner step false .join)
  | due (deadline : Nat) (armed : step.deadline = some deadline) (due : deadline ≤ w.now) :
      RunnerMove setup w step commandsOpen
        ((w.advance setup.grace step .deadlineReached).1,
          .runner (w.advance setup.grace step .deadlineReached).2 commandsOpen .join)
  | pass (branch : Branch) :
      RunnerMove setup w step commandsOpen (w, .runner step commandsOpen branch)

theorem move_of_readRunner (setup : Setup) (w : World) (commandsOpen : Bool) :
    RunnerMove setup w .idle commandsOpen
      ((readRunner setup w .idle).1, .runner (readRunner setup w .idle).2 commandsOpen .join) := by
  unfold readRunner
  cases hstop : w.stop with
  | none => exact .readNothing hstop
  | some order => exact .read order hstop rfl

theorem move_of_pollRunner (setup : Setup) (w : World) (step : LadderStep) (commandsOpen : Bool)
    (branch : Branch) :
    RunnerMove setup w step commandsOpen (pollRunner setup w step commandsOpen branch) := by
  have hdeadline : RunnerMove setup w step commandsOpen
      (pollRunner setup w step commandsOpen .deadline) := by
    simp only [pollRunner]
    split
    · rename_i deadline harmed
      split
      · exact .due deadline harmed ‹_›
      · exact .pass .join
    · exact .pass .join
  cases branch with
  | join =>
    simp only [pollRunner]
    split
    · exact .pass .changed
    · exact .ended _ ‹_›
  | changed =>
    simp only [pollRunner]
    split
    · rename_i hlistens
      have hidle : step = .idle := beq_iff_eq.mp (Bool.and_eq_true_iff.mp hlistens).2
      split
      · subst hidle
        exact move_of_readRunner setup w commandsOpen
      · rename_i hseen
        split
        · exact .closed ‹_› (eq_false_of_ne_true hseen)
        · exact .pass .deadline
    · exact .pass .deadline
  | ack | deadline | timer => exact hdeadline

/-! ## The run -/

/-- What a runner's ladder has done, from the start of the runner on. -/
inductive Running (grace : Nat) (w : World) : Place → Prop
  | start (fresh : OnLadder grace w.armed .idle w.trail) : Running grace w .runnerStart
  | ladder {step : LadderStep} (commandsOpen : Bool) (branch : Branch)
      (on : OnLadder grace w.armed step w.trail) :
      Running grace w (.runner step commandsOpen branch)
  | ended {step : LadderStep} {acts : Trail} {t : Nat} (on : OnLadder grace w.armed step acts)
      (trail : w.trail = acts ++ [(t, .releaseMark)]) : Running grace w .finished

structure RunnerOk (setup : Setup) (s : State) : Prop where
  dated : Dated s.world
  source : ∀ order, s.world.armed = some order → s.world.stop = some order
  running : Running setup.grace s.world s.place

theorem Running.outside {grace : Nat} {w w' : World} {place : Place}
    (hrunning : Running grace w place)
    (hframe : Outside w w') : Running grace w' place := by
  cases hrunning with
  | start => exact .start (by rwa [hframe.armed, hframe.trail])
  | ladder => exact .ladder _ _ (by rwa [hframe.armed, hframe.trail])
  | ended hon htrail => exact .ended (by rwa [hframe.armed]) (hframe.trail.trans htrail)

variable {setup : Setup}

theorem RunnerOk.move {w : World} {place place' : Place} {w' : World} {step : LadderStep}
    {commandsOpen : Bool} (hok : RunnerOk setup ⟨w, place⟩)
    (hon : OnLadder setup.grace w.armed step w.trail)
    (hmove : RunnerMove setup w step commandsOpen (w', place')) : RunnerOk setup ⟨w', place'⟩ := by
  cases hmove with
  | ended =>
    refine ⟨?_, ?_, ?_⟩
    · simpa [Dated] using hok.dated
    · simpa using hok.source
    · refine .ended (by simpa using hon) (t := w.now) ?_
      simp [Trail.add]
  | read order hstop hidle =>
    subst hidle
    refine ⟨?_, ?_, ?_⟩
    · intro other hother
      simpa [World.start, World.update] using hok.dated other
        (by simpa [World.start, World.update] using hother)
    · intro other hother
      simpa [World.start, World.update, hstop] using hother
    · exact .ladder _ _ (OnLadder.start hon (hok.dated order hstop))
  | readNothing | closed | pass => exact ⟨hok.dated, hok.source, .ladder _ _ hon⟩
  | due deadline harmed hdue =>
    refine ⟨?_, ?_, .ladder _ _ (hon.deadline harmed hdue)⟩
    · simpa [Dated] using hok.dated
    · simpa using hok.source

theorem RunnerOk.step {s s' : State} {input : Input} (hok : RunnerOk setup s)
    (htaken : Executor.step setup s input = some s') : RunnerOk setup s' := by
  cases move_of_step htaken with
  | outside hframe =>
    refine ⟨hok.dated.outside hframe, ?_, hok.running.outside hframe⟩
    intro order harmed
    rw [hframe.armed] at harmed
    exact hframe.stop order (hok.source order harmed)
  | go hgo =>
    cases hok.running with
    | start hfresh =>
      cases hgo
      exact hok.move hfresh (move_of_readRunner setup _ true)
    | ladder commandsOpen branch hon =>
      exact hok.move hon (Option.some.inj hgo ▸ move_of_pollRunner setup _ _ commandsOpen branch)
    | ended => cases hgo
  | built | buildFails | specGone | adopt => cases hok.running

/-- Nothing is done any more once the runner has ended. -/
def EndedWith (trail : Trail) (s : State) : Prop := s.place = .finished ∧ s.world.trail = trail

theorem EndedWith.step {trail : Trail} {s s' : State} {input : Input} (hended : EndedWith trail s)
    (htaken : Executor.step setup s input = some s') : EndedWith trail s' := by
  obtain ⟨hplace, htrail⟩ := hended
  cases move_of_step htaken with
  | outside hframe => exact ⟨hplace, hframe.trail.trans htrail⟩
  | go hgo =>
    cases hplace
    cases hgo
  | built | buildFails | specGone | adopt => cases hplace

/-! ## What the run shows -/

/-- What a ladder started from an order may have done, and when. -/
structure Orderly (grace : Nat) (order : StopOrder) (acts : Trail) : Prop where
  /-- The actions are a part of first signal, `Kill`, abort, verdict, in this order. -/
  rungs : (acts.map Prod.snd).Sublist
    [.raise (firstSignal order.policy), .raise .kill, .abort, .writeVerdict]
  once : (acts.map Prod.snd).Nodup
  kill : ∀ window t, order.policy = .timeout window → (t, .raise .kill) ∈ acts →
    order.issuedAt + min window farFuture ≤ t
  /-- The `Kill` is the ladder's own or the one the order was issued with. -/
  abort : ∀ t, (t, .abort) ∈ acts →
    ∃ killed, killed + min grace farFuture ≤ t ∧
      ((killed, .raise .kill) ∈ acts ∨
        order.policy = .kill ∧ order.initialRaised = true ∧ killed = order.issuedAt)
  verdict : ∀ t, (t, .writeVerdict) ∈ acts →
    ∃ aborted, aborted + abortSettle ≤ t ∧ (aborted, .abort) ∈ acts
  infinity : order.policy = .infinity → ∀ act ∈ acts, act.2 = .raise (firstSignal .infinity)

theorem rungs_sublist (order : StopOrder) :
    (rungs order).Sublist [.raise (firstSignal order.policy), .raise .kill, .abort,
      .writeVerdict] := by
  cases hpolicy : order.policy <;> simp [rungs, hpolicy, firstSignal]

theorem Climb.orderly {grace : Nat} {order : StopOrder} {step : LadderStep} {acts : Trail}
    (hclimb : Climb grace order step acts) : Orderly grace order acts where
  rungs := hclimb.sublist.trans (rungs_sublist order)
  once := hclimb.sublist.nodup (nodup_rungs order)
  kill _ _ hpolicy hmem := hclimb.kill_time hpolicy hmem
  abort _ hmem := hclimb.abort_time hmem
  verdict _ hmem := hclimb.verdict_time hmem
  infinity hpolicy act hmem := by
    have hrung := hclimb.sublist.subset (List.mem_map_of_mem hmem)
    simpa [Executor.rungs, hpolicy] using hrung

/-- What a runner's ladder did for the order it was started from, if there was one. -/
def Did (grace : Nat) (w : World) (acts : Trail) : Prop :=
  match w.armed with
  | none => acts = []
  | some order => w.stop = some order ∧ Orderly grace order acts

theorem RunnerOk.did {s : State} {step : LadderStep} {acts : Trail} (hok : RunnerOk setup s)
    (hon : OnLadder setup.grace s.world.armed step acts) : Did setup.grace s.world acts := by
  unfold Did
  have hsource := hok.source
  generalize s.world.armed = armed at hon hsource ⊢
  cases hon with
  | idle => rfl
  | climb hclimb => exact ⟨hsource _ rfl, hclimb.orderly⟩

/-- Whatever the events, a runner's ladder does a part of its rungs, each in its time;
the end of the task adds the release of the mark, and nothing comes after it. -/
theorem runner_climbs {setup : Setup} {w : World} {s : State} (harmed : w.armed = none)
    (htrail : w.trail = []) (hdated : Dated w)
    (hreach : Machine.Reaches (step setup) always ⟨w, .runnerStart⟩ s) :
    ∃ acts, Did setup.grace s.world acts ∧
      (s.place ≠ .finished ∧ s.world.trail = acts ∨
        s.place = .finished ∧ ∃ t, s.world.trail = acts ++ [(t, .releaseMark)] ∧
          ∀ s', Machine.Reaches (step setup) always s s' →
            s'.world.trail = s.world.trail) := by
  have hstart : RunnerOk setup ⟨w, .runnerStart⟩ := by
    refine ⟨hdated, fun order h => ?_, .start ?_⟩
    · cases harmed.symm.trans h
    · rw [harmed, htrail]
      exact .idle
  have hok : RunnerOk setup s := hreach.invariant hstart fun _ _ _ hold _ htaken => hold.step htaken
  obtain ⟨world, place⟩ := s
  cases hok.running with
  | start hfresh => exact ⟨_, hok.did hfresh, .inl ⟨nofun, rfl⟩⟩
  | ladder commandsOpen branch hon => exact ⟨_, hok.did hon, .inl ⟨nofun, rfl⟩⟩
  | @ended _ acts t hon hends =>
    refine ⟨acts, hok.did hon, .inr ⟨rfl, t, hends, ?_⟩⟩
    intro s' hlater
    have hended : EndedWith world.trail s' :=
      hlater.invariant ⟨rfl, rfl⟩ fun _ _ _ hold _ htaken => hold.step htaken
    exact hended.2

/-- A runner of an incarnation that has just been handed over. -/
def handedOver (stop : Option StopOrder) : State :=
  ⟨{ spawned := true, stop := stop, unseen := stop.isSome }, .runnerStart⟩

/-- What the runner polls in one turn of its loop, up to its deadline. -/
def turn : List Input := [.go, .go, .go]

/-- A ladder that is climbed to its top before the task ends. -/
def fullClimb : List Input :=
  [.go, .writeOrder (.timeout 5) 0 false] ++ turn ++ [.tick 5] ++ turn ++ [.tick 3] ++ turn ++
    [.tick abortSettle] ++ turn ++ [.endTask .kill] ++ turn

theorem fullClimb_goes :
    (run (step ⟨false, none, 3⟩) (handedOver none) fullClimb).isSome = true := by
  decide +kernel

/-- The ladder of a runner that goes all the way, step by step. -/
theorem runner_climbs_fullClimb :
    ∃ s, run (step ⟨false, none, 3⟩) (handedOver none) fullClimb = some s ∧
      s.world.trail =
        [(0, .raise .parentRequest), (5, .raise .kill), (8, .abort),
          (8 + abortSettle, .writeVerdict),
          (8 + abortSettle, .releaseMark)] ∧
      ∃ acts, Did 3 s.world acts ∧
        (s.place ≠ .finished ∧ s.world.trail = acts ∨
          s.place = .finished ∧ ∃ t, s.world.trail = acts ++ [(t, .releaseMark)] ∧
            ∀ s', Machine.Reaches (step ⟨false, none, 3⟩) always s s' →
              s'.world.trail = s.world.trail) := by
  refine ⟨_, (Option.some_get fullClimb_goes).symm, by decide +kernel, ?_⟩
  have hdated : Dated (handedOver none).world := fun _ hstop => nomatch hstop
  exact @runner_climbs ⟨false, none, 3⟩ _ _ rfl rfl hdated (reaches_get fullClimb_goes)

/-- A window one nanosecond longer than the far future. -/
def longWindow : StopOrder := ⟨.timeout (farFuture + 1), 0, false⟩

theorem longWindow_goes :
    (run (step ⟨false, none, 0⟩) (handedOver (some longWindow))
      ([.go, .tick farFuture] ++ turn)).isSome = true := by
  decide +kernel

/-- A window beyond the far future is cut to it: its `Kill` comes before it has passed. -/
theorem kill_before_longWindow :
    ∃ s, Machine.Reaches (step ⟨false, none, 0⟩) always (handedOver (some longWindow)) s ∧
      s.world.armed = some longWindow ∧
      ∃ t, (t, .raise .kill) ∈ s.world.trail ∧ t < longWindow.issuedAt + (farFuture + 1) :=
  ⟨_, reaches_get longWindow_goes, by decide +kernel, farFuture, by decide +kernel,
    by decide⟩

end TokioActors.Executor
