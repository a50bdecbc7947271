/-
# Who failed a start

An attempt whose start timeout passes reads the lane, and raises `Kill` when it held
none. The report at the end goes by that read: it names the start timeout whenever
the lane held no `Kill` at the read, whatever the raise was told. In the runs where
the lane still takes the `Kill` as its first one, the report names the start timeout
exactly when its `Kill` was the first; a run in which the initialization failed by
itself and had sealed its lane shows that the read alone is not enough.
-/

import TokioActors.Executor.Outcome

namespace TokioActors.Executor

/-! ## The first `Kill` -/

section First

variable {w w' : World}

/-- The `Kill` of the start timeout was the first the lane took. -/
def TimeoutFirst (w : World) : Prop := w.kills.head? = some .startTimeout

instance (w : World) : Decidable (TimeoutFirst w) := inferInstanceAs (Decidable (_ = _))

theorem not_timeoutFirst (hnot : .startTimeout ∉ w.kills) : ¬ TimeoutFirst w := by
  intro hfirst
  exact hnot (List.mem_of_head? hfirst)

theorem Adds.not_mem (hadds : Adds w w') (hnot : .startTimeout ∉ w.kills) :
    .startTimeout ∉ w'.kills := by
  obtain ⟨added, hkills, hadded⟩ := hadds.kills
  rw [hkills, List.mem_append]
  exact not_or.mpr ⟨hnot, hadded⟩

/-- Other parties' `Kill`s do not change whether the start timeout's was the first. -/
theorem Adds.timeoutFirst (hadds : Adds w w') : TimeoutFirst w' ↔ TimeoutFirst w := by
  obtain ⟨added, hkills, hadded⟩ := hadds.kills
  unfold TimeoutFirst
  rw [hkills]
  cases hold : w.kills with
  | cons => rfl
  | nil =>
    simp only [List.nil_append, List.head?_nil, reduceCtorEq, iff_false]
    intro hhead
    exact hadded (List.mem_of_head? hhead)

end First

/-! ## What the flag of the start timeout says -/

/-- The flag of an attempt says whose `Kill` was the first, and the timer that was not
spent has raised none. -/
structure Timed (w : World) (attempt : Attempt) : Prop where
  raised : attempt.timeoutRaised = true ↔ TimeoutFirst w
  pending : attempt.timerPending = true → .startTimeout ∉ w.kills

theorem Timed.adds {w w' : World} {attempt attempt' : Attempt} (htimed : Timed w attempt)
    (hadds : Adds w w') (hraised : attempt'.timeoutRaised = attempt.timeoutRaised)
    (hpending : attempt'.timerPending = true → attempt.timerPending = true) :
    Timed w' attempt' where
  raised := by
    rw [hraised, hadds.timeoutFirst]
    exact htimed.raised
  pending h := hadds.not_mem (htimed.pending (hpending h))

/-- The report of an attempt whose incarnation ended with this reason. -/
def Reported (w : World) (reason : StopReason) : Prop :=
  if TimeoutFirst w then w.outcomes = [.failed (.failure (.spawn .startTimeout))]
  else w.outcomes = [.failed reason] ∨ w.outcomes = [.stopped reason]

/-- A start timeout that was decided on has raised nothing yet. -/
structure Deciding (w : World) (attempt : Attempt) (raise : Bool) : Prop where
  none : .startTimeout ∉ w.kills
  flag : attempt.timeoutRaised = raise
  spent : attempt.timerPending = false

def TimedAt (w : World) : Place → Prop
  | .waiting | .checking | .building | .starting => .startTimeout ∉ w.kills
  | .init attempt _ => Timed w attempt
  | .acked attempt => Timed w attempt
  | .killPath attempt cause raise =>
    if cause = .startTimeout then Deciding w attempt raise else Timed w attempt
  | .handed | .runnerStart | .runner _ _ _ => True
  | .finished =>
    w.spawned = true → w.outcomes = [.adopted] ∨
      ∃ reason, w.ended = some reason ∧ Reported w reason

/-- What holds in runs whose start timeout is the first to kill. -/
structure Fair (s : State) : Prop where
  held : KillsHeld s.world
  timed : TimedAt s.world s.place

theorem TimedAt.outside {w w' : World} {place : Place} (htimed : TimedAt w place)
    (hframe : Outside w w') : TimedAt w' place := by
  have hadds := hframe.kills
  cases place with
  | waiting | checking | building | starting => exact hadds.not_mem htimed
  | init | acked => exact Timed.adds htimed hadds rfl id
  | killPath attempt cause raise =>
    simp only [TimedAt] at htimed ⊢
    split at htimed
    · rename_i hcause
      rw [if_pos hcause]
      exact ⟨hadds.not_mem htimed.none, htimed.flag, htimed.spent⟩
    · rename_i hother
      rw [if_neg hother]
      exact htimed.adds hadds rfl id
  | handed | runnerStart | runner => trivial
  | finished =>
    intro hspawned
    refine (htimed (hframe.spawned.symm.trans hspawned)).imp (hframe.outcomes.trans ·) ?_
    rintro ⟨reason, hended, hreport⟩
    refine ⟨reason, hframe.ended _ hended, ?_⟩
    unfold Reported at hreport ⊢
    simp only [hadds.timeoutFirst, hframe.outcomes]
    exact hreport

/-! ## One access -/

section Access

variable {setup : Setup} {w w' : World} {place' : Place}

/-- The report of an attempt by its flag. -/
theorem Timed.reported {attempt : Attempt} (htimed : Timed w attempt) (hadds : Adds w w')
    (reason : StopReason) (houtcomes : w'.outcomes = [attempt.outcome w reason]) :
    Reported w' reason := by
  unfold Reported
  simp only [hadds.timeoutFirst, ← htimed.raised, houtcomes]
  simp only [Attempt.outcome, attemptStep]
  cases attempt.timeoutRaised with
  | true => simp
  | false => cases attempt.ordered || w.stop.isSome <;> simp

theorem Fair.attempt {attempt : Attempt} (hheld : KillsHeld w) (htimed : Timed w attempt)
    (hfresh : w.outcomes = []) (hmove : AttemptMove setup w attempt (w', place')) :
    Fair ⟨w', place'⟩ := by
  have hkeep {attempt' : Attempt} (hraised : attempt'.timeoutRaised = attempt.timeoutRaised)
      (hpending : attempt'.timerPending = true → attempt.timerPending = true) : Timed w attempt' :=
    htimed.adds (.of_same rfl rfl) hraised hpending
  have hupdate : Adds w w.update := .of_same rfl rfl
  cases hmove with
  | pass | closed | initFailed | ackOrdered | initEnded => exact ⟨hheld, hkeep rfl id⟩
  | timerLate => exact ⟨hheld, hkeep rfl nofun⟩
  | readNothing | ackNothing => exact ⟨hupdate.held hheld, htimed.adds hupdate rfl id⟩
  | read order | ackRead order =>
    have hadds := hupdate.trans (.start w.update setup.grace attempt.step order)
    exact ⟨hadds.held hheld, htimed.adds hadds rfl id⟩
  | due =>
    have hadds := Adds.advance w setup.grace attempt.step .deadlineReached
    exact ⟨hadds.held hheld, htimed.adds hadds rfl id⟩
  | timerFired hpending => exact ⟨hheld, ⟨htimed.pending hpending, rfl, rfl⟩⟩
  | ended reason hended =>
    have hadds : Adds w { ((w.advance setup.grace attempt.step .taskEnded).1.borrow.return_
        (attempt.outcome w reason)) with fate := some reason } :=
      (Adds.advance w setup.grace attempt.step .taskEnded).trans (.of_same rfl rfl)
    have hreport := htimed.reported hadds reason
      (by simp [World.return_, World.borrow, hfresh])
    refine ⟨hadds.held hheld, fun _ => .inr ⟨reason, ?_, hreport⟩⟩
    simpa [World.return_, World.borrow] using hended

theorem Fair.adds (hheld : KillsHeld w) (hadds : Adds w w') (htimed : TimedAt w' place') :
    Fair ⟨w', place'⟩ := ⟨hadds.held hheld, htimed⟩

theorem Fair.starting {attempt : Attempt} (hheld : KillsHeld w) (hnone : .startTimeout ∉ w.kills)
    (hflag : attempt.timeoutRaised = false) :
    Fair ⟨(attempt.readCommands setup w).1, .init (attempt.readCommands setup w).2 .changed⟩ := by
  have htimed : Timed w attempt :=
    ⟨by simp [hflag, not_timeoutFirst hnone], fun _ => hnone⟩
  have hupdate : Adds w w.update := .of_same rfl rfl
  unfold Attempt.readCommands
  split
  · rename_i order _
    have hadds := hupdate.trans (.start w.update setup.grace attempt.step order)
    exact .adds hheld hadds (htimed.adds hadds rfl id)
  · exact .adds hheld hupdate (htimed.adds hupdate rfl id)

/-- The start timeout finds the lane without a `Kill` and ready to take one. -/
def timely (s : State) (input : Input) : Bool :=
  match s.place, input with
  | .killPath _ .startTimeout true, .go =>
    !s.world.killStored && s.world.lane.raiseResult .kill s.world.laneGone == .recorded
  | _, _ => true

/-- The raise of a start timeout that is in time. -/
theorem Fair.timeout {attempt : Attempt} {raise : Bool} (hheld : KillsHeld w)
    (hdeciding : Deciding w attempt raise)
    (htimely : timely ⟨w, .killPath attempt .startTimeout raise⟩ .go = true)
    (deadline : LadderStep) :
    Fair ⟨if raise then w.raise .kill .startTimeout else w,
      .init { attempt with step := deadline } .changed⟩ := by
  cases raise with
  | false =>
    refine ⟨hheld, ⟨?_, fun _ => hdeciding.none⟩⟩
    simp [hdeciding.flag, not_timeoutFirst hdeciding.none]
  | true =>
    obtain ⟨hempty, hrecorded⟩ := Bool.and_eq_true_iff.mp htimely
    have hkills : w.kills = [] := by
      by_contra hsome
      simp [hheld hsome] at hempty
    have hraised : (w.raise .kill .startTimeout).kills = [.startTimeout] := by
      simp [World.raise, beq_iff_eq.mp hrecorded, hkills]
    refine ⟨hheld.raise _ _, ⟨?_, ?_⟩⟩
    · simp [hdeciding.flag, TimeoutFirst, hraised]
    · intro hpending
      cases hdeciding.spent.symm.trans hpending

/-- Before the spawn nothing was raised for the start timeout. -/
theorem Fair.unspawned (hheld : KillsHeld w) (hnone : .startTimeout ∉ w.kills) (hfresh : Fresh w)
    (hadds : Adds w w') (hspawned : w'.spawned = w.spawned)
    (hnext : place' = .waiting ∨ place' = .checking ∨ place' = .building ∨ place' = .finished) :
    Fair ⟨w', place'⟩ := by
  refine .adds hheld hadds ?_
  rcases hnext with rfl | rfl | rfl | rfl
  · exact hadds.not_mem hnone
  · exact hadds.not_mem hnone
  · exact hadds.not_mem hnone
  · intro h
    cases (hspawned.trans hfresh.spawned).symm.trans h

theorem Fair.runner {step : LadderStep} {commandsOpen : Bool} (hheld : KillsHeld w)
    (hbusy : Busy w [.adopted]) (hmove : RunnerMove setup w step commandsOpen (w', place')) :
    Fair ⟨w', place'⟩ := by
  have hupdate : Adds w w.update := .of_same rfl rfl
  cases hmove with
  | pass | closed => exact ⟨hheld, trivial⟩
  | read => exact .adds hheld (hupdate.trans (.start _ _ _ _)) trivial
  | readNothing => exact .adds hheld hupdate trivial
  | due => exact .adds hheld (.advance _ _ _ _) trivial
  | ended =>
    refine .adds hheld ((Adds.advance w setup.grace step .taskEnded).trans (.of_same rfl rfl)) ?_
    intro _
    exact .inl (by simp [hbusy.outcomes])

/-- The executor's next access, when its start timeout is in time. -/
theorem Fair.go {place : Place} (hsound : Sound setup ⟨w, place⟩) (hfair : Fair ⟨w, place⟩)
    (htimely : timely ⟨w, place⟩ .go = true) (htaken : go setup w place = some (w', place')) :
    Fair ⟨w', place'⟩ := by
  obtain ⟨hheld, htimed⟩ := hfair
  cases hsound.phase with
  | waiting hfresh =>
    simp only [Executor.go] at htaken
    split at htaken
    · cases htaken
      exact .unspawned hheld htimed hfresh (.of_same rfl rfl) rfl (by simp)
    · split at htaken <;> cases htaken <;>
        exact .unspawned hheld htimed hfresh (.of_same rfl rfl) rfl (by simp)
  | checking hfresh =>
    simp only [Executor.go] at htaken
    split at htaken <;> cases htaken <;>
      exact .unspawned hheld htimed hfresh (.of_same rfl rfl) rfl (by simp)
  | building | handed | finished => cases htaken
  | starting =>
    cases htaken
    exact .starting hheld htimed rfl
  | init hok =>
    exact .attempt hheld htimed hok.busy.outcomes
      (Option.some.inj htaken ▸ move_of_poll setup w _ _)
  | acked =>
    simp only [Executor.go] at htaken
    split at htaken
    · cases htaken
      exact .adds hheld (.of_same rfl rfl) trivial
    · cases htaken
      have hborrow : Adds w w.borrow := .of_same rfl rfl
      exact .adds hheld hborrow (Timed.adds htimed hborrow rfl id)
  | @killPath attempt cause raise hok =>
    cases htaken
    simp only [TimedAt] at htimed
    split at htimed
    · rename_i hcause
      subst hcause
      exact .timeout hheld htimed htimely _
    · rename_i hother
      have hadds : Adds w (if raise then w.raise .kill cause else w) := by
        cases raise with
        | true => exact .raise w .kill hother
        | false => exact .of_same rfl rfl
      exact .adds hheld hadds (Timed.adds htimed hadds rfl id)
  | runnerStart hbusy =>
    cases htaken
    exact .runner hheld hbusy (move_of_readRunner setup w true)
  | runner hbusy =>
    exact .runner hheld hbusy (Option.some.inj htaken ▸ move_of_pollRunner setup w _ _ _)

theorem Fair.step {s s' : State} {input : Input} (hsound : Sound setup s) (hfair : Fair s)
    (htimely : timely s input = true) (htaken : Executor.step setup s input = some s') :
    Fair s' := by
  cases move_of_step htaken with
  | outside hframe => exact ⟨hframe.kills.held hfair.held, hfair.timed.outside hframe⟩
  | go hgo => exact hfair.go hsound htimely hgo
  | built => exact .adds hfair.held (.of_same rfl rfl) hfair.timed
  | buildFails | specGone =>
    cases hsound.phase with
    | building hfresh =>
      exact .unspawned hfair.held hfair.timed hfresh (.of_same rfl rfl) rfl (by simp)
  | adopt => exact ⟨hfair.held, trivial⟩

end Access

theorem fair_of_reaches {setup : Setup} {s : State}
    (hreach : Reaches setup (fun s input => timely s input = true) s) : Fair s := by
  induction hreach with
  | refl => exact ⟨fun h => absurd rfl h, List.not_mem_nil⟩
  | tail hbefore htimely htaken ih => exact ih.step (sound_of_reaches hbefore) htimely htaken

/-! ## The report -/

/-- In every run whose start timeout, whenever it raises, is the first to kill: an
incarnation that ended in its attempt is reported as a start timeout if the `Kill` of
the start timeout was the first its lane took, and with the reason it ended with if not. -/
theorem report_names_first_kill {setup : Setup} {s : State}
    (hreach : Reaches setup (fun s input => timely s input = true) s)
    (hfinished : s.place = .finished) (hspawned : s.world.spawned = true)
    (howned : s.world.outcomes ≠ [.adopted]) :
    ∃ reason, s.world.ended = some reason ∧
      if s.world.kills.head? = some .startTimeout then
        s.world.outcomes = [.failed (.failure (.spawn .startTimeout))]
      else s.world.outcomes = [.failed reason] ∨ s.world.outcomes = [.stopped reason] := by
  have htimed := (fair_of_reaches hreach).timed
  rw [hfinished] at htimed
  exact (htimed hspawned).resolve_left howned

/-- An attempt without a predecessor, with a start timeout of five. -/
def bounded : Setup := ⟨false, some 5, 3⟩

/-- The incarnation is spawned and its initialization runs. -/
def spawns : List Input := [.go, .go, .built, .go]

/-- One turn of the attempt, from the command cell to its timers. -/
def attemptTurn : List Input := [.go, .go, .go, .go, .go]

/-- The start timeout passes, the attempt kills, and the task ends by it. -/
def killedByTimeout : List Input :=
  spawns ++ [.tick 5] ++ attemptTurn ++ [.go, .endTask .kill, .go, .go, .go]

theorem killedByTimeout_goes :
    (Machine.runWhere (step bounded) (fun s input => timely s input = true) init
      killedByTimeout).isSome = true := by
  decide +kernel

/-- A start that the timeout killed is reported as a start timeout. -/
theorem report_names_first_kill_killedByTimeout :
    ∃ s, Machine.runWhere (step bounded) (fun s input => timely s input = true) init
        killedByTimeout = some s ∧ s.world.kills = [.startTimeout] ∧
      ∃ reason, s.world.ended = some reason ∧
        if s.world.kills.head? = some .startTimeout then
          s.world.outcomes = [.failed (.failure (.spawn .startTimeout))]
        else s.world.outcomes = [.failed reason] ∨ s.world.outcomes = [.stopped reason] :=
  ⟨_, (Option.some_get killedByTimeout_goes).symm, by decide +kernel,
    report_names_first_kill (Machine.reaches_getWhere killedByTimeout_goes) (by rfl)
      (by decide +kernel) (by decide +kernel)⟩

/-- The reason of an initialization that failed by itself. -/
def initError : StopReason := .failure (.user "init")

/-- The initialization fails and its end seals the lane; the start timeout passes
before the failure is acknowledged. -/
def failsAtTimeout : List Input :=
  spawns ++ [.sealLane, .tick 5] ++ attemptTurn ++
    [.go, .acknowledge false, .endTask initError] ++ attemptTurn

theorem failsAtTimeout_goes : (Machine.run (step bounded) init failsAtTimeout).isSome = true := by
  decide +kernel

/-- An initialization that failed by itself, and whose lane never took a `Kill`, is
reported as a start timeout when the timeout passes between the seal of its lane and
its acknowledgment. -/
theorem failed_init_reported_as_timeout :
    ∃ s, Reaches bounded Machine.always s ∧ s.world.kills = [] ∧ s.world.ended = some initError ∧
      s.world.outcomes = [.failed (.failure (.spawn .startTimeout))] :=
  ⟨_, Machine.reaches_get failsAtTimeout_goes, by decide +kernel, by decide +kernel,
    by decide +kernel⟩

end TokioActors.Executor
