/-
# What a restart attempt answers for

Whatever the interleaving of orders, cancellations, the predecessor's end, the
factory, the acknowledgment, the timers and the end of the task, an attempt returns
one outcome, spawns only after a check that showed neither an order nor a
cancellation, hands an incarnation over only after a read that showed no order, and
leaves no order behind: the ladder takes it, in the attempt or in the runner, unless
the end of the task is found first.
-/

import TokioActors.Executor.Progress

namespace TokioActors.Executor

open Machine

/-- The attempt has returned; what comes later is the runner's. -/
def Place.returned : Place → Bool
  | .handed => true
  | .runnerStart => true
  | .runner _ _ _ => true
  | .finished => true
  | _ => false

/-- The ladder is past its windows: the attempt's own kill path is there, too. -/
def LadderStep.killing : LadderStep → Bool
  | .killGrace _ => true
  | .abortGrace _ => true
  | .spent => true
  | _ => false

structure Kept (s : State) : Prop where
  /-- There is one outcome once the attempt has returned, and none before. -/
  outcome : s.world.outcomes.length = if s.place.returned then 1 else 0
  /-- The check before the factory showed neither an order nor a cancellation. -/
  spawn : s.world.spawned = true → s.world.checked = some false
  adopt : s.place = .handed → s.world.readOrder = false
  fate : ∀ reason, s.world.fate = some reason → s.world.ended = some reason
  stopped : ∀ reason, .stopped reason ∈ s.world.outcomes →
    s.world.stop.isSome = true ∧ s.world.ended = some reason
  /-- There is one ladder, on the order of the command cell. -/
  ladder : ∀ order, s.world.armed = some order → s.world.stop = some order
  once : (s.world.trail.map Prod.snd).Nodup

section Kept

variable {setup : Setup} {s : State}

theorem Busy.kept {w : World} {place : Place} {outcomes : List RestartOutcome}
    (hbusy : Busy w outcomes)
    (hreturned : outcomes.length = if place.returned then 1 else 0)
    (hstopped : ∀ reason, .stopped reason ∉ outcomes) (hsource : Sourced w)
    (hadopt : place = .handed → w.readOrder = false) (honce : (w.trail.map Prod.snd).Nodup) :
    Kept ⟨w, place⟩ where
  outcome := by
    rw [hbusy.outcomes]
    exact hreturned
  spawn _ := hbusy.checked
  adopt := hadopt
  fate reason hfate := by cases hbusy.fate.symm.trans hfate
  stopped reason hmem := by
    rw [hbusy.outcomes] at hmem
    exact absurd hmem (hstopped reason)
  ladder := hsource
  once := honce

theorem Fresh.kept {w : World} {place : Place} (hfresh : Fresh w)
    (hreturned : place.returned = false)
    (hsource : Sourced w) : Kept ⟨w, place⟩ where
  outcome := by simp [hfresh.outcomes, hreturned]
  spawn hspawned := by cases hfresh.spawned.symm.trans hspawned
  adopt hplace := by
    obtain rfl : place = .handed := hplace
    cases hreturned
  fate reason hfate := by cases hfresh.fate.symm.trans hfate
  stopped reason hmem := by
    rw [hfresh.outcomes] at hmem
    cases hmem
  ladder := hsource
  once := by simp [hfresh.idle.2]

theorem Sound.kept (hsound : Sound setup s) : Kept s := by
  obtain ⟨w, place⟩ := s
  have hidle (h : w.armed = none ∧ w.trail = []) : (w.trail.map Prod.snd).Nodup := by simp [h.2]
  cases hsound.phase with
  | waiting hfresh | checking hfresh | building hfresh => exact hfresh.kept rfl hsound.source
  | starting hbusy hnone => exact hbusy.kept rfl nofun hsound.source nofun (hidle hnone)
  | init hok | acked hok | killPath hok =>
    exact hok.busy.kept rfl nofun hsound.source nofun hok.ladder.nodup
  | handed hbusy hnone hread =>
    exact hbusy.kept rfl (by simp) hsound.source (fun _ => hread) (hidle hnone)
  | runnerStart hbusy hnone => exact hbusy.kept rfl (by simp) hsound.source nofun (hidle hnone)
  | runner hbusy hon =>
    exact hbusy.kept rfl (by simp) hsound.source nofun (Attempted.ladder hon).nodup
  | finished hthrough =>
    exact ⟨hthrough.one, fun h => (hthrough.spawned h).1, nofun, hthrough.fate, hthrough.stopped,
      hsound.source, hthrough.once⟩

end Kept

variable {setup : Setup} {w w' : World} {s s' : State} {place' : Place}

/-! ## Orders are kept and answered -/

structure Persists (w w' : World) : Prop where
  stop : ∀ order, w.stop = some order → w'.stop = some order
  spawned : w.spawned = true → w'.spawned = true
  ended : ∀ reason, w.ended = some reason → w'.ended = some reason

theorem Persists.trans {w'' : World} (hfirst : Persists w w') (hsecond : Persists w' w'') :
    Persists w w'' :=
  ⟨fun order h => hsecond.stop order (hfirst.stop order h),
    fun h => hsecond.spawned (hfirst.spawned h),
    fun reason h => hsecond.ended reason (hfirst.ended reason h)⟩

theorem Same.persists (hsame : Same w w') : Persists w w' :=
  ⟨fun _ h => hsame.stop.trans h, fun h => hsame.spawned.trans h, fun _ h => hsame.ended.trans h⟩

theorem AttemptMove.persists {attempt : Attempt}
    (hmove : AttemptMove setup w attempt (w', place')) : Persists w w' := by
  cases hmove with
  | read | ackRead => exact ((Same.update w).trans (Same.start _ _ _ _)).persists
  | due => exact (Same.advance _ _ _ _).persists
  | ended => constructor <;> simp [World.return_, World.borrow]
  | readNothing | ackNothing => exact (Same.update w).persists
  | pass | closed | ackOrdered | initFailed | initEnded | timerLate | timerFired =>
    exact (Same.refl w).persists

theorem RunnerMove.persists {step : LadderStep} {commandsOpen : Bool}
    (hmove : RunnerMove setup w step commandsOpen (w', place')) :
    Persists w w' := by
  cases hmove with
  | read => exact ((Same.update w).trans (Same.start _ _ _ _)).persists
  | due => exact (Same.advance _ _ _ _).persists
  | ended => constructor <;> simp
  | readNothing => exact (Same.update w).persists
  | pass | closed => exact (Same.refl w).persists

theorem readCommands_persists (setup : Setup) (w : World) (attempt : Attempt) :
    Persists w (attempt.readCommands setup w).1 := by
  unfold Attempt.readCommands
  split
  · exact ((Same.update w).trans (Same.start _ _ _ _)).persists
  · exact (Same.update w).persists

theorem go_persists {place : Place}
    (htaken : go setup w place = some (w', place')) : Persists w w' := by
  cases place with
  | waiting =>
    simp only [go] at htaken
    split at htaken
    · cases htaken
      exact (Same.refl w).persists
    · split at htaken <;> cases htaken <;> exact ⟨fun _ => id, id, fun _ => id⟩
  | checking | acked =>
    simp only [go] at htaken
    split at htaken <;> cases htaken <;> exact ⟨fun _ => id, id, fun _ => id⟩
  | starting =>
    cases htaken
    exact readCommands_persists _ _ _
  | init attempt branch =>
    exact AttemptMove.persists (Option.some.inj htaken ▸ move_of_poll setup w attempt branch)
  | killPath attempt cause raise =>
    cases htaken
    cases raise <;> exact ⟨fun _ => id, id, fun _ => id⟩
  | runnerStart =>
    cases htaken
    exact (move_of_readRunner setup w true).persists
  | runner step commandsOpen branch =>
    exact RunnerMove.persists
      (Option.some.inj htaken ▸ move_of_pollRunner setup w step commandsOpen branch)
  | building | handed | finished => cases htaken

theorem step_persists {input : Input}
    (htaken : step setup s input = some s') : Persists s.world s'.world := by
  cases move_of_step htaken with
  | outside hframe => exact ⟨hframe.stop, fun h => hframe.spawned.trans h, hframe.ended⟩
  | go hgo => exact go_persists hgo
  | built => exact ⟨fun _ => id, fun _ => rfl, fun _ => id⟩
  | buildFails | specGone | adopt => exact ⟨fun _ => id, id, fun _ => id⟩

/-- The first order stays in the command cell. -/
theorem persists_of_reaches {allowed : State → Input → Prop}
    (hreach : Machine.Reaches (step setup) allowed s s') : Persists s.world s'.world := by
  induction hreach with
  | refl => exact ⟨fun _ => id, id, fun _ => id⟩
  | tail _ _ htaken ih => exact ih.trans (step_persists htaken)

theorem Sound.reaches {allowed : State → Input → Prop}
    (hsound : Sound setup s) (hreach : Machine.Reaches (Executor.step setup) allowed s s') :
    Sound setup s' :=
  hreach.invariant hsound fun _ _ _ h _ htaken => h.step htaken

theorem Sound.through (hsound : Sound setup s) (hfinished : s.place = .finished) :
    Through s.world := by
  have hphase := hsound.phase
  rw [hfinished] at hphase
  cases hphase with
  | finished hthrough => exact hthrough

/-- The order's own ladder is on, or the kill path the attempt had begun before, or
the end of the task was found. -/
def Taken (order : StopOrder) (s : State) : Prop :=
  s.place.ladder ≠ .idle ∧ (s.world.armed = some order ∨ s.place.ladder.killing = true) ∨
    s.place = .finished ∧ s.world.ended.isSome = true

theorem Attempted.armed_or_killing {grace : Nat} {armed : Option StopOrder} {step : LadderStep}
    {trail : Trail} (hattempted : Attempted grace armed step trail) (hstarted : step ≠ .idle) :
    armed.isSome = true ∨ step.killing = true := by
  cases hattempted with
  | ladder hon =>
    cases hon with
    | idle => exact absurd rfl hstarted
    | climb => exact .inl rfl
  | killed | killedInWindow | abort | verdict => exact .inr rfl

theorem Sound.taken {order : StopOrder} (hsound : Sound setup s)
    (hspawned : s.world.spawned = true) (hstop : s.world.stop = some order)
    (hanswered : Answered s.place) : Taken order s := by
  obtain ⟨w, place⟩ := s
  have hown {step : LadderStep} (hattempted : Attempted setup.grace w.armed step w.trail)
      (hstarted : step ≠ .idle) : w.armed = some order ∨ step.killing = true := by
    refine (hattempted.armed_or_killing hstarted).imp_left fun harmed => ?_
    obtain ⟨first, hfirst⟩ := Option.isSome_iff_exists.mp harmed
    rw [hfirst, ← hstop]
    exact (hsound.source first hfirst).symm
  rcases hanswered with hstarted | rfl
  · refine .inl ⟨hstarted, ?_⟩
    cases hsound.phase with
    | waiting | checking | building | starting | handed | runnerStart | finished =>
      exact absurd rfl hstarted
    | init hok | acked hok | killPath hok => exact hown hok.ladder hstarted
    | runner _ hon => exact hown (.ladder hon) hstarted
  · refine .inr ⟨rfl, ?_⟩
    cases hsound.phase with
    | finished hthrough =>
      obtain ⟨reason, hfate⟩ := Option.isSome_iff_exists.mp (hthrough.spawned hspawned).2
      show w.ended.isSome = true
      rw [hthrough.fate reason hfate]
      rfl

/-! ## The attempt as a whole -/

/-- In every state a restart attempt reaches, what it answers for holds; its orders
stay, and its own steps take an order to the ladder, the task's end to its record, and
an incarnation that was acknowledged, without an order, to the hand-over. -/
theorem attempt_answers {setup : Setup} {s : State} (hreach : Reaches setup always s) :
    Kept s ∧
      (∀ s' order, Machine.Reaches (step setup) always s s' → s.world.stop = some order →
        s'.world.stop = some order) ∧
      (∀ order, s.world.spawned = true → s.world.stop = some order →
        ∃ s', Machine.Reaches (step setup) byExecutor s s' ∧ Taken order s') ∧
      (s.world.spawned = true → s.world.ended.isSome = true →
        ∃ s', Machine.Reaches (step setup) byExecutor s s' ∧ s'.place = .finished ∧
          s'.world.outcomes.length = 1 ∧ s'.world.fate = s.world.ended) ∧
      (s.place = .waiting → WaitOver setup s.world →
        ∃ s', Machine.Reaches (step setup) byExecutor s s' ∧
          (s'.place = .building ∨ s'.place = .finished)) ∧
      (Unacknowledged s.world s.place → s.world.ack = some true → s.world.stop = none →
        s.world.ended = none →
        ∃ s', Machine.Reaches (step setup) byExecutor s s' ∧ s'.place = .handed) := by
  have hsound := sound_of_reaches hreach
  refine ⟨hsound.kept, ?_, ?_, ?_, ?_, hands_of_ack hsound⟩
  · intro s' order hlater hstop
    exact (persists_of_reaches hlater).stop order hstop
  · intro order hspawned hstop
    obtain ⟨s', hlater, hanswered⟩ :=
      answers_of_stop hsound hspawned (Option.isSome_iff_exists.mpr ⟨order, hstop⟩)
    have hpersists := persists_of_reaches hlater
    exact ⟨s', hlater, (hsound.reaches hlater).taken (hpersists.spawned hspawned)
      (hpersists.stop order hstop) hanswered⟩
  · intro hspawned hended
    obtain ⟨s', hlater, hfinished⟩ := ends_of_ended hsound hspawned hended
    have hpersists := persists_of_reaches hlater
    have hthrough := (hsound.reaches hlater).through hfinished
    obtain ⟨fate, hfate⟩ :=
      Option.isSome_iff_exists.mp (hthrough.spawned (hpersists.spawned hspawned)).2
    obtain ⟨reason, hreason⟩ := Option.isSome_iff_exists.mp hended
    refine ⟨s', hlater, hfinished, hthrough.one, ?_⟩
    rw [hfate, hreason, ← hthrough.fate fate hfate, hpersists.ended reason hreason]
  · intro hplace hover
    exact leads_of_waitOver hplace hover

/-! ## An order and the end of the task -/

/-- An attempt without a predecessor or a start timeout. -/
def plain : Setup := ⟨false, none, 3⟩

/-- An incarnation that starts at once and is handed over, and whose runner then finds
nothing in the command cell. -/
def handOver : List Input :=
  [.go, .go, .built, .go, .acknowledge true, .go, .go, .go, .adopt, .go]

def lateOrder : StopOrder := ⟨.timeout 5, 0, false⟩

def orderLate : List Input := handOver ++ [.writeOrder (.timeout 5) 0 false]

theorem orderLate_goes : (run (step plain) init orderLate).isSome = true := by
  decide +kernel

/-- A state in which the order was written after the hand-over, and not read yet. -/
def orderedLate : State := (run (step plain) init orderLate).get orderLate_goes

/-- The order written after the hand-over is taken by the runner. -/
theorem attempt_answers_orderedLate :
    Kept orderedLate ∧ orderedLate.world.armed = none ∧
      ∃ s', Machine.Reaches (step plain) byExecutor orderedLate s' ∧ Taken lateOrder s' := by
  obtain ⟨hkept, -, htaken, -⟩ :=
    @attempt_answers plain orderedLate (reaches_get orderLate_goes)
  exact ⟨hkept, by decide +kernel, htaken lateOrder (by decide +kernel) (by decide +kernel)⟩

theorem endsFirst_goes :
    (run (step plain) orderedLate [.endTask .graceful, .go]).isSome = true := by
  decide +kernel

/-- A runner looks at its task first: an order that was written before the task ended
is left when the end is found first. -/
theorem order_left_at_end :
    ∃ s s', Reaches plain always s ∧ s.world.stop = some lateOrder ∧ s.world.ended = none ∧
      Machine.Reaches (step plain) always s s' ∧ s'.place.ladder = .idle ∧
      s'.place.returned = true ∧ s'.world.fate = some .graceful ∧ s'.world.armed = none :=
  ⟨orderedLate, _, reaches_get orderLate_goes, by decide +kernel, by decide +kernel,
    reaches_get endsFirst_goes, by decide +kernel, by decide +kernel, by decide +kernel,
    by decide +kernel⟩

end TokioActors.Executor
