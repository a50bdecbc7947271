/-
# Recurring timers

A recurring timer sleeps until its next instant, makes a tick, waits for a place
in the mailbox, sends the tick and moves its next instant by the miss policy.
Under `Skip` the move is computed in one division; the count of intervals is
narrowed to 32 bits and the product checked, and a count or a product that does
not fit puts the next tick one interval from now. A move counts for at most
`farFuture`, like every deadline. Under `CatchUp` the missed ticks are sent one
after the other while the mailbox has room. Each tick is made by the user's factory,
and a panic of the factory ends the timer.
-/

import Mathlib.Data.List.Pairwise
import TokioActors.Lib.Reach
import TokioActors.Types

namespace TokioActors.Timer

open Machine

inductive MissPolicy
  | skip
  | catchUp
  | delay
  deriving DecidableEq, Repr

def checkedMul (dur n : Nat) : Option Nat := if dur * n ≤ durationMax then some (dur * n) else none

/-- The whole intervals from the instant to the clock, and one more. -/
def periods (next interval now : Nat) : Nat := (now - next) / interval + 1

/-- The next instant under `Skip`. -/
def skipNext (next interval now : Nat) : Nat :=
  match if periods next interval now < 2 ^ 32 then checkedMul interval (periods next interval now)
    else none with
  | some advance => saturatingDeadline next advance
  | none => saturatingDeadline now interval

/-- What a burst of missed ticks meets at each of them. -/
inductive BurstAnswer
  | sent
  /-- The mailbox is full; the drop of the tick may panic. -/
  | full (panic : Option String)
  | closed
  | cancelled
  /-- The factory panics, so there is no tick to send. -/
  | unmade (payload : String)
  deriving DecidableEq, Repr

/-- What an adjustment ends with. -/
inductive Adjusted
  | next
  | refused
  | panicked (payload : String)
  /-- The panic of the factory, which the forwarder's poll catches. -/
  | unwound (payload : String)
  deriving DecidableEq, Repr

/-- The burst of `CatchUp`: the end, the next instant and the instants whose ticks
were sent. It needs an answer for each missed tick it tries. -/
def burst (interval now : Nat) (next : Nat) : List BurstAnswer → Option (Adjusted × Nat × List Nat)
  | [] => if next ≤ now then none else some (.next, next, [])
  | answer :: answers =>
    if next ≤ now then
      match answer with
      | .sent => (burst interval now (saturatingDeadline next interval) answers).map fun rest =>
        (rest.1, rest.2.1, next :: rest.2.2)
      | .full none => some (.next, next, [])
      | .full (some payload) => some (.panicked payload, next, [])
      | .closed => some (.refused, next, [])
      | .cancelled => some (.next, next, [])
      | .unmade payload => some (.unwound payload, next, [])
    else some (.next, next, [])

/-- Moves the next instant past the tick that was sent. -/
def adjustNext (policy : MissPolicy) (next interval now : Nat) (answers : List BurstAnswer) :
    Option (Adjusted × Nat × List Nat) :=
  match policy with
  | .skip => some (.next, skipNext next interval now, [])
  | .delay => some (.next, saturatingDeadline now interval, [])
  | .catchUp => burst interval now (saturatingDeadline next interval) answers

inductive TimerStage
  /-- Asleep until the next instant. -/
  | waiting
  /-- A tick is made and waits for a place in the mailbox. -/
  | reserving
  | ended
  deriving DecidableEq, Repr

/-- A recurring timer and the clock. The ticks it sent are kept newest first, each
with the instant it was for and the clock when it was sent. -/
structure RecurringTimer where
  now : Nat
  next : Nat
  interval : Nat
  policy : MissPolicy
  stage : TimerStage := .waiting
  sent : List (Nat × Nat) := []
  deriving DecidableEq, Repr

inductive TimerAction
  | elapse (time : Nat)
  /-- The factory makes the tick that is due, or panics. -/
  | fire (panic : Option String)
  | cancel
  | close
  /-- The mailbox gives a place: the tick is sent and the next instant moved. -/
  | send (answers : List BurstAnswer)
  deriving DecidableEq, Repr

namespace RecurringTimer

/-- A timer as it is registered. -/
def start (policy : MissPolicy) (interval now : Nat) : RecurringTimer :=
  { now := now, next := saturatingDeadline now interval, interval := interval, policy := policy }

def step (timer : RecurringTimer) : TimerAction → Option RecurringTimer
  | .elapse time => some { timer with now := timer.now + time }
  | .fire panic =>
    if timer.stage = .waiting ∧ timer.next ≤ timer.now then
      some { timer with stage := if panic = none then .reserving else .ended }
    else none
  | .cancel => if timer.stage = .ended then none else some { timer with stage := .ended }
  | .close => if timer.stage = .ended then none else some { timer with stage := .ended }
  | .send answers =>
    if timer.stage = .reserving then
      (adjustNext timer.policy timer.next timer.interval timer.now answers).map fun adjusted =>
        { timer with
          next := adjusted.2.1
          stage := if adjusted.1 = .next then .waiting else .ended
          sent := (adjusted.2.2.map fun instant => (instant, timer.now)).reverse ++
            (timer.next, timer.now) :: timer.sent }
    else none

end RecurringTimer

/-! ## One move of `Skip` -/

/-- The missed intervals fit 32 bits with one to spare, and the move fits a timer. -/
def FitsMove (next interval now : Nat) : Prop :=
  periods next interval now < 2 ^ 32 ∧ periods next interval now * interval ≤ farFuture

instance (next interval now : Nat) : Decidable (FitsMove next interval now) :=
  inferInstanceAs (Decidable (_ ∧ _))

variable {next interval now : Nat} {action : TimerAction} {answers : List BurstAnswer}
  {adjusted : Adjusted}

theorem skipNext_of_fits (hfits : FitsMove next interval now) :
    skipNext next interval now = next + periods next interval now * interval := by
  have hproduct : interval * periods next interval now ≤ farFuture := by
    rw [Nat.mul_comm]
    exact hfits.2
  have hrepresentable : interval * periods next interval now ≤ durationMax :=
    hproduct.trans (by decide)
  unfold skipNext checkedMul
  rw [if_pos hfits.1, if_pos hrepresentable]
  dsimp only
  rw [saturatingDeadline, Nat.min_eq_left hproduct, Nat.mul_comm]

theorem skipNext_of_missed (hmissed : 2 ^ 32 ≤ periods next interval now) :
    skipNext next interval now = saturatingDeadline now interval := by
  unfold skipNext
  rw [if_neg (Nat.not_lt.mpr hmissed)]

/-- One interval past the last whole one is after the clock, and no earlier one is. -/
theorem periods_least (hpos : 0 < interval) (hlate : next ≤ now) :
    now < next + periods next interval now * interval ∧
      ∀ k, now < next + k * interval → periods next interval now ≤ k := by
  have hdivision := Nat.div_add_mod (now - next) interval
  have hremainder := Nat.mod_lt (now - next) hpos
  unfold periods
  refine ⟨?_, fun k hk => ?_⟩
  · rw [Nat.succ_mul, Nat.mul_comm]
    omega
  · have hbehind : now - next < k * interval := by omega
    exact (Nat.div_lt_iff_lt_mul hpos).mpr hbehind

/-! ## Runs of a `Skip` timer -/

/-- What holds of a `Skip` timer whose moves all fit: its instants and its ticks
are on the grid, and each tick is for an instant after the clock of the tick
before it. -/
structure OnGrid (grid origin : Nat) (timer : RecurringTimer) : Prop where
  every : timer.interval = grid
  skips : timer.policy = .skip
  next : ∃ k, timer.next = origin + k * grid
  due : timer.stage = .reserving → timer.next ≤ timer.now
  ticks : ∀ tick ∈ timer.sent, ∃ k, tick.1 = origin + k * grid
  ahead : ∀ tick ∈ timer.sent, tick.2 < timer.next
  order : timer.sent.Pairwise fun newer older => older.2 < newer.1

/-- A step whose move, if it is one, fits. -/
def RecurringTimer.Prompt (timer : RecurringTimer) : TimerAction → Prop
  | .send _ => FitsMove timer.next timer.interval timer.now
  | _ => True

instance (timer : RecurringTimer) (action : TimerAction) : Decidable (timer.Prompt action) := by
  cases action <;> unfold RecurringTimer.Prompt <;> infer_instance

variable {timer : RecurringTimer}

theorem OnGrid.step {origin : Nat} {after : RecurringTimer} (hpos : 0 < interval)
    (hgrid : OnGrid interval origin timer) (hprompt : timer.Prompt action)
    (hstep : timer.step action = some after) : OnGrid interval origin after := by
  cases action with
  | elapse =>
    cases hstep
    exact { hgrid with due := fun h => (hgrid.due h).trans (Nat.le_add_right _ _) }
  | fire =>
    simp only [RecurringTimer.step] at hstep
    split at hstep <;> cases hstep
    next hdue => exact { hgrid with due := fun _ => hdue.2 }
  | cancel | close =>
    simp only [RecurringTimer.step] at hstep
    split at hstep <;> cases hstep
    exact { hgrid with due := by rintro ⟨⟩ }
  | send =>
    simp only [RecurringTimer.step, hgrid.skips, adjustNext, Option.map_some] at hstep
    split at hstep <;> cases hstep
    next hreserving =>
      have hdue := hgrid.due hreserving
      have hmove := skipNext_of_fits hprompt
      have hafter := (periods_least (hgrid.every.symm ▸ hpos) hdue).1
      obtain ⟨k, hnext⟩ := hgrid.next
      refine ⟨hgrid.every, rfl, ?_, by simp, ?_, ?_, ?_⟩
      · refine ⟨k + periods timer.next timer.interval timer.now, ?_⟩
        dsimp only
        rw [hmove, hnext, ← hnext, hgrid.every, Nat.add_mul, ← Nat.add_assoc]
        omega
      · simpa using ⟨⟨k, hnext⟩, fun a b hmem => hgrid.ticks (a, b) hmem⟩
      · simp only [List.map_nil, List.reverse_nil, List.nil_append, List.mem_cons]
        rintro tick (rfl | hold)
        · rw [hmove]
          exact hafter
        · rw [hmove]
          exact ((hgrid.ahead tick hold).trans_le hdue).trans hafter
      · simp only [List.map_nil, List.reverse_nil, List.nil_append, List.pairwise_cons]
        exact ⟨fun tick hold => hgrid.ahead tick hold, hgrid.order⟩

theorem onGrid_start :
    OnGrid interval (saturatingDeadline now interval) (.start .skip interval now) := by
  refine ⟨rfl, rfl, ⟨0, ?_⟩, by rintro ⟨⟩, by simp [RecurringTimer.start],
    by simp [RecurringTimer.start], by simp [RecurringTimer.start]⟩
  rw [Nat.zero_mul]
  rfl

/-- **`Skip` keeps a timer on its grid while its moves fit.** The next instant is
the first one of the grid after the clock, every tick of a run is for an instant
of the grid, and none is for an instant that had passed when the tick before it
was sent. From `u32::MAX` missed intervals on, the next tick is one interval from
now. -/
theorem skip_keeps_the_grid (interval : Nat) (hpos : 0 < interval) :
    (∀ next now, next ≤ now → FitsMove next interval now →
      ∃ k, skipNext next interval now = next + k * interval ∧ now < next + k * interval ∧
        ∀ j, now < next + j * interval → k ≤ j) ∧
    (∀ next now, 2 ^ 32 ≤ periods next interval now →
      skipNext next interval now = saturatingDeadline now interval) ∧
    ∀ now timer, Reaches RecurringTimer.step RecurringTimer.Prompt
        (.start .skip interval now) timer →
      (∃ k, timer.next = saturatingDeadline now interval + k * interval) ∧
      (∀ tick ∈ timer.sent, ∃ k, tick.1 = saturatingDeadline now interval + k * interval) ∧
      timer.sent.Pairwise fun newer older => older.2 < newer.1 := by
  refine ⟨fun next now hlate hfits => ?_, fun next now => skipNext_of_missed,
    fun now timer hreach => ?_⟩
  · obtain ⟨hafter, hleast⟩ := periods_least hpos hlate
    exact ⟨_, skipNext_of_fits hfits, hafter, hleast⟩
  · have hgrid : OnGrid interval (saturatingDeadline now interval) timer :=
      Reaches.invariant onGrid_start
        (fun before action after hgrid hprompt hstep => hgrid.step hpos hprompt hstep) hreach
    exact ⟨hgrid.next, hgrid.ticks, hgrid.order⟩

/-- A timer of one second that is read three and a half intervals late. -/
def lateSecond : List TimerAction :=
  [.elapse (10 ^ 9), .fire none, .elapse (35 * 10 ^ 8), .send [], .elapse (5 * 10 ^ 8), .fire none,
    .send []]

theorem lateSecond_goes : (runWhere RecurringTimer.step RecurringTimer.Prompt
    (.start .skip (10 ^ 9) 0) lateSecond).isSome = true := by
  decide +kernel

theorem skip_keeps_the_grid_second :
    (∃ k, skipNext (10 ^ 9) (10 ^ 9) (45 * 10 ^ 8) = 10 ^ 9 + k * 10 ^ 9) ∧
    ∃ timer, Reaches RecurringTimer.step RecurringTimer.Prompt
        (.start .skip (10 ^ 9) 0) timer ∧
      timer.sent = [(5 * 10 ^ 9, 5 * 10 ^ 9), (10 ^ 9, 45 * 10 ^ 8)] ∧
      ∃ k, timer.next = saturatingDeadline 0 (10 ^ 9) + k * 10 ^ 9 := by
  have hgrid := skip_keeps_the_grid (10 ^ 9) (by decide)
  obtain ⟨k, hnext, _⟩ := hgrid.1 (10 ^ 9) (45 * 10 ^ 8) (by decide) (by decide)
  have hreach := reaches_getWhere lateSecond_goes
  exact ⟨⟨k, hnext⟩, _, hreach, by decide +kernel, (hgrid.2.2 0 _ hreach).1⟩

/-- After `u32::MAX` missed intervals of two milliseconds and a half more, the next
instant is off the grid. -/
theorem skip_leaves_the_grid :
    0 < 2 * 10 ^ 6 ∧ 0 ≤ (2 ^ 32 - 1) * (2 * 10 ^ 6) + 10 ^ 6 ∧
      ¬ ∃ k, skipNext 0 (2 * 10 ^ 6) ((2 ^ 32 - 1) * (2 * 10 ^ 6) + 10 ^ 6) =
        0 + k * (2 * 10 ^ 6) := by
  refine ⟨by decide, by decide, ?_⟩
  rintro ⟨k, hk⟩
  have hnext : skipNext 0 (2 * 10 ^ 6) ((2 ^ 32 - 1) * (2 * 10 ^ 6) + 10 ^ 6) =
      (2 ^ 32 - 1) * (2 * 10 ^ 6) + 10 ^ 6 + 2 * 10 ^ 6 := by decide +kernel
  rw [hnext] at hk
  omega

/-! ## Runs of a `CatchUp` timer -/

/-- The burst serves the instants of the grid one after the other, none that is
still to come, and stops at the first one it does not serve. -/
theorem burst_grid {after : Nat} {instants : List Nat} (hfits : interval ≤ farFuture)
    (hburst : burst interval now next answers = some (adjusted, after, instants)) :
    after = next + instants.length * interval ∧
      instants = List.range' next instants.length interval ∧
        ∀ instant ∈ instants, instant ≤ now := by
  induction answers generalizing next after instants with
  | nil =>
    simp only [burst] at hburst
    split at hburst <;> cases hburst
    simp
  | cons answer answers ih =>
    simp only [burst] at hburst
    split at hburst
    · rename_i hdue
      cases answer with
      | sent =>
        obtain ⟨⟨adjusted, after, rest⟩, hrest, heq⟩ := Option.map_eq_some_iff.mp hburst
        cases heq
        rw [saturatingDeadline, Nat.min_eq_left hfits] at hrest
        obtain ⟨hafter, hinstants, hpast⟩ := ih hrest
        refine ⟨?_, ?_, List.forall_mem_cons.mpr ⟨hdue, hpast⟩⟩
        · simp only [hafter, List.length_cons, Nat.succ_mul]
          omega
        · simp only [List.length_cons, List.range'_succ, ← hinstants]
      | full panic => cases panic <;> cases hburst <;> simp
      | closed | cancelled | unmade =>
        cases hburst
        simp
    · cases hburst
      simp

/-- What holds of a `CatchUp` timer: its ticks are the instants of the grid from the
first one on, each served once and in order, and the next one is the one after them. -/
structure CatchesUp (grid first : Nat) (timer : RecurringTimer) : Prop where
  every : timer.interval = grid
  catches : timer.policy = .catchUp
  next : timer.next = first + timer.sent.length * grid
  ticks : (timer.sent.map Prod.fst).reverse = List.range' first timer.sent.length grid
  due : timer.stage = .reserving → timer.next ≤ timer.now
  punctual : ∀ tick ∈ timer.sent, tick.1 ≤ tick.2

theorem CatchesUp.step {first : Nat} {after : RecurringTimer} (hfits : interval ≤ farFuture)
    (hcatches : CatchesUp interval first timer) (hstep : timer.step action = some after) :
    CatchesUp interval first after := by
  cases action with
  | elapse =>
    cases hstep
    exact { hcatches with due := fun h => (hcatches.due h).trans (Nat.le_add_right _ _) }
  | fire =>
    simp only [RecurringTimer.step] at hstep
    split at hstep <;> cases hstep
    next hdue => exact { hcatches with due := fun _ => hdue.2 }
  | cancel | close =>
    simp only [RecurringTimer.step] at hstep
    split at hstep <;> cases hstep
    exact { hcatches with due := by rintro ⟨⟩ }
  | send answers =>
    simp only [RecurringTimer.step, hcatches.catches, hcatches.every, adjustNext] at hstep
    split at hstep
    next hreserving =>
      obtain ⟨⟨adjusted, moved, instants⟩, hburst, rfl⟩ := Option.map_eq_some_iff.mp hstep
      rw [saturatingDeadline, Nat.min_eq_left hfits] at hburst
      obtain ⟨hmoved, hinstants, hpast⟩ := burst_grid hfits hburst
      have hdue := hcatches.due hreserving
      -- The tick that was waiting, and behind it those of the burst.
      have hticks : ((((instants.map fun instant => (instant, timer.now)).reverse ++
          (timer.next, timer.now) :: timer.sent).map Prod.fst).reverse) =
            (timer.sent.map Prod.fst).reverse ++ timer.next :: instants := by
        simp [Function.comp_def]
      refine ⟨rfl, rfl, ?_, ?_, ?_, ?_⟩
      · simp only [List.length_append, List.length_reverse, List.length_map, List.length_cons]
        rw [hmoved, hcatches.next, Nat.add_mul, Nat.succ_mul]
        omega
      · dsimp only
        rw [hticks, hcatches.ticks, hinstants, hcatches.next, Nat.mul_comm _ interval,
          ← List.range'_succ, List.range'_append]
        congr 1
        simp
        omega
      · dsimp only
        split <;> rintro ⟨⟩
      · intro tick htick
        rcases List.mem_append.mp htick with hnew | hold
        · obtain ⟨instant, hinstant, rfl⟩ := List.mem_map.mp (List.mem_reverse.mp hnew)
          exact hpast instant hinstant
        · rcases List.mem_cons.mp hold with rfl | hold
          · exact hdue
          · exact hcatches.punctual tick hold
    next => cases hstep

/-- A due timer serves its next instant as soon as the mailbox has one place. -/
theorem CatchesUp.serves {first : Nat} (hcatches : CatchesUp interval first timer)
    (hstage : timer.stage = .reserving) :
    ∃ served, timer.step (.send [.full none]) = some served ∧ served.stage = .waiting ∧
      served.sent = (timer.next, timer.now) :: timer.sent := by
  have hburst (instant : Nat) : ∃ next, burst timer.interval timer.now instant [.full none] =
      some (.next, next, []) := by
    simp only [burst]
    split <;> exact ⟨_, rfl⟩
  obtain ⟨next, hburst⟩ := hburst (saturatingDeadline timer.next timer.interval)
  refine ⟨{ timer with
    next := next
    stage := .waiting
    sent := (timer.next, timer.now) :: timer.sent }, ?_, rfl, rfl⟩
  simp only [RecurringTimer.step, if_pos hstage, hcatches.catches, adjustNext, hburst]
  rfl

/-- The actor neither stops nor cancels the timer. -/
def TimerAction.Spares : TimerAction → Prop
  | .cancel | .close => False
  | .send answers => .closed ∉ answers ∧ .cancelled ∉ answers
  | _ => True

instance (action : TimerAction) : Decidable action.Spares := by
  cases action <;> unfold TimerAction.Spares <;> infer_instance

end TokioActors.Timer
