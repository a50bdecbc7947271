/-
# The wait for an incarnation's end

The force of a stop waits for the status plane to read `Stopped` and gives up at
a floor: its budget's deadline, moved by what the incarnation's abort record says
when it is read. Each pass of the wait creates its notification, reads the floor,
sleeps until it, and reads the clock and the record again before it answers.
Aborts become owed, recorded and released beside it at any time.
-/

import TokioActors.Lib.Reach
import TokioActors.Subtree.Record

namespace TokioActors

open Subtree Machine

/-- Where a pass of the wait is. `since` is the count of notifications at which
the pass created its own. -/
inductive EndWaitStage
  | arm
  | readFloor (since : Nat)
  | parked (since sleepAt : Nat)
  /-- The sleep elapsed and the clock was read. -/
  | compare (clock : Nat)
  /-- The floor of the view had passed. -/
  | readStatus (view : Option Nat × Bool)
  | answered (ended : Bool) (instant : Nat) (view : Option Nat × Bool)
  deriving DecidableEq, Repr

/-- The wait, the clock, the status plane and the abort record. -/
structure EndWait where
  now : Nat
  stopped : Bool
  /-- The record of the incarnation, when the wait has it. -/
  record : Option Owed
  /-- How often the waiters for a recorded abort were notified. -/
  recorded : Nat := 0
  /-- An abort was recorded and its notification is still to come. -/
  notifyOwed : Bool := false
  budgetAt : Nat
  cap : Nat
  stage : EndWaitStage := .arm
  deriving DecidableEq, Repr

inductive EndWaitAction
  | elapse (time : Nat)
  | stop
  | owe
  /-- An abort is recorded, with the clock its issuer read. -/
  | abort (instant : Nat)
  | notify
  | release
  | arm
  | readFloor
  | wakeStopped
  | wakeRecorded
  | wakeSlept
  /-- A wake that finds nothing to act on. -/
  | wakeSpurious
  | compare
  | readStatus
  deriving DecidableEq, Repr

namespace EndWait

/-- A wait as it begins. -/
def start (budget cap now : Nat) (stopped : Bool) (record : Option Owed) : EndWait :=
  { now := now
    stopped := stopped
    record := record
    budgetAt := saturatingDeadline now (boundedWait budget)
    cap := boundedWait cap }

/-- What the record shows; without one, nothing. -/
def view (wait : EndWait) : Option Nat × Bool :=
  match wait.record with
  | some owed => owed.view
  | none => (none, false)

def floor (wait : EndWait) : Nat :=
  verdictFloor wait.budgetAt wait.cap wait.view.1 wait.view.2

def step (wait : EndWait) : EndWaitAction → Option EndWait
  | .elapse time => some { wait with now := wait.now + time }
  | .stop => some { wait with stopped := true }
  | .owe => some { wait with record := wait.record.map Owed.owe }
  | .abort instant =>
    match wait.record with
    | some owed =>
      if owed.abortedAt = none ∧ instant ≤ wait.now then
        some { wait with record := some (owed.record instant), notifyOwed := true }
      else none
    | none => none
  | .notify =>
    if wait.notifyOwed then
      some { wait with recorded := wait.recorded + 1, notifyOwed := false }
    else none
  | .release => some { wait with record := wait.record.map Owed.release }
  | .arm =>
    match wait.stage with
    | .arm => some { wait with stage := .readFloor wait.recorded }
    | _ => none
  | .readFloor =>
    match wait.stage with
    | .readFloor since => some { wait with stage := .parked since wait.floor }
    | _ => none
  | .wakeStopped =>
    match wait.stage with
    | .parked _ _ =>
      if wait.stopped then some { wait with stage := .answered true wait.now wait.view }
      else none
    | _ => none
  | .wakeRecorded =>
    match wait.stage with
    | .parked since _ => if wait.recorded ≠ since then some { wait with stage := .arm } else none
    | _ => none
  | .wakeSlept =>
    match wait.stage with
    | .parked _ sleepAt =>
      if sleepAt ≤ wait.now then some { wait with stage := .compare wait.now } else none
    | _ => none
  | .wakeSpurious =>
    match wait.stage with
    | .parked _ _ => some wait
    | _ => none
  | .compare =>
    match wait.stage with
    | .compare clock =>
      some { wait with stage := if wait.floor ≤ clock then .readStatus wait.view else .arm }
    | _ => none
  | .readStatus =>
    match wait.stage with
    | .readStatus view => some { wait with stage := .answered wait.stopped wait.now view }
    | _ => none

/-! ## No early answer -/

/-- The instant is past what the view holds the verdict for. -/
structure Ripe (budgetAt cap : Nat) (view : Option Nat × Bool) (instant : Nat) : Prop where
  budget : budgetAt ≤ instant
  settled : ∀ aborted, view.1 = some aborted → aborted ≤ saturatingDeadline budgetAt cap →
    aborted + abortSettle ≤ instant
  owed : view.2 = true → saturatingDeadline budgetAt cap ≤ instant

variable {wait after : EndWait} {action : EndWaitAction} {budgetAt cap : Nat}

theorem Ripe.mono {view : Option Nat × Bool} {instant later : Nat}
    (hripe : Ripe budgetAt cap view instant) (hle : instant ≤ later) :
    Ripe budgetAt cap view later :=
  ⟨hripe.budget.trans hle, fun aborted hview hcap => (hripe.settled aborted hview hcap).trans hle,
    fun howed => (hripe.owed howed).trans hle⟩

/-- The floor of a view is past what the view holds the verdict for. -/
theorem ripe_floor {view : Option Nat × Bool} :
    Ripe budgetAt cap view (verdictFloor budgetAt cap view.1 view.2) := by
  obtain ⟨abortedAt, owed⟩ := view
  refine ⟨budgetAt_le_verdictFloor, fun aborted hview hcap => ?_, fun howed => ?_⟩
  · obtain rfl : abortedAt = some aborted := hview
    exact settle_le_verdictFloor hcap
  · obtain rfl : owed = true := howed
    exact cap_le_verdictFloor

/-- What a pass has established at its stage. -/
def Holds (wait : EndWait) : Prop :=
  match wait.stage with
  | .arm => True
  | .readFloor _ => True
  | .parked _ sleepAt => sleepAt ≤ saturatingDeadline wait.budgetAt wait.cap + abortSettle
  | .compare clock => clock ≤ wait.now
  | .readStatus view => Ripe wait.budgetAt wait.cap view wait.now
  | .answered ended instant view =>
    instant ≤ wait.now ∧ (ended = false → Ripe wait.budgetAt wait.cap view instant)

theorem Holds.beside (hholds : wait.Holds) (hstage : after.stage = wait.stage)
    (hbudget : after.budgetAt = wait.budgetAt) (hcap : after.cap = wait.cap)
    (hnow : wait.now ≤ after.now) : after.Holds := by
  unfold Holds at hholds ⊢
  rw [hstage, hbudget, hcap]
  cases hcase : wait.stage with
  | arm | readFloor => trivial
  | parked => simpa only [hcase] using hholds
  | compare =>
    rw [hcase] at hholds
    exact hholds.trans hnow
  | readStatus =>
    rw [hcase] at hholds
    exact hholds.mono hnow
  | answered =>
    rw [hcase] at hholds
    exact ⟨hholds.1.trans hnow, hholds.2⟩

theorem floor_le : wait.floor ≤ saturatingDeadline wait.budgetAt wait.cap + abortSettle :=
  verdictFloor_le

theorem Holds.step (hholds : wait.Holds) (hstep : wait.step action = some after) :
    after.Holds := by
  cases action with
  | elapse =>
    cases hstep
    exact hholds.beside rfl rfl rfl (Nat.le_add_right _ _)
  | stop | owe | release =>
    cases hstep
    exact hholds.beside rfl rfl rfl (Nat.le_refl _)
  | abort =>
    simp only [EndWait.step] at hstep
    split at hstep
    · split at hstep <;> cases hstep
      exact hholds.beside rfl rfl rfl (Nat.le_refl _)
    · cases hstep
  | notify =>
    simp only [EndWait.step] at hstep
    split at hstep <;> cases hstep
    exact hholds.beside rfl rfl rfl (Nat.le_refl _)
  | arm =>
    simp only [EndWait.step] at hstep
    split at hstep <;> cases hstep
    trivial
  | readFloor =>
    simp only [EndWait.step] at hstep
    split at hstep <;> cases hstep
    exact floor_le
  | wakeStopped =>
    simp only [EndWait.step] at hstep
    split at hstep
    · split at hstep <;> cases hstep
      exact ⟨Nat.le_refl _, by rintro ⟨⟩⟩
    · cases hstep
  | wakeRecorded =>
    simp only [EndWait.step] at hstep
    split at hstep
    · split at hstep <;> cases hstep
      trivial
    · cases hstep
  | wakeSlept =>
    simp only [EndWait.step] at hstep
    split at hstep
    · split at hstep <;> cases hstep
      exact Nat.le_refl _
    · cases hstep
  | wakeSpurious =>
    simp only [EndWait.step] at hstep
    split at hstep <;> cases hstep
    exact hholds
  | compare =>
    simp only [EndWait.step] at hstep
    split at hstep <;> cases hstep
    next clock hstage =>
      have hclock : clock ≤ wait.now := by
        unfold Holds at hholds
        rwa [hstage] at hholds
      by_cases hpassed : wait.floor ≤ clock
      · simp only [Holds, if_pos hpassed]
        exact ripe_floor.mono (hpassed.trans hclock)
      · simp only [Holds, if_neg hpassed]
  | readStatus =>
    simp only [EndWait.step] at hstep
    split at hstep <;> cases hstep
    next view hstage =>
      have hripe : Ripe wait.budgetAt wait.cap view wait.now := by
        unfold Holds at hholds
        rwa [hstage] at hholds
      exact ⟨Nat.le_refl _, fun _ => hripe⟩

/-! ## The wait is finite -/

/-- The last instant a floor can be. -/
def ceiling (wait : EndWait) : Nat := saturatingDeadline wait.budgetAt wait.cap + abortSettle

/-- The steps of the wait itself, without the wakes that find nothing. -/
def own : EndWaitAction → Bool
  | .arm => true
  | .readFloor => true
  | .wakeStopped => true
  | .wakeRecorded => true
  | .wakeSlept => true
  | .compare => true
  | .readStatus => true
  | _ => false

/-- What the stage of a pass still takes; a notification the pass has not read
takes it through one pass more. -/
def stageLeft (wait : EndWait) : Nat :=
  match wait.stage with
  | .compare clock => if clock < wait.ceiling then 6 else 2
  | .arm => 5
  | .readFloor since => 4 + if wait.recorded = since then 0 else 3
  | .parked since _ => 3 + if wait.recorded = since then 0 else 3
  | .readStatus _ => 1
  | .answered _ _ _ => 0

/-- The own steps a wait past its ceiling has left. -/
def left (wait : EndWait) : Nat :=
  wait.stageLeft + (if wait.notifyOwed then 4 else 0) +
    match wait.record with
    | some owed => if owed.abortedAt = none then 5 else 0
    | none => 0

/-- An event beside the wait leaves it no more steps than it had. -/
theorem left_beside (hstage : after.stage = wait.stage) (hrecorded : after.recorded = wait.recorded)
    (hbudget : after.budgetAt = wait.budgetAt) (hcap : after.cap = wait.cap)
    (hnotify : after.notifyOwed = wait.notifyOwed)
    (hrecord : ∀ owed, after.record = some owed →
      ∃ before, wait.record = some before ∧ owed.abortedAt = before.abortedAt) :
    after.left ≤ wait.left := by
  unfold left stageLeft ceiling
  rw [hstage, hrecorded, hbudget, hcap, hnotify]
  refine Nat.add_le_add_left ?_ _
  cases hafter : after.record with
  | none => exact Nat.zero_le _
  | some owed =>
    obtain ⟨before, hbefore, hsame⟩ := hrecord owed hafter
    rw [hbefore]
    dsimp only
    rw [hsame]

theorem abortedAt_map {f : Owed → Owed} (hf : ∀ owed, (f owed).abortedAt = owed.abortedAt)
    {record : Option Owed} {owed : Owed} (hmap : record.map f = some owed) :
    ∃ before, record = some before ∧ owed.abortedAt = before.abortedAt := by
  obtain ⟨before, hbefore, rfl⟩ := Option.map_eq_some_iff.mp hmap
  exact ⟨before, hbefore, hf before⟩

theorem abortedAt_owe {owed : Owed} : owed.owe.abortedAt = owed.abortedAt := by
  unfold Owed.owe
  split <;> rfl

theorem left_own (hpast : wait.ceiling ≤ wait.now) (hown : own action = true)
    (hstep : wait.step action = some after) : after.left < wait.left := by
  have hmoved {stage : EndWaitStage} (hafter : after = { wait with stage := stage })
      (hless : after.stageLeft < wait.stageLeft) : after.left < wait.left := by
    unfold left
    rw [hafter] at hless ⊢
    dsimp only
    omega
  cases action with
  | arm =>
    simp only [step] at hstep
    split at hstep <;> cases hstep
    next hstage => exact hmoved rfl (by simp [stageLeft, hstage])
  | readFloor =>
    simp only [step] at hstep
    split at hstep <;> cases hstep
    next since hstage =>
      refine hmoved rfl ?_
      simp only [stageLeft, hstage]
      omega
  | wakeStopped =>
    simp only [step] at hstep
    split at hstep
    next since sleepAt hstage =>
      split at hstep <;> cases hstep
      refine hmoved rfl ?_
      simp only [stageLeft, hstage]
      omega
    next => cases hstep
  | wakeRecorded =>
    simp only [step] at hstep
    split at hstep
    next since sleepAt hstage =>
      split at hstep <;> cases hstep
      next hunread =>
        refine hmoved rfl ?_
        simp [stageLeft, hstage, hunread]
    next => cases hstep
  | wakeSlept =>
    simp only [step] at hstep
    split at hstep
    next since sleepAt hstage =>
      split at hstep <;> cases hstep
      refine hmoved rfl ?_
      have hclock : ¬ wait.now < ceiling { wait with stage := .compare wait.now } :=
        Nat.not_lt.mpr hpast
      simp only [stageLeft, hstage, if_neg hclock]
      omega
    next => cases hstep
  | compare =>
    simp only [step] at hstep
    split at hstep <;> cases hstep
    next clock hstage =>
      refine hmoved rfl ?_
      by_cases hpassed : wait.floor ≤ clock
      · simp only [stageLeft, hstage, if_pos hpassed]
        split <;> omega
      · have hlate : clock < wait.ceiling :=
          (Nat.not_le.mp hpassed).trans_le floor_le
        simp [stageLeft, hstage, hpassed, hlate]
  | readStatus =>
    simp only [step] at hstep
    split at hstep <;> cases hstep
    next view hstage => exact hmoved rfl (by simp [stageLeft, hstage])
  | _ => cases hown

theorem left_other (hother : own action = false) (hstep : wait.step action = some after) :
    after.left ≤ wait.left := by
  cases action with
  | elapse | stop =>
    cases hstep
    exact left_beside rfl rfl rfl rfl rfl fun owed howed => ⟨owed, howed, rfl⟩
  | owe =>
    cases hstep
    exact left_beside rfl rfl rfl rfl rfl fun owed => abortedAt_map fun _ => abortedAt_owe
  | release =>
    cases hstep
    exact left_beside rfl rfl rfl rfl rfl fun owed =>
      @abortedAt_map Owed.release (fun _ => rfl) wait.record owed
  | abort instant =>
    simp only [step] at hstep
    split at hstep
    next owed hrecord =>
      split at hstep <;> cases hstep
      next hopen =>
        -- The record is written once: its share covers the notification it owes.
        have hwritten : (owed.record instant).abortedAt = some instant := by
          simp [Owed.record, hopen.1]
        unfold left stageLeft ceiling
        simp only [hrecord, hwritten, hopen.1, reduceCtorEq, if_false, if_true]
        split <;> split <;> omega
    next => cases hstep
  | notify =>
    simp only [step] at hstep
    split at hstep <;> cases hstep
    next howed =>
      unfold left stageLeft ceiling
      simp only [howed, if_true, Bool.false_eq_true, if_false]
      split <;> (try split) <;> (try split) <;> omega
  | wakeSpurious =>
    simp only [step] at hstep
    split at hstep <;> cases hstep
    exact Nat.le_refl _
  | _ => cases hother

theorem frame_step (hstep : wait.step action = some after) :
    after.budgetAt = wait.budgetAt ∧ after.cap = wait.cap ∧ wait.now ≤ after.now := by
  cases action <;> simp only [step] at hstep <;> (try split at hstep) <;> (try split at hstep) <;>
    cases hstep <;> exact ⟨rfl, rfl, by simp⟩

theorem left_run {labels : List EndWaitAction} (hpast : wait.ceiling ≤ wait.now)
    (hrun : run step wait labels = some after) :
    (labels.filter own).length + after.left ≤ wait.left := by
  induction labels generalizing wait with
  | nil =>
    cases hrun
    simp
  | cons action labels ih =>
    obtain ⟨next, hstep, hrest⟩ := Option.bind_eq_some_iff.mp hrun
    obtain ⟨hbudget, hcap, hnow⟩ := frame_step hstep
    have hnext := ih (by unfold ceiling at hpast ⊢; rw [hbudget, hcap]; exact hpast.trans hnow)
      hrest
    cases hown : own action with
    | true =>
      have hless := left_own hpast hown hstep
      simp only [List.filter_cons, hown, if_true, List.length_cons]
      omega
    | false =>
      have hless := left_other hown hstep
      simp only [List.filter_cons, hown, Bool.false_eq_true, if_false]
      omega

theorem left_le : wait.left ≤ 18 := by
  have hstage : wait.stageLeft ≤ 7 := by
    unfold stageLeft
    split <;> (try split) <;> omega
  unfold left
  split <;> split <;> (try split) <;> omega

/-- A wait past its ceiling that has not answered has a step to take. -/
theorem enabled (hholds : wait.Holds) (hpast : wait.ceiling ≤ wait.now)
    (hopen : ∀ ended instant view, wait.stage ≠ .answered ended instant view) :
    ∃ action, own action = true ∧ (wait.step action).isSome = true := by
  cases hstage : wait.stage with
  | arm => exact ⟨.arm, rfl, by simp [step, hstage]⟩
  | readFloor => exact ⟨.readFloor, rfl, by simp [step, hstage]⟩
  | parked since sleepAt =>
    have hsleep : sleepAt ≤ wait.now := by
      unfold Holds at hholds
      rw [hstage] at hholds
      exact hholds.trans hpast
    exact ⟨.wakeSlept, rfl, by simp [step, hstage, hsleep]⟩
  | compare => exact ⟨.compare, rfl, by simp [step, hstage]⟩
  | readStatus => exact ⟨.readStatus, rfl, by simp [step, hstage]⟩
  | answered ended instant view => exact absurd hstage (hopen ended instant view)

/-- The states of a wait that began with the budget and the cap. -/
def Reached (budget cap now : Nat) (stopped : Bool) (record : Option Owed) (wait : EndWait) :
    Prop :=
  Reaches step always (start budget cap now stopped record) wait

theorem Reached.holds {budget cap now : Nat} {stopped : Bool} {record : Option Owed}
    (hreach : Reached budget cap now stopped record wait) :
    wait.Holds ∧ wait.budgetAt = now + min budget farFuture ∧ wait.cap = min cap farFuture := by
  refine @Reaches.invariant EndWait EndWaitAction step always
    (start budget cap now stopped record) wait
    (fun wait => wait.Holds ∧ wait.budgetAt = now + min budget farFuture ∧
      wait.cap = min cap farFuture) ⟨trivial, ?_, rfl⟩ ?_ hreach
  · simp [start, saturatingDeadline, boundedWait]
  · intro state action next hinv _ hstep
    obtain ⟨hbudget, hcap, _⟩ := frame_step hstep
    exact ⟨hinv.1.step hstep, hbudget.trans hinv.2.1, hcap.trans hinv.2.2⟩

end EndWait

/-- **The wait for an end gives no early verdict and is finite.** It answers that
the incarnation has not ended only past its budget's deadline, past the settle
time of an abort its last read found recorded within the cap, and past the cap
when its last read found an abort owed. Its floor is never past the cap and the
settle time, and past that instant it has a step to take until it has answered,
and takes 18 at most. A budget and a cap count for at most `farFuture`. -/
theorem end_wait_answers_after_its_floor {budget cap now : Nat} {stopped : Bool}
    {record : Option Subtree.Owed} {wait : EndWait}
    (hreach : EndWait.Reached budget cap now stopped record wait) :
    (∀ instant view, wait.stage = .answered false instant view →
      now + min budget farFuture ≤ instant ∧
      (∀ aborted, view.1 = some aborted →
        aborted ≤ now + min budget farFuture + min cap farFuture →
          aborted + abortSettle ≤ instant) ∧
      (view.2 = true → now + min budget farFuture + min cap farFuture ≤ instant)) ∧
    wait.floor ≤ now + min budget farFuture + min cap farFuture + abortSettle ∧
    (now + min budget farFuture + min cap farFuture + abortSettle ≤ wait.now →
      ((∀ ended instant view, wait.stage ≠ .answered ended instant view) →
        ∃ action, EndWait.own action = true ∧ (wait.step action).isSome = true) ∧
      ∀ labels after, run EndWait.step wait labels = some after →
        (labels.filter EndWait.own).length ≤ 18) := by
  obtain ⟨hholds, hbudget, hcap⟩ := hreach.holds
  have hdeadline : saturatingDeadline wait.budgetAt wait.cap =
      now + min budget farFuture + min cap farFuture := by
    rw [saturatingDeadline, hbudget, hcap, Nat.min_eq_left (Nat.min_le_right _ _)]
  have hceiling : wait.ceiling =
      now + min budget farFuture + min cap farFuture + abortSettle := by
    rw [EndWait.ceiling, hdeadline]
  refine ⟨fun instant view hstage => ?_, ?_, fun hpast => ?_⟩
  · unfold EndWait.Holds at hholds
    rw [hstage] at hholds
    have hripe := hholds.2 rfl
    refine ⟨hbudget ▸ hripe.budget, fun aborted hview hle => ?_, fun howed => ?_⟩
    · exact hripe.settled aborted hview (hdeadline ▸ hle)
    · exact hdeadline ▸ hripe.owed howed
  · rw [← hceiling]
    exact EndWait.floor_le
  · rw [← hceiling] at hpast
    refine ⟨EndWait.enabled hholds hpast, fun labels after hrun => ?_⟩
    have hleft := EndWait.left_run hpast hrun
    have hbound := @EndWait.left_le wait
    omega

/-- A wait of one second with an abort owed at its first pass and recorded past the
budget's deadline: it answers at the settle time past the abort. -/
def lateAbort : List EndWaitAction :=
  [.owe, .arm, .readFloor, .elapse (15 * 10 ^ 8), .abort (15 * 10 ^ 8), .notify, .wakeRecorded,
    .arm, .readFloor, .wakeSpurious, .elapse (10 ^ 8), .wakeSlept, .compare, .readStatus]

theorem lateAbort_goes : (run EndWait.step (.start (10 ^ 9) (10 ^ 9) 0 false (some {}))
    lateAbort).isSome = true := by
  decide +kernel

theorem end_wait_answers_after_its_floor_late :
    ∃ wait, EndWait.Reached (10 ^ 9) (10 ^ 9) 0 false (some {}) wait ∧
      wait.stage = .answered false (16 * 10 ^ 8) (some (15 * 10 ^ 8), false) ∧
      15 * 10 ^ 8 + abortSettle ≤ 16 * 10 ^ 8 := by
  have hreach : EndWait.Reached (10 ^ 9) (10 ^ 9) 0 false (some {}) _ :=
    reaches_get lateAbort_goes
  have hstage : ((run EndWait.step (.start (10 ^ 9) (10 ^ 9) 0 false (some {}))
      lateAbort).get lateAbort_goes).stage =
        .answered false (16 * 10 ^ 8) (some (15 * 10 ^ 8), false) := by decide +kernel
  have hanswer := (end_wait_answers_after_its_floor hreach).1 _ _ hstage
  exact ⟨_, hreach, hstage, hanswer.2.1 (15 * 10 ^ 8) rfl (by decide)⟩

/-- A wait whose cap is longer than a timer is set to. -/
def longCap : List EndWaitAction :=
  [.owe, .arm, .readFloor, .elapse farFuture, .wakeSlept, .compare, .readStatus]

theorem longCap_goes : (run EndWait.step (.start 0 (farFuture + 1) 0 false (some {}))
    longCap).isSome = true := by
  decide +kernel

/-- Its verdict comes before the cap has passed, with an abort owed. -/
theorem end_wait_cuts_a_long_cap :
    ∃ wait instant, EndWait.Reached 0 (farFuture + 1) 0 false (some {}) wait ∧
      wait.stage = .answered false instant (none, true) ∧ instant < 0 + 0 + (farFuture + 1) :=
  ⟨_, farFuture, reaches_get longCap_goes, by decide +kernel, by decide⟩

end TokioActors
