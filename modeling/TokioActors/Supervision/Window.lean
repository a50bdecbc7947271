/-
# The restart budget is a sliding window

The budget keeps the instants of the restarts it granted and forgets the ones
that left its window, from the front of its queue and only when the clock is
past the window's length. What it forgot no later call can count, so its answers
are those of a counter over the whole history.
-/

import Mathlib.Data.List.TakeWhile
import TokioActors.Supervision.State

namespace TokioActors

namespace RestartBudget

/-- A budget that has granted nothing. -/
def new (maxRestarts restartWindow : Nat) : RestartBudget := { maxRestarts, restartWindow }

/-- The budget after calls at the given times, newest first, with its answers. -/
def replay (budget : RestartBudget) : List Nat → RestartBudget × List Bool
  | [] => (budget, [])
  | now :: earlier =>
    let before := budget.replay earlier
    let charged := before.1.checkAndRecord now
    (charged.1, charged.2 :: before.2)

/-- The instants of the calls that were granted, newest first. -/
def granted (budget : RestartBudget) (times : List Nat) : List Nat :=
  ((times.zip (budget.replay times).2).filter Prod.snd).map Prod.fst

/-- The granted calls whose instant is in the window that ends now. -/
def inWindow (restartWindow now : Nat) (granted : List Nat) : Nat :=
  granted.countP fun time => decide (now - time ≤ restartWindow)

/-- The instant has left the window that ends now, as the pruning sees it. -/
def expired (restartWindow now time : Nat) : Bool :=
  decide (restartWindow ≤ now) && decide (time < now - restartWindow)

/-- The queue after the pruning of a call. -/
def pruned (budget : RestartBudget) (now : Nat) : List Nat :=
  budget.timestamps.dropWhile (expired budget.restartWindow now)

theorem checkAndRecord_eq (budget : RestartBudget) (now : Nat) :
    budget.checkAndRecord now =
      if budget.maxRestarts ≤ (budget.pruned now).length then
        ({ budget with timestamps := budget.pruned now }, false)
      else ({ budget with timestamps := budget.pruned now ++ [now] }, true) := by
  have hkept : (if budget.restartWindow ≤ now then
      budget.timestamps.dropWhile fun front => decide (front < now - budget.restartWindow)
      else budget.timestamps) = budget.pruned now := by
    unfold pruned
    split
    · rename_i hlate
      have hexpired : expired budget.restartWindow now =
          fun front => decide (front < now - budget.restartWindow) := by
        funext front
        simp [expired, hlate]
      rw [hexpired]
    · rename_i hearly
      have hnone : expired budget.restartWindow now = fun _ => false := by
        funext front
        simp [expired, hearly]
      rw [hnone]
      cases budget.timestamps <;> rfl
  simp only [checkAndRecord, hkept, ge_iff_le]

/-- An instant that is not after now is expired when the window does not reach it. -/
theorem expired_eq {restartWindow now time : Nat} (hpast : time ≤ now) :
    expired restartWindow now time = !decide (now - time ≤ restartWindow) := by
  rw [Bool.eq_iff_iff]
  simp only [expired, Bool.and_eq_true, decide_eq_true_eq, Bool.not_eq_true',
    decide_eq_false_iff_not]
  omega

/-! ## What the queue remembers -/

/-- The queue holds the granted instants but for those that left the window by
the last call, oldest first. -/
structure Remembers (restartWindow latest : Nat) (timestamps granted : List Nat) : Prop where
  kept : ∃ forgotten, granted = timestamps.reverse ++ forgotten ∧
    ∀ time ∈ forgotten, restartWindow < latest - time
  sorted : timestamps.Pairwise (· ≤ ·)
  past : ∀ time ∈ timestamps, time ≤ latest

namespace Remembers

variable {restartWindow latest now : Nat} {timestamps granted : List Nat}

/-- What is not expired stays in the queue, as the front is the oldest. -/
theorem dropWhile_eq_filter (hsorted : timestamps.Pairwise (· ≤ ·)) :
    timestamps.dropWhile (expired restartWindow now) =
      timestamps.filter fun time => !expired restartWindow now time := by
  induction timestamps with
  | nil => rfl
  | cons front rest ih =>
    obtain ⟨hfront, hrest⟩ := List.pairwise_cons.mp hsorted
    by_cases hexpired : expired restartWindow now front = true
    · rw [List.dropWhile_cons_of_pos hexpired, ih hrest,
        List.filter_cons_of_neg (by simp [hexpired])]
    · have hkept : ∀ time ∈ front :: rest, (!expired restartWindow now time) = true := by
        intro time hmem
        have hle : front ≤ time := by
          rcases List.mem_cons.mp hmem with rfl | hlater
          · exact le_rfl
          · exact hfront time hlater
        simp only [expired, Bool.and_eq_true, decide_eq_true_eq, not_and, not_lt, Bool.not_eq_true',
          Bool.and_eq_false_iff, decide_eq_false_iff_not] at hexpired ⊢
        omega
      rw [List.dropWhile_cons_of_neg hexpired, List.filter_eq_self.mpr hkept]

/-- A call that comes later counts the pruned queue, and nothing that was forgotten. -/
theorem inWindow_eq (hholds : Remembers restartWindow latest timestamps granted)
    (hlater : latest ≤ now) :
    inWindow restartWindow now granted =
      (timestamps.dropWhile (expired restartWindow now)).length := by
  obtain ⟨⟨forgotten, rfl, hforgotten⟩, hsorted, hpast⟩ := hholds
  have hnone : forgotten.countP (fun time => decide (now - time ≤ restartWindow)) = 0 := by
    rw [List.countP_eq_zero]
    intro time hmem
    have hold := hforgotten time hmem
    simp only [decide_eq_true_eq]
    omega
  rw [inWindow, List.countP_append, hnone, List.countP_reverse, dropWhile_eq_filter hsorted,
    ← List.countP_eq_length_filter, add_zero]
  refine List.countP_congr fun time hmem => ?_
  rw [expired_eq ((hpast time hmem).trans hlater), Bool.not_not]

theorem prune (hholds : Remembers restartWindow latest timestamps granted) (hlater : latest ≤ now) :
    Remembers restartWindow now (timestamps.dropWhile (expired restartWindow now)) granted := by
  obtain ⟨⟨forgotten, rfl, hforgotten⟩, hsorted, hpast⟩ := hholds
  have hsub := List.dropWhile_sublist (expired restartWindow now) (l := timestamps)
  refine ⟨⟨(timestamps.takeWhile (expired restartWindow now)).reverse ++ forgotten, ?_, ?_⟩,
    hsorted.sublist hsub, fun time hmem => (hpast time (hsub.subset hmem)).trans hlater⟩
  · rw [← List.append_assoc, ← List.reverse_append, List.takeWhile_append_dropWhile]
  · intro time hmem
    rcases List.mem_append.mp hmem with hpruned | hold
    · have hexpired := List.mem_takeWhile_imp (List.mem_reverse.mp hpruned)
      simp only [expired, Bool.and_eq_true, decide_eq_true_eq] at hexpired
      omega
    · have := hforgotten time hold
      omega

theorem record (hholds : Remembers restartWindow now timestamps granted) :
    Remembers restartWindow now (timestamps ++ [now]) (now :: granted) := by
  obtain ⟨⟨forgotten, rfl, hforgotten⟩, hsorted, hpast⟩ := hholds
  refine ⟨⟨forgotten, by simp, hforgotten⟩, ?_, ?_⟩
  · rw [List.pairwise_append]
    exact ⟨hsorted, List.pairwise_singleton _ _, fun time hmem last hlast =>
      List.mem_singleton.mp hlast ▸ hpast time hmem⟩
  · intro time hmem
    rcases List.mem_append.mp hmem with hold | hnew
    · exact hpast time hold
    · exact (List.mem_singleton.mp hnew).le

/-- A call answers like a counter over the grants before it, and remembers its own. -/
theorem call {budget : RestartBudget} (hwindow : budget.restartWindow = restartWindow)
    (hholds : Remembers restartWindow latest budget.timestamps granted) (hlater : latest ≤ now) :
    let after := budget.checkAndRecord now
    (after.2 = true ↔ inWindow restartWindow now granted < budget.maxRestarts) ∧
      after.1.maxRestarts = budget.maxRestarts ∧ after.1.restartWindow = restartWindow ∧
      Remembers restartWindow now after.1.timestamps
        (if after.2 then now :: granted else granted) := by
  subst hwindow
  rw [checkAndRecord_eq, hholds.inWindow_eq hlater, ← pruned]
  have hpruned := hholds.prune hlater
  split
  next hfull => exact ⟨by simpa using hfull, rfl, rfl, hpruned⟩
  next hroom => exact ⟨by simpa using hroom, rfl, rfl, hpruned.record⟩

end Remembers

/-! ## Runs -/

theorem granted_cons (budget : RestartBudget) (now : Nat) (earlier : List Nat) :
    budget.granted (now :: earlier) =
      if ((budget.replay earlier).1.checkAndRecord now).2 then now :: budget.granted earlier
      else budget.granted earlier := by
  unfold granted
  simp only [replay, List.zip_cons_cons, List.filter_cons]
  split <;> rfl

/-- What a run of calls in time order leaves of a new budget. -/
theorem replay_remembers {maxRestarts restartWindow : Nat} {times : List Nat}
    (hordered : times.Pairwise (· ≥ ·)) :
    let after := ((new maxRestarts restartWindow).replay times).1
    after.maxRestarts = maxRestarts ∧ after.restartWindow = restartWindow ∧
      after.timestamps.length ≤ maxRestarts ∧
      ∀ now, (∀ time ∈ times, time ≤ now) → ∃ latest ≤ now,
        Remembers restartWindow latest after.timestamps
          ((new maxRestarts restartWindow).granted times) := by
  induction times with
  | nil => exact ⟨rfl, rfl, Nat.zero_le _, fun now _ =>
    ⟨0, Nat.zero_le _, ⟨[], rfl, by simp⟩, .nil, by simp [new, replay]⟩⟩
  | cons now earlier ih =>
    obtain ⟨hpast, hearlier⟩ := List.pairwise_cons.mp hordered
    obtain ⟨hmax, hwindow, hlength, hremembers⟩ := ih hearlier
    obtain ⟨latest, hlatest, hholds⟩ := hremembers now hpast
    obtain ⟨_, hmax', hwindow', hholds'⟩ := hholds.call hwindow hlatest
    have hle := (List.dropWhile_sublist (expired restartWindow now)
      (l := ((new maxRestarts restartWindow).replay earlier).1.timestamps)).length_le
    refine ⟨hmax'.trans hmax, hwindow', ?_, fun later hlater =>
      ⟨now, hlater now (List.mem_cons_self ..), ?_⟩⟩
    · simp only [replay, checkAndRecord_eq, pruned, hmax, hwindow]
      split
      · exact hle.trans hlength
      · simp only [List.length_append, List.length_singleton]
        omega
    · rw [granted_cons]
      exact hholds'

/-- The budget answers like a counter over its whole history: a call is granted
when fewer than `maxRestarts` of the calls granted before it are in the window
that ends with it. The queue never holds more than `maxRestarts` instants. -/
theorem answers_sliding_window (maxRestarts restartWindow now : Nat) (earlier : List Nat)
    (hordered : (now :: earlier).Pairwise (· ≥ ·)) :
    let budget : RestartBudget := new maxRestarts restartWindow
    let before := (budget.replay earlier).1
    ((before.checkAndRecord now).2 = true ↔
        inWindow restartWindow now (budget.granted earlier) < maxRestarts) ∧
      before.timestamps.length ≤ maxRestarts ∧
      (before.checkAndRecord now).1.timestamps.length ≤ maxRestarts := by
  intro budget before
  obtain ⟨hpast, hearlier⟩ := List.pairwise_cons.mp hordered
  obtain ⟨hmax, hwindow, hlength, hremembers⟩ :=
    @replay_remembers maxRestarts restartWindow earlier hearlier
  obtain ⟨latest, hlatest, hholds⟩ := hremembers now hpast
  have hanswer := (hholds.call hwindow hlatest).1
  rw [hmax] at hanswer
  exact ⟨hanswer, hlength,
    (@replay_remembers maxRestarts restartWindow (now :: earlier) hordered).2.2.1⟩

/-- The third call in one window of a budget of two is refused. -/
theorem answers_sliding_window_three :
    inWindow 10 9 ((new 2 10).granted [4, 3]) = 2 ∧
      ((((new 2 10).replay [4, 3]).1.checkAndRecord 9).2 = true ↔
        inWindow 10 9 ((new 2 10).granted [4, 3]) < 2) :=
  ⟨by decide, (answers_sliding_window 2 10 9 [4, 3] (by decide)).1⟩

end RestartBudget

end TokioActors
