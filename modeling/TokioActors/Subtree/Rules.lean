/-
# The rules of waits on a subtree

How long an incarnation can outlive a killed parent, what that adds to the
budget its subtree carries, the bound of a wait on the subtree, and the earliest
instant such a wait may give its verdict. Times are nanoseconds; a budget is a
64-bit word whose largest value reads as unbounded.
-/

import TokioActors.Types

namespace TokioActors.Subtree

/-- The largest 64-bit word: as a budget, no bound. -/
def u64Max : Nat := 2 ^ 64 - 1

/-- The largest 32-bit word. -/
def u32Max : Nat := 2 ^ 32 - 1

/-- The nanoseconds of a duration as a 64-bit word. -/
def saturatingNanos (dur : Nat) : Nat := min dur u64Max

/-- The sum of two words, saturating. -/
def saturatingAdd (first second : Nat) : Nat := min (first + second) u64Max

/-- The sum of two words, wrapping. -/
def wrappingAdd (first second : Nat) : Nat := (first + second) % 2 ^ 64

/-- Caps a wait at what a timer is set to. -/
def boundedWait (dur : Nat) : Nat := min dur farFuture

/-- The time an incarnation can outlive a killed parent; none is no bound. -/
def ownBudget (isSupervisor : Bool) (shutdown : Shutdown) (killGrace : Nat) : Option Nat :=
  let tail := saturatingAdd (saturatingNanos killGrace) (saturatingNanos abortSettle)
  let finite (sum : Nat) : Option Nat := if sum = u64Max then none else some sum
  match isSupervisor, shutdown with
  | true, .timeout window => finite (saturatingAdd (saturatingNanos window) tail)
  | true, .infinity => none
  | _, _ => finite tail

/-- What a child adds to the budget its subtree carries. -/
def ownFin (isSupervisor : Bool) (shutdown : Shutdown) (killGrace : Nat) : Nat :=
  (if isSupervisor ∧ shutdown = .infinity then ownBudget false shutdown killGrace
    else ownBudget isSupervisor shutdown killGrace).getD durationMax

/-- The bound of a wait on a subtree; none is no bound. -/
def successorBound (belowNanos infLive : Nat) : Option Nat :=
  if infLive > 0 then none
  else
    let sum := saturatingAdd belowNanos (saturatingNanos abortSettle)
    if sum = u64Max then none else some sum

/-- The earliest instant a wait may give the Unresponsive verdict. -/
def verdictFloor (budgetAt cap : Nat) (abortedAt : Option Nat) (owed : Bool) : Nat :=
  let settled := match abortedAt with
    | none => budgetAt
    | some instant => max budgetAt (saturatingDeadline instant abortSettle)
  let held := if owed then max settled (saturatingDeadline budgetAt cap) else settled
  min held (saturatingDeadline (saturatingDeadline budgetAt cap) abortSettle)

/-! ## The floor -/

variable {budgetAt cap : Nat} {abortedAt : Option Nat} {owed : Bool}

theorem deadline_settle {base : Nat} :
    saturatingDeadline base abortSettle = base + abortSettle := by
  unfold saturatingDeadline
  rw [Nat.min_eq_left (by decide)]

theorem le_saturatingDeadline {base dur : Nat} : base ≤ saturatingDeadline base dur :=
  Nat.le_add_right _ _

theorem budgetAt_le_verdictFloor : budgetAt ≤ verdictFloor budgetAt cap abortedAt owed := by
  have hceiling : budgetAt ≤ saturatingDeadline (saturatingDeadline budgetAt cap) abortSettle :=
    le_saturatingDeadline.trans le_saturatingDeadline
  unfold verdictFloor
  refine le_min ?_ hceiling
  cases abortedAt <;> cases owed <;> simp

/-- An abort recorded within the cap keeps its whole settle time. -/
theorem settle_le_verdictFloor {instant : Nat} (hcap : instant ≤ saturatingDeadline budgetAt cap) :
    instant + abortSettle ≤ verdictFloor budgetAt cap (some instant) owed := by
  unfold verdictFloor
  simp only [deadline_settle]
  refine le_min ?_ (Nat.add_le_add_right hcap _)
  cases owed <;> simp

/-- While an abort is owed the floor is not before the cap. -/
theorem cap_le_verdictFloor :
    saturatingDeadline budgetAt cap ≤ verdictFloor budgetAt cap abortedAt true := by
  unfold verdictFloor
  refine le_min ?_ le_saturatingDeadline
  simp

theorem verdictFloor_le :
    verdictFloor budgetAt cap abortedAt owed ≤ saturatingDeadline budgetAt cap + abortSettle := by
  unfold verdictFloor
  rw [← deadline_settle]
  exact min_le_right _ _

end TokioActors.Subtree
