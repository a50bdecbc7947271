/-
# The balance of a mailbox's books

When the books and the holdings of the parties agree: each list's lock has one
holder, a list's count and the total differ from the lists by exactly what the
parties have yet to enter, an entry of a list belongs to one parked reservation
that still waits, and the units in the room, granted, held by permits, queued
and on their way are the mailbox's capacity. One change of the books moves both
sides of each of these balances alike.
-/

import Mathlib.Algebra.BigOperators.Group.Finset.Basic
import Mathlib.Algebra.BigOperators.Group.Finset.Piecewise
import Mathlib.Algebra.Order.BigOperators.Group.Finset
import TokioActors.Mailbox.Changes

namespace TokioActors.Mailbox

open Machine.Pool Holding

universe u

namespace Holding

def holds (index : Nat) (h : Holding) : ℤ := if h.critical = some index then 1 else 0

/-- What the party holds of the list whose lock it holds. -/
def within (index : Nat) (weight : Holding → ℤ) (h : Holding) : ℤ :=
  if h.critical = some index then weight h else 0

/-- How often the party took the waiter out of the list and did not change its state yet. -/
def took (index : Nat) (waiter : WaiterId) : Holding → ℤ :=
  within index fun h => (h.removed.count waiter : ℤ)

/-- The party is a reservation parked on the waiter, in the list. -/
def ticketed (ticket : Ticket) (h : Holding) : ℤ := if h.ticket = some ticket then 1 else 0

/-- The party is a reservation parked on the waiter. -/
def owns (waiter : WaiterId) (h : Holding) : ℤ :=
  match h.ticket with
  | some (_, other) => if other = waiter then 1 else 0
  | none => 0

/-- The party's waiter was granted a unit that the party has not yet taken. -/
def granted (states : WaiterId → WaiterState) (h : Holding) : ℤ :=
  match h.ticket with
  | some (_, waiter) => if states waiter = .granted then 1 else 0
  | none => 0

structure Fit (b : Books) (h : Holding) : Prop where
  outside : h.critical = none → h.removed = [] ∧ h.added = 0 ∧ h.drawn = 0 ∧ h.debt = 0
  inside : ∀ index, h.critical = some index → index < b.laneCount
  ticket : ∀ index waiter, h.ticket = some (index, waiter) →
    index < b.laneCount ∧ (index = 0 ∨ b.more = true)
  nonneg : 0 ≤ h.added ∧ 0 ≤ h.drawn ∧ 0 ≤ h.transit ∧ 0 ≤ h.permits ∧ 0 ≤ h.handles
  debts : 0 ≤ h.debt + h.added ∧ h.debt ≤ h.drawn

theorem fit_handles (b : Books) {handles : ℤ} (hnonneg : 0 ≤ handles) :
    Fit b { handles := handles } :=
  ⟨fun _ => ⟨rfl, rfl, rfl, rfl⟩, nofun, nofun, ⟨le_rfl, le_rfl, le_rfl, le_rfl, hnonneg⟩, by simp⟩

theorem holds_nonneg (index : Nat) (h : Holding) : 0 ≤ h.holds index := by
  unfold holds
  split <;> omega

theorem ticketed_nonneg (ticket : Ticket) (h : Holding) : 0 ≤ h.ticketed ticket := by
  unfold ticketed
  split <;> omega

theorem owns_nonneg (waiter : WaiterId) (h : Holding) : 0 ≤ h.owns waiter := by
  unfold owns
  repeat' split
  all_goals omega

theorem granted_nonneg (states : WaiterId → WaiterState) (h : Holding) : 0 ≤ h.granted states := by
  unfold granted
  repeat' split
  all_goals omega

theorem took_nonneg (index : Nat) (waiter : WaiterId) (h : Holding) : 0 ≤ h.took index waiter := by
  unfold took within
  split
  · exact Int.natCast_nonneg _
  · exact le_rfl

/-- A ticket for one list is no ticket for another, and either owns the waiter. -/
theorem ticketed_add_le_owns {index other : Nat} (hne : other ≠ index) (waiter : WaiterId)
    (h : Holding) : h.ticketed (other, waiter) + h.ticketed (index, waiter) ≤ h.owns waiter := by
  unfold ticketed owns
  rcases hticket : h.ticket with _ | ⟨list, entry⟩
  · simp
  · simp only [Option.some.injEq, Prod.mk.injEq]
    split_ifs <;> grind

theorem ticketed_le_owns (ticket : Ticket) (h : Holding) : h.ticketed ticket ≤ h.owns ticket.2 := by
  unfold ticketed owns
  rcases hticket : h.ticket with _ | ⟨list, entry⟩
  · simp
  · by_cases hentry : some (list, entry) = some ticket
    · cases hentry
      simp
    · rw [if_neg hentry]
      dsimp only
      split <;> omega

/-- A new state of a waiter that was not granted counts once for each owner. -/
theorem granted_update {states : WaiterId → WaiterState} {waiter : WaiterId} {state : WaiterState}
    (hstate : states waiter ≠ .granted) (h : Holding) :
    h.granted (Function.update states waiter state) =
      h.granted states + if state = .granted then h.owns waiter else 0 := by
  unfold granted owns
  rcases h.ticket with _ | ⟨list, entry⟩
  · simp
  · by_cases hentry : entry = waiter
    · subst hentry
      simp [hstate]
    · simp [hentry]

/-- A new state of a waiter says nothing to a party that does not own it. -/
theorem granted_update_of_not_owns {states : WaiterId → WaiterState} {waiter : WaiterId}
    {state : WaiterState} {h : Holding} (howns : h.owns waiter = 0) :
    h.granted (Function.update states waiter state) = h.granted states := by
  unfold owns at howns
  unfold granted
  rcases hticket : h.ticket with _ | ⟨list, entry⟩
  · rfl
  · have hentry : entry ≠ waiter := by
      rintro rfl
      simp [hticket] at howns
    simp [hentry]

/-- A party that has taken entries out of a list holds its lock. -/
theorem Fit.critical {b : Books} {h : Holding} (hfit : h.Fit b) {waiter : WaiterId}
    (hmem : waiter ∈ h.removed) : ∃ index, h.critical = some index := by
  cases hcritical : h.critical with
  | some index => exact ⟨index, rfl⟩
  | none =>
    rw [(hfit.outside hcritical).1] at hmem
    cases hmem

end Holding

def Books.listed (b : Books) : ℤ :=
  ∑ index ∈ Finset.range b.laneCount, ((b.lanes index).waiters.length : ℤ)

/-- The books of a mailbox and what its parties hold agree. -/
structure Sound (b : Books) (parties : List Holding) : Prop where
  fit : ∀ h ∈ parties, h.Fit b
  locks : ∀ index, weigh (holds index) parties = if (b.lanes index).locked then 1 else 0
  counts : ∀ index, (b.lanes index).waiting =
    (b.lanes index).waiters.length + weigh (within index debt) parties
  total : b.waitingTotal = b.listed + weigh drawn parties - weigh added parties
  added : ∀ index,
    weigh (within index added) parties ≤ (b.lanes index).waiters.length
  owned : ∀ waiter, weigh (owns waiter) parties ≤ 1
  fresh : ∀ waiter, b.nextWaiter ≤ waiter → weigh (owns waiter) parties = 0
  entries : ∀ index waiter,
    (b.lanes index).waiters.count waiter + weigh (took index waiter) parties ≤
      weigh (ticketed (index, waiter)) parties
  waiting : ∀ index waiter,
    0 < (b.lanes index).waiters.count waiter + weigh (took index waiter) parties →
      b.states waiter = .waiting
  units : b.room + weigh (granted b.states) parties + weigh permits parties +
    b.queued + weigh transit parties = b.capacity
  room : 0 ≤ b.room
  handles : b.txCount = weigh handles parties

/-- Changing one list changes the number of listed entries by that list's. -/
theorem Books.listed_update {b b' : Books} {index : Nat} {lane : Lane}
    (hbound : index < b.laneCount) (hlanes : b'.lanes = Function.update b.lanes index lane)
    (hcount : b'.laneCount = b.laneCount) :
    b'.listed + (b.lanes index).waiters.length = b.listed + lane.waiters.length := by
  have hmem : index ∈ Finset.range b.laneCount := Finset.mem_range.mpr hbound
  have hothers : ∑ other ∈ (Finset.range b.laneCount).erase index,
      ((b'.lanes other).waiters.length : ℤ) =
      ∑ other ∈ (Finset.range b.laneCount).erase index, ((b.lanes other).waiters.length : ℤ) := by
    refine Finset.sum_congr rfl fun other hother => ?_
    rw [hlanes, Function.update_of_ne (Finset.ne_of_mem_erase hother)]
  have hindex : b'.lanes index = lane := by rw [hlanes, Function.update_self]
  unfold Books.listed
  rw [hcount, ← Finset.add_sum_erase _ _ hmem, hothers, hindex,
    ← Finset.add_sum_erase _ (fun other => ((b.lanes other).waiters.length : ℤ)) hmem]
  omega

variable {b b' : Books} {h h' : Holding} {entering parties : List Holding} {i : Nat}

/-! ## What a change keeps on its own -/

namespace Change

variable (hchange : Change b h b' h' entering)

include hchange

theorem laneCount : b'.laneCount = b.laneCount := by
  cases hchange <;> rfl

theorem capacity : b'.capacity = b.capacity := by
  cases hchange <;> rfl

theorem more : b.more = true → b'.more = true := by
  cases hchange with
  | move _ _ _ _ lists => exact lists
  | _ => exact id

theorem fit_mono {other : Holding} (hfit : other.Fit b) : other.Fit b' := by
  have hlanes := hchange.laneCount
  have hmore := hchange.more
  refine ⟨hfit.outside, fun index hin => ?_, fun index waiter hticket => ?_, hfit.nonneg,
    hfit.debts⟩
  · rw [hlanes]
    exact hfit.inside index hin
  · rw [hlanes]
    exact (hfit.ticket index waiter hticket).imp_right (Or.imp_right hmore)

theorem entering_eq {other : Holding}
    (hmem : other ∈ entering) : other = { handles := other.handles } ∧ 0 ≤ other.handles := by
  cases hchange with
  | move _ _ _ _ _ plain =>
    rw [plain other hmem]
    exact ⟨rfl, le_rfl⟩
  | clone =>
    rw [List.mem_singleton.mp hmem]
    exact ⟨rfl, by decide⟩
  | _ => cases hmem

/-- A weight that only looks past the handles sees nothing come in. -/
theorem weigh_entering {weight : Holding → ℤ}
    (hzero : ∀ handles, weight { handles := handles } = 0) : weigh weight entering = 0 := by
  refine weigh_zero fun other hmem => ?_
  rw [(hchange.entering_eq hmem).1]
  exact hzero _

theorem fit (hfit : h.Fit b) : h'.Fit b' := by
  have hmono := hchange.fit_mono hfit
  obtain ⟨hadded, hdrawn, htransit, hpermits, hhandles⟩ := hfit.nonneg
  cases hchange with
  | move _ _ carried permitted =>
    exact ⟨hmono.outside, hmono.inside, hmono.ticket,
      ⟨hadded, hdrawn, carried, permitted, hhandles⟩, hfit.debts⟩
  | lock bound =>
    refine ⟨nofun, fun index hin => ?_, hmono.ticket, hmono.nonneg, hfit.debts⟩
    cases hin
    exact bound
  | push inside unlisted settled existing =>
    refine ⟨fun hout => ?_, hmono.inside, fun index waiter hticket => ?_,
      ⟨Int.one_nonneg, hdrawn, htransit, hpermits, hhandles⟩, ?_⟩
    · cases inside.symm.trans hout
    · cases hticket
      exact ⟨hfit.inside _ inside, existing⟩
    · dsimp only
      omega
  | pop bound =>
    refine ⟨nofun, fun index hin => ?_, hmono.ticket,
      ⟨hadded, Int.one_nonneg, htransit, hpermits, hhandles⟩, ?_⟩
    · cases hin
      exact bound
    · dsimp only
      omega
  | withdraw ticketed =>
    refine ⟨nofun, fun index hin => ?_, nofun,
      ⟨hadded, Int.one_nonneg, htransit, hpermits, hhandles⟩, ?_⟩
    · cases hin
      exact (hfit.ticket _ _ ticketed).1
    · dsimp only
      omega
  | drain bound =>
    refine ⟨nofun, fun index hin => ?_, hmono.ticket,
      ⟨hadded, Int.natCast_nonneg _, htransit, hpermits, hhandles⟩, ?_⟩
    · cases hin
      exact bound
    · dsimp only
      omega
  | grant =>
    exact ⟨fun hout => ⟨rfl, (hfit.outside hout).2⟩, hmono.inside, hmono.ticket,
      ⟨hadded, hdrawn, le_rfl, hpermits, hhandles⟩, hfit.debts⟩
  | shut taken =>
    refine ⟨fun hout => ?_, hmono.inside, hmono.ticket, hmono.nonneg, hfit.debts⟩
    have hnone := (hfit.outside hout).1
    rw [taken] at hnone
    cases hnone
  | count inside =>
    refine ⟨fun hout => ?_, hmono.inside, hmono.ticket, hmono.nonneg, ?_⟩
    · cases inside.symm.trans hout
    · dsimp only
      omega
  | settle inside changed counted =>
    refine ⟨fun _ => ⟨changed, rfl, rfl, counted⟩, nofun, hmono.ticket,
      ⟨le_rfl, le_rfl, htransit, hpermits, hhandles⟩, ?_⟩
    dsimp only
    omega
  | claim =>
    exact ⟨hmono.outside, hmono.inside, nofun,
      ⟨hadded, hdrawn, Int.add_nonneg htransit Int.one_nonneg, hpermits, hhandles⟩, hfit.debts⟩
  | leave => exact ⟨hmono.outside, hmono.inside, nofun, hmono.nonneg, hfit.debts⟩
  | clone => exact hmono
  | discard =>
    exact ⟨hmono.outside, hmono.inside, hmono.ticket,
      ⟨hadded, hdrawn, htransit, hpermits, le_rfl⟩, hfit.debts⟩

/-- A list's lock and its holder change together. -/
theorem locks
    (hlocked : ∀ index, h.critical = some index → (b.lanes index).locked = true) (index : Nat) :
    (if (b'.lanes index).locked then (1 : ℤ) else 0) + h.holds index =
      (if (b.lanes index).locked then 1 else 0) + h'.holds index := by
  unfold holds
  cases hchange <;> grind

/-- A list's count and its entries differ by what the lock's holder owes. -/
theorem counts (hfit : h.Fit b) (index : Nat) :
    (b'.lanes index).waiting - (b'.lanes index).waiters.length + h.within index debt =
      (b.lanes index).waiting - (b.lanes index).waiters.length +
        h'.within index debt := by
  have hout := hfit.outside
  unfold within
  cases hchange <;> grind

/-- The total and the entries of all lists differ by what the parties owe. -/
theorem total (hfit : h.Fit b) : b'.waitingTotal - b'.listed + h'.added + h.drawn =
      b.waitingTotal - b.listed + h.added + h'.drawn := by
  have hlisted : ∀ index lane, index < b.laneCount →
      b'.lanes = Function.update b.lanes index lane →
      b'.listed + (b.lanes index).waiters.length = b.listed + lane.waiters.length :=
    fun index lane hbound hlanes => Books.listed_update hbound hlanes hchange.laneCount
  have hout := hfit.outside
  cases hchange with
  | lock bound =>
    have hsame := hlisted _ _ bound rfl
    dsimp only at hsame ⊢
    omega
  | push inside =>
    have hmore := hlisted _ _ (hfit.inside _ inside) rfl
    simp only [List.length_append, List.length_singleton] at hmore
    dsimp only
    omega
  | pop bound free first outside =>
    have hless := hlisted _ _ bound rfl
    rw [first, List.length_cons] at hless
    obtain ⟨_, _, hdrawn, _⟩ := hout outside
    dsimp only at hless ⊢
    omega
  | withdraw ticketed free listed outside =>
    have hless := hlisted _ _ (hfit.ticket _ _ ticketed).1 rfl
    have hlength := List.length_erase_of_mem listed
    have hpos := List.length_pos_of_mem listed
    obtain ⟨_, _, hdrawn, _⟩ := hout outside
    dsimp only at hless ⊢
    omega
  | drain bound free outside =>
    have hnone := hlisted _ _ bound rfl
    obtain ⟨_, _, hdrawn, _⟩ := hout outside
    simp only [List.length_nil] at hnone
    dsimp only
    omega
  | count inside | settle inside =>
    have hsame := hlisted _ _ (hfit.inside _ inside) rfl
    dsimp only at hsame ⊢
    omega
  | _ => rfl

end Change

end TokioActors.Mailbox
