/-
# The step cell of a bounded stop

A bounded stop and the tasks that carry its steps share one word. It counts the
raisers of the call's `Kill` that are in flight, and one value of it, `Killed`,
stands for a `Kill` that was accepted. Every change of the count is a
compare-exchange from the value just read; a raiser's share of the count is
settled by the drop of a guard, so that an unwind settles it too.

The raisers are the parties of a pool over the word and the lane. The word is
the sum of the shares the raisers hold until one of them stores `Killed`, and
`Killed` from then on, so that every reader of the word can tell the two ends of
a stop apart.
-/

import TokioActors.Lane.Cell
import TokioActors.Lib.Pool
import TokioActors.System.State

namespace TokioActors

/-- The word of a bounded stop, and the lane its raisers raise on. -/
structure StopStep where
  cell : Nat := 0
  lane : LaneCell := {}
  deriving DecidableEq, Repr

/-- Where a raiser is in its raise. -/
inductive SharePhase
  /-- `between` runs: no `Kill` is written yet. -/
  | taken
  /-- The lane's raise is entered: the lane may have written the `Kill`. -/
  | raising
  /-- The lane's answer is known. -/
  | settled (accepted : Bool)
  deriving DecidableEq, Repr

/-- Whether the `Kill` stands, or may stand, when a raiser leaves in this phase. -/
def SharePhase.stands : SharePhase → Bool
  | .raising | .settled true => true
  | .taken | .settled false => false

/-- The next point of `raise_kill` a raiser is to run, with its locals. A raiser
that found `Killed` goes on without a share. -/
inductive Raiser
  | loads
  /-- About to exchange `seen` for one more. -/
  | takes (seen : Nat)
  | between (share : Bool)
  | raises (share : Bool)
  /-- The lane took the `Kill` and runs its wakes. -/
  | wakes (share : Bool)
  /-- The share is about to be dropped, by a return or by an unwind. -/
  | drops (share : Bool) (phase : SharePhase)
  /-- About to exchange `seen` for one less. -/
  | givesBack (seen : Nat) (phase : SharePhase)
  | left (phase : SharePhase)
  deriving DecidableEq, Repr

/-- What a raiser may do next. -/
inductive RaiserAction
  | go
  /-- A weak exchange that fails although the word is the one expected. -/
  | fail
  | unwind
  /-- Anyone else's doing on the lane. -/
  | lane (event : LaneEvent)
  deriving DecidableEq, Repr

namespace StopStep

/-- No raiser is in flight and no `Kill` was accepted. -/
def requestedCell : Nat := 0

/-- A `Kill` of the call was accepted. -/
def killedCell : Nat := 2 ^ 16 - 1

/-- What a `Stopped` the actor publishes reads as at the step reached, or nothing
while the reader has to yield and look again. -/
def requested (step : StopStep) : Option System.StopOutcome :=
  if step.cell = killedCell then some .killed
  else if step.cell = requestedCell then some .graceful
  else none

/-- What the taking loop does with the value it read. -/
def takingFrom (seen : Nat) : Raiser :=
  if seen = killedCell then .between false else .takes seen

/-- What the give-back loop does with the value it read. -/
def givingFrom (seen : Nat) (phase : SharePhase) : Raiser :=
  if seen = killedCell ∨ seen = requestedCell then .left phase else .givesBack seen phase

/-- One step of one raiser. -/
def next (step : StopStep) : Raiser → RaiserAction → Option (StopStep × Raiser × List Raiser)
  | place, .lane event => some ({ step with lane := step.lane.step event }, place, [])
  | .loads, .go => some (step, takingFrom step.cell, [])
  | .takes seen, .go =>
    if step.cell = seen then some ({ step with cell := seen + 1 }, .between true, [])
    else some (step, takingFrom step.cell, [])
  | .takes _, .fail => some (step, takingFrom step.cell, [])
  | .between share, .go => some (step, .raises share, [])
  | .between share, .unwind => some (step, .drops share .taken, [])
  | .raises share, .go =>
    some ({ step with lane := step.lane.raise .kill },
      if step.lane.tryRaise .kill = .refused then .drops share (.settled false)
      else .wakes share, [])
  | .raises share, .unwind => some (step, .drops share .raising, [])
  | .wakes share, .go => some (step, .drops share (.settled true), [])
  | .wakes share, .unwind => some (step, .drops share .raising, [])
  | .drops true phase, .go =>
    if phase.stands then some ({ step with cell := killedCell }, .left phase, [])
    else some (step, givingFrom step.cell phase, [])
  | .drops false phase, .go => some (step, .left phase, [])
  | .givesBack seen phase, .go =>
    if step.cell = seen then some ({ step with cell := seen - 1 }, .left phase, [])
    else some (step, givingFrom step.cell phase, [])
  | .givesBack _ phase, .fail => some (step, givingFrom step.cell phase, [])
  | _, _ => none

end StopStep

namespace Raiser

/-- The raiser is past the point where it takes a share and has not left. -/
def inFlight : Raiser → Bool
  | .loads | .takes _ | .left _ => false
  | _ => true

/-- The raiser's `Kill` was accepted, or may have been. -/
def accepted : Raiser → Bool
  | .wakes _ => true
  | .drops _ phase | .left phase => phase.stands
  | _ => false

/-- The raiser left with its `Kill` standing, as far as it can know. -/
def settledKill : Raiser → Bool
  | .left phase => phase.stands
  | _ => false

/-- The raiser went on without a share. -/
def late : Raiser → Bool
  | .between share | .raises share | .wakes share | .drops share _ => !share
  | _ => false

/-- The share of the count a raiser holds. -/
def share (place : Raiser) : ℤ := if place.inFlight && !place.late then 1 else 0

theorem share_nonneg (place : Raiser) : 0 ≤ place.share := by
  unfold share
  split <;> decide

theorem share_le_one (place : Raiser) : place.share ≤ 1 := by
  unfold share
  split <;> decide

end Raiser

namespace StopStep

/-! ## One step -/

/-- A loop only ever carries a value it can change, and the give-back loop only a
phase in which no `Kill` stands. -/
def Apt : Raiser → Prop
  | .takes seen => seen ≠ killedCell
  | .givesBack seen phase =>
    (seen ≠ killedCell ∧ seen ≠ requestedCell) ∧ phase.stands = false
  | _ => True

/-- What one step does to the word and to the raiser's share of it. -/
inductive Turn (cell : Nat) (place : Raiser) : Nat → Raiser → Prop
  /-- The word stays, and so does the share. -/
  | stays {place' : Raiser} (hshare : place'.share = place.share)
      (hlate : place'.late = true → place.late = true ∨ cell = killedCell)
      (hkill : place'.settledKill = true → place.settledKill = true ∨ place.late = true) :
      Turn cell place cell place'
  | takes {place' : Raiser} (hcell : cell ≠ killedCell) (hfrom : place.share = 0)
      (hto : place'.share = 1) (hlate : place'.late = false) (hkill : place'.settledKill = false) :
      Turn cell place (cell + 1) place'
  | gives {place' : Raiser} (hcell : cell ≠ killedCell) (hpos : cell ≠ requestedCell)
      (hfrom : place.share = 1) (hto : place'.share = 0) (hlate : place'.late = false)
      (hkill : place'.settledKill = false) : Turn cell place (cell - 1) place'
  /-- The give-back finds no count to take its one from. -/
  | finds {place' : Raiser} (hcell : cell = killedCell ∨ cell = requestedCell)
      (hfrom : place.share = 1) (hto : place'.share = 0) (hlate : place'.late = false)
      (hkill : place'.settledKill = false) : Turn cell place cell place'
  | kills {place' : Raiser} (hfrom : place.share = 1) (hto : place'.share = 0)
      (hlate : place'.late = false) (hkill : place'.settledKill = true) :
      Turn cell place killedCell place'

open Machine

variable {before after : StopStep} {place place' : Raiser} {action : RaiserAction}
  {entering : List Raiser} {seen : Nat} {phase : SharePhase}

theorem turn_takingFrom (hfrom : place.share = 0) :
    Turn before.cell place before.cell (takingFrom before.cell) ∧ Apt (takingFrom before.cell) := by
  unfold takingFrom
  split
  · next hcell => exact ⟨.stays hfrom.symm (fun _ => .inr hcell) nofun, trivial⟩
  · next hcell => exact ⟨.stays hfrom.symm nofun nofun, hcell⟩

theorem turn_givingFrom (hfrom : place.share = 1) (hphase : phase.stands = false) :
    Turn before.cell place before.cell (givingFrom before.cell phase) ∧
      Apt (givingFrom before.cell phase) := by
  unfold givingFrom
  split
  · next hcell => exact ⟨.finds hcell hfrom rfl rfl hphase, trivial⟩
  · next hcell => exact ⟨.stays hfrom.symm nofun nofun, not_or.mp hcell, hphase⟩

theorem turn_on (share : Bool) (hplace : place.inFlight = true) (hshare : place.late = !share)
    (hplace' : place'.inFlight = true) (hshare' : place'.late = !share)
    (hkill : place'.settledKill = false) : Turn before.cell place before.cell place' := by
  refine .stays ?_ ?_ ?_
  · simp [Raiser.share, hplace, hshare, hplace', hshare']
  · intro hlate
    exact .inl (by rw [hshare, ← hshare', hlate])
  · intro hsettled
    exact absurd (hkill.symm.trans hsettled) Bool.false_ne_true

/-- Every step of a raiser is one of the turns, and brings no raiser in. -/
theorem turn_of_next (hapt : Apt place)
    (hnext : next before place action = some (after, place', entering)) :
    (Turn before.cell place after.cell place' ∧ Apt place') ∧ entering = [] := by
  unfold next at hnext
  split at hnext
  case h_1 =>
    cases hnext
    exact ⟨⟨.stays rfl .inl .inl, hapt⟩, rfl⟩
  case h_2 | h_4 =>
    cases hnext
    exact ⟨turn_takingFrom rfl, rfl⟩
  case h_3 =>
    split at hnext
    next heq =>
      cases hnext
      subst heq
      exact ⟨⟨.takes hapt rfl rfl rfl rfl, trivial⟩, rfl⟩
    · cases hnext
      exact ⟨turn_takingFrom rfl, rfl⟩
  case h_5 share | h_6 share | h_8 share | h_9 share | h_10 share =>
    cases hnext
    exact ⟨⟨turn_on share rfl rfl rfl rfl rfl, trivial⟩, rfl⟩
  case h_7 share =>
    cases hnext
    -- The lane's answer decides the place, not the share.
    split <;> exact ⟨⟨turn_on share rfl rfl rfl rfl rfl, trivial⟩, rfl⟩
  case h_11 phase =>
    split at hnext
    next hstands =>
      cases hnext
      exact ⟨⟨.kills rfl rfl rfl hstands, trivial⟩, rfl⟩
    next hstands =>
      cases hnext
      exact ⟨turn_givingFrom rfl (Bool.eq_false_of_not_eq_true hstands), rfl⟩
  case h_12 =>
    cases hnext
    exact ⟨⟨.stays rfl nofun fun _ => .inr rfl, trivial⟩, rfl⟩
  case h_13 =>
    obtain ⟨⟨hkilled, hrequested⟩, hphase⟩ := hapt
    split at hnext
    next heq =>
      cases hnext
      subst heq
      exact ⟨⟨.gives hkilled hrequested rfl rfl rfl hphase, trivial⟩, rfl⟩
    · cases hnext
      exact ⟨turn_givingFrom rfl hphase, rfl⟩
  case h_14 =>
    cases hnext
    exact ⟨turn_givingFrom rfl hapt.2, rfl⟩
  case h_15 => cases hnext

/-! ## The raisers together -/

/-- What the word says of the raisers, and what each raiser's place says of it. -/
structure Counted (pool : Pool StopStep Raiser) : Prop where
  few : pool.parties.length < killedCell
  apt : ∀ place ∈ pool.parties, Apt place
  late : ∀ place ∈ pool.parties, place.late = true → pool.shared.cell = killedCell
  settled : ∀ place ∈ pool.parties, place.settledKill = true → pool.shared.cell = killedCell
  kill : pool.shared.cell = killedCell → ∃ place ∈ pool.parties, place.settledKill = true
  count : pool.shared.cell ≠ killedCell →
    (pool.shared.cell : ℤ) = Pool.weigh Raiser.share pool.parties

/-- A `Killed` word is never written again. -/
theorem Turn.killed {cell cell' : Nat} (hturn : Turn cell place cell' place')
    (hcell : cell = killedCell) : cell' = killedCell := by
  cases hturn with
  | stays | finds => exact hcell
  | takes hne | gives hne => exact absurd hcell hne
  | kills => rfl

/-- A raiser without a share, or one that settled its `Kill`, leaves a `Killed` word. -/
theorem Turn.own {cell cell' : Nat} (hturn : Turn cell place cell' place')
    (hlate : place.late = true → cell = killedCell)
    (hsettled : place.settledKill = true → cell = killedCell) :
    (place'.late = true → cell' = killedCell) ∧
      (place'.settledKill = true → cell' = killedCell) := by
  cases hturn with
  | stays _ hlate' hkill' =>
    exact ⟨fun h => (hlate' h).elim hlate id, fun h => (hkill' h).elim hsettled hlate⟩
  | takes _ _ _ hlate' hkill' | finds _ _ _ hlate' hkill' | gives _ _ _ _ hlate' hkill' =>
    simp [hlate', hkill']
  | kills => exact ⟨fun _ => rfl, fun _ => rfl⟩

/-- The word goes on counting the shares: `held` and `held'` are the shares of all
raisers before and after, and the raisers are too few for the count to reach
`Killed`. -/
theorem Turn.count {cell cell' raisers : Nat} {held held' : ℤ}
    (hturn : Turn cell place cell' place') (hcount : cell ≠ killedCell → (cell : ℤ) = held)
    (hheld : held' + place.share = held + place'.share) (hown : place.share ≤ held)
    (hmost : held' ≤ raisers) (hfew : raisers < killedCell) :
    (cell' ≠ killedCell → (cell' : ℤ) = held') ∧
      (cell' = killedCell → cell = killedCell ∨ place'.settledKill = true) := by
  cases hturn with
  | stays =>
    refine ⟨fun hne => ?_, .inl⟩
    have := hcount hne
    omega
  | takes hne =>
    have := hcount hne
    refine ⟨fun _ => ?_, fun hcell => ?_⟩
    · push_cast
      omega
    · -- The count has reached at most the number of raisers.
      omega
  | gives hne hpos =>
    have := hcount hne
    unfold requestedCell at hpos
    refine ⟨fun _ => by omega, fun hcell => ?_⟩
    omega
  | finds hcell =>
    refine ⟨fun hne => ?_, .inl⟩
    -- A raiser that still holds its share is counted, so the word is not at its start.
    have hzero : cell = 0 := hcell.resolve_left hne
    have := hcount hne
    omega
  | kills _ _ _ hkill => exact ⟨fun hne => absurd rfl hne, fun _ => .inr hkill⟩

section Step

variable {parties : List Raiser} {i : Nat}

theorem forall_mem_set {each : Raiser → Prop} (hothers : ∀ other ∈ parties, each other)
    (hown : each place') : ∀ other ∈ parties.set i place', each other := by
  intro other hother
  rcases List.mem_or_eq_of_mem_set hother with hold | rfl
  · exact hothers other hold
  · exact hown

end Step

/-- A raiser that has left takes no further step of its own. -/
theorem settledKill_of_next (hnext : next before place action = some (after, place', entering))
    (hsettled : place.settledKill = true) : place'.settledKill = true := by
  cases place with
  | left =>
    cases action with
    | lane =>
      cases hnext
      exact hsettled
    | go | fail | unwind => cases hnext
  | _ => cases hsettled

/-- The step rule: whatever a raiser does keeps the account. -/
theorem Counted.step {pool : Pool StopStep Raiser} {i : Nat} (hcounted : Counted pool)
    (hplace : pool.parties[i]? = some place)
    (hnext : next pool.shared place action = some (after, place', entering)) :
    Counted ⟨after, pool.parties.set i place' ++ entering⟩ := by
  have hmem := List.mem_of_getElem? hplace
  obtain ⟨⟨hturn, hapt⟩, rfl⟩ := turn_of_next (hcounted.apt place hmem) hnext
  obtain ⟨hlate, hsettled⟩ := hturn.own (hcounted.late place hmem) (hcounted.settled place hmem)
  have hlength : (pool.parties.set i place').length = pool.parties.length := List.length_set
  have hmost : Pool.weigh Raiser.share (pool.parties.set i place') ≤ pool.parties.length := by
    rw [← hlength]
    exact Pool.weigh_le_length fun place _ => place.share_le_one
  obtain ⟨hcount, hkill⟩ := hturn.count hcounted.count (Pool.weigh_set hplace)
    (Pool.weight_le_weigh Raiser.share_nonneg hplace) hmost hcounted.few
  rw [List.append_nil]
  constructor
  case few => exact hlength ▸ hcounted.few
  case apt => exact forall_mem_set hcounted.apt hapt
  case late =>
    exact forall_mem_set (fun other hother h => hturn.killed (hcounted.late other hother h)) hlate
  case settled =>
    exact forall_mem_set (fun other hother h => hturn.killed (hcounted.settled other hother h))
      hsettled
  case kill =>
    intro hcell
    rcases hkill hcell with hbefore | hown
    · have hsome := @Pool.exists_after _ _ _ [] _ _ _ hplace (settledKill_of_next hnext)
        (hcounted.kill hbefore)
      rwa [List.append_nil] at hsome
    · exact ⟨place', List.mem_set (List.getElem?_eq_some_iff.mp hplace).1 _, hown⟩
  case count => exact hcount

/-! ## Every interleaving -/

/-- The call's first request stands, and `raisers` raisers of its `Kill` are to come. -/
def start (raisers : Nat) (lane : LaneCell) : Pool StopStep Raiser :=
  ⟨{ lane := lane }, List.replicate raisers .loads⟩

/-- The raisers run in any order, and anyone may use the lane in between. -/
abbrev Reached : Pool StopStep Raiser → Pool StopStep Raiser → Prop :=
  Reaches (Pool.step next) fun _ _ => True

section Reached

variable {pool later : Pool StopStep Raiser} {raisers : Nat} {lane : LaneCell}

/-- The run rule: the account holds after every interleaving. -/
theorem Counted.run (hcounted : Counted pool) (hreach : Reached pool later) : Counted later :=
  Pool.invariant hcounted
    (fun _ _ _ _ _ _ _ hcounted _ hplace hnext => hcounted.step hplace hnext) hreach

end Reached

end StopStep

end TokioActors
