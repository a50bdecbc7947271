/-
# The wait on a subtree

A wait reads the signal of a token and arms its deadline from the budget and the
count below it. It then sleeps until the signal changes or the deadline passes,
and reads again. The signal, the budget and the count are read one by one while
the subtree changes, so what a wait has read last and what it armed its deadline
from are kept beside it.
-/

import TokioActors.Subtree.Holding

namespace TokioActors.Subtree

/-- What a wait reads of a token under its lock. -/
structure SubtreeSignal where
  gone : Bool := false
  infLive : Nat := 0
  infGen : Nat := 0
  belowGen : Nat := 0
  deriving DecidableEq, Repr

def Token.signal (token : Token) : SubtreeSignal :=
  { gone := token.gone, infLive := token.infLive, infGen := token.infGen,
    belowGen := token.belowGen }

/-- The bound of a wait that starts now, capped like every wait. -/
def releaseBound (belowNanos infLive : Nat) : Option Nat :=
  (successorBound belowNanos infLive).map boundedWait

structure SubtreeWait where
  /-- The signal as the wait last read it. -/
  seen : SubtreeSignal := {}
  deadline : Option Nat := none
  /-- The bound the deadline was last armed with. -/
  bound : Nat := 0
  /-- The budget read when the deadline was last armed. -/
  belowSeen : Nat := 0
  deriving DecidableEq, Repr

namespace SubtreeWait

/-- Takes a bound that was read: none disarms the deadline, a finite one arms it from
now or extends it. -/
def arm (wait : SubtreeWait) (now : Nat) : Option Nat → SubtreeWait
  | none => { wait with deadline := none }
  | some bound =>
    let at' := saturatingDeadline now bound
    { wait with
      deadline := some (match wait.deadline with
        | none => at'
        | some armed => max armed at')
      bound := max wait.bound bound }

/-- The instant the verdict may be given, by the subtree's aborts. -/
def verdictAt (wait : SubtreeWait) (token : Token) : Option Nat :=
  wait.deadline.map fun deadline =>
    verdictFloor deadline wait.bound token.latest (decide (token.owed > 0))

/-- Whether the wait may give its verdict now. -/
def expired (wait : SubtreeWait) (token : Token) (now : Nat) : Bool :=
  match wait.verdictAt token with
  | none => false
  | some at' => decide (at' ≤ now)

end SubtreeWait

/-- The next thing a wait is to do. -/
inductive WaitStage
  /-- The wait is about to be made. -/
  | fresh
  /-- A re-arm reads the budget, the budget again, the count, and then the clock. -/
  | loadsBelow
  | loadsBound
  | loadsLive (belowNanos : Nat)
  | arms (bound : Option Nat)
  /-- Its owner may ask whether the subtree is gone or the wait expired. -/
  | idle
  /-- The wait is registered; a wake after the `mark`-th reaches it. -/
  | enabled (mark : Nat)
  /-- The signal is the one last seen, and the instant of the verdict is to be read. -/
  | floors (mark : Nat)
  | parked (mark : Nat) (until' : Option Nat)
  /-- A change is to be read. -/
  | woken
  /-- The budget's signal changed and the count's did not. -/
  | checks
  deriving DecidableEq, Repr

/-- What a re-arm read: the signal with the count, the budget, and the clock after. -/
structure Arming where
  signal : SubtreeSignal := {}
  belowNanos : Nat := 0
  at' : Nat := 0
  deriving DecidableEq, Repr

/-- A wait where it is, with what it read last and what it was armed from. -/
structure Waiter where
  wait : SubtreeWait := {}
  stage : WaitStage := .fresh
  lastRead : SubtreeSignal := {}
  armed : Arming := {}
  deriving DecidableEq, Repr

inductive WaitInput
  | go
  /-- The sleep of the verdict's instant is over. -/
  | timer
  /-- The owner drops the wait for a change. -/
  | cancel
  deriving DecidableEq, Repr

namespace Waiter

/-- One step of a wait on a token. -/
def next (token : Token) (now : Nat) (waiter : Waiter) (input : WaitInput) : Option Waiter :=
  match waiter.stage, input with
  | .fresh, .go =>
    some { waiter with wait := { seen := token.signal }, lastRead := token.signal,
                       stage := .loadsBelow }
  | .loadsBelow, .go =>
    some { waiter with wait := { waiter.wait with belowSeen := token.belowNanos },
                       stage := .loadsBound }
  | .loadsBound, .go => some { waiter with stage := .loadsLive token.belowNanos }
  | .loadsLive belowNanos, .go =>
    some { waiter with lastRead := token.signal,
                       armed := { waiter.armed with signal := token.signal,
                                                    belowNanos := belowNanos }
                       stage := .arms (releaseBound belowNanos token.infLive) }
  | .arms bound, .go =>
    some { waiter with wait := waiter.wait.arm now bound,
                       armed := { waiter.armed with at' := now }, stage := .idle }
  | .idle, .go => some { waiter with stage := .enabled token.wakes }
  | .enabled mark, .go =>
    some { waiter with lastRead := token.signal,
                       stage := if token.gone then .idle
                         else if token.signal = waiter.wait.seen then .floors mark
                         else .woken }
  | .floors mark, .go =>
    some { waiter with stage := .parked mark (waiter.wait.verdictAt token) }
  | .parked mark _, .go => if mark < token.wakes then some { waiter with stage := .woken } else none
  | .parked _ (some until'), .timer =>
    if until' ≤ now then some { waiter with stage := .idle } else none
  | .parked _ _, .cancel => some { waiter with stage := .idle }
  | .woken, .go =>
    some { waiter with wait := { waiter.wait with seen := token.signal }
                       lastRead := token.signal
                       stage := if token.gone then .idle
                         else if token.infGen ≠ waiter.wait.seen.infGen then .loadsBelow
                         else if token.belowGen ≠ waiter.wait.seen.belowGen then .checks
                         else .idle }
  | .checks, .go =>
    some { waiter with stage :=
      if token.belowNanos ≠ waiter.wait.belowSeen then .loadsBelow else .idle }
  | _, _ => none

end Waiter

/-- A wait on one token of a forest whose holds run on, and the clock. -/
structure WaitRun where
  pool : Machine.Pool Forest Hold := Forest.start
  now : Nat := 0
  waiter : Waiter := {}

inductive WaitLabel
  | hold (label : Nat × HoldAction)
  | tick (elapsed : Nat)
  | wait (input : WaitInput)
  deriving DecidableEq, Repr

namespace WaitRun

/-- One step of a run with a wait on the token `watch`. -/
def step (watch : Nat) (run : WaitRun) : WaitLabel → Option WaitRun
  | .hold label => (run.pool.step Forest.next label).map fun pool => { run with pool := pool }
  | .tick elapsed => some { run with now := run.now + elapsed }
  | .wait input =>
    if watch < run.pool.shared.size then
      (run.waiter.next (run.pool.shared.node watch) run.now input).map fun waiter =>
        { run with waiter := waiter }
    else none

end WaitRun

/-! ## What a step of a hold does to the token watched -/

namespace Hold

/-- The hold is about to wake the waits on the token. -/
def wakesNow (watch : Nat) : Hold → Bool
  | .wakes token _ => token = watch
  | _ => false

/-- The hold raised the budget of the token and is about to say so. -/
def bumpsNow (watch : Nat) : Hold → Bool
  | .bumps _ token _ _ => token = watch
  | _ => false

end Hold

namespace Forest

open Machine.Family

/-- What a step of a hold can do to a token: a change of the signal leaves a wake to
come, a change of the budget leaves a change of the signal to come, and a change of the
count changes its generation. -/
structure Moved (watch : Nat) (token : Token) (place : Hold) (token' : Token) (place' : Hold)
    (entering : List Hold) : Prop where
  infGen : token.infGen ≤ token'.infGen
  belowGen : token.belowGen ≤ token'.belowGen
  wakes : token.wakes ≤ token'.wakes
  below : token.belowNanos ≤ token'.belowNanos
  gone : token.gone = true → token'.gone = true
  live : token'.infGen = token.infGen → token'.infLive = token.infLive
  signal : token'.signal ≠ token.signal → ∃ other ∈ place' :: entering, other.wakesNow watch = true
  woke : place.wakesNow watch = true → token.wakes < token'.wakes
  raised : token'.belowNanos ≠ token.belowNanos → place'.bumpsNow watch = true
  bumped : place.bumpsNow watch = true → token.belowGen < token'.belowGen

/-- No generation of a token is the largest of its word. -/
def Unwrapped (forest : Forest) : Prop :=
  ∀ node < forest.size, (forest.node node).infGen + 1 < 2 ^ 64 ∧
    (forest.node node).belowGen + 1 < 2 ^ 64

instance {forest : Forest} : Decidable forest.Unwrapped :=
  inferInstanceAs (Decidable (∀ node < forest.size, _))

section

variable {forest after : Forest} {watch : Nat} {place place' : Hold} {entering : List Hold}
  {action : HoldAction}

theorem Moved.same {token token' : Token} (hsignal : token'.signal = token.signal)
    (hcount : token'.wakes = token.wakes) (hbelow : token'.belowNanos = token.belowNanos)
    (hwakes : place.wakesNow watch = false) (hbumps : place.bumpsNow watch = false) :
    Moved watch token place token' place' entering where
  infGen := (congrArg SubtreeSignal.infGen hsignal).ge
  belowGen := (congrArg SubtreeSignal.belowGen hsignal).ge
  wakes := hcount.ge
  below := hbelow.ge
  gone := fun hgone => (congrArg SubtreeSignal.gone hsignal).trans hgone
  live := fun _ => congrArg SubtreeSignal.infLive hsignal
  signal := fun h => absurd hsignal h
  woke := fun h => by simp [hwakes] at h
  raised := fun h => absurd hbelow h
  bumped := fun h => by simp [hbumps] at h

theorem Moved.modify {token : Nat} {change : Token → Token}
    (hself : token = watch →
      Moved watch (forest.node watch) place (change (forest.node watch)) place' entering)
    (hwakes : token ≠ watch → place.wakesNow watch = false)
    (hbumps : token ≠ watch → place.bumpsNow watch = false) :
    Moved watch (forest.node watch) place ((forest.modify token change).node watch) place'
      entering := by
  by_cases htoken : token = watch
  · subst htoken
    rw [node_modify_self]
    exact hself rfl
  · rw [node_modify_ne (Ne.symm htoken)]
    exact .same rfl rfl rfl (hwakes htoken) (hbumps htoken)

theorem Moved.quietly {token : Nat} {change : Token → Token}
    (hsignal : ∀ token, (change token).signal = token.signal)
    (hcount : ∀ token, (change token).wakes = token.wakes)
    (hbelow : ∀ token, (change token).belowNanos = token.belowNanos)
    (hwakes : place.wakesNow watch = false) (hbumps : place.bumpsNow watch = false) :
    Moved watch (forest.node watch) place ((forest.modify token change).node watch) place'
      entering :=
  .modify (fun _ => .same (hsignal _) (hcount _) (hbelow _) hwakes hbumps) (fun _ => hwakes)
    fun _ => hbumps

theorem wrappingAdd_one {count : Nat} (hlt : count + 1 < 2 ^ 64) :
    wrappingAdd count 1 = count + 1 := Nat.mod_eq_of_lt hlt

theorem moved_of_world (hwatch : watch < forest.size) (hunwrapped : forest.Unwrapped)
    (hnext : forest.next .world action = some (after, place', entering)) :
    Moved watch (forest.node watch) .world (after.node watch) place' entering := by
  cases action with
  | go => cases hnext
  | root =>
    cases hnext
    rw [node_add_lt hwatch]
    exact .same rfl rfl rfl rfl rfl
  | attach =>
    rw [next, Option.ite_none_right_eq_some] at hnext
    obtain ⟨_, hnext⟩ := hnext
    cases hnext
    rw [node_add_lt (by exact hwatch)]
    exact .quietly (fun _ => rfl) (fun _ => rfl) (fun _ => rfl) rfl rfl
  | keep =>
    rw [next, Option.ite_none_right_eq_some] at hnext
    obtain ⟨_, hnext⟩ := hnext
    cases hnext
    exact .quietly (fun _ => rfl) (fun _ => rfl) (fun _ => rfl) rfl rfl
  | aborts token =>
    rw [next, Option.ite_none_right_eq_some] at hnext
    obtain ⟨_, hnext⟩ := hnext
    cases hnext
    refine .modify (fun hself => ?_) (fun _ => rfl) fun _ => rfl
    have hgen := wrappingAdd_one (hunwrapped watch hwatch).2
    exact ⟨le_rfl, hgen ▸ Nat.le_succ _, le_rfl, le_rfl, id, fun _ => rfl,
      fun _ => ⟨.wakes token .finished, by simp, decide_eq_true hself⟩, (by rintro ⟨⟩),
      fun h => absurd rfl h, (by rintro ⟨⟩)⟩

/-- What every step of a hold does to the token watched. -/
theorem moved_of_next (hwatch : watch < forest.size) (hunwrapped : forest.Unwrapped)
    (hnext : forest.next place action = some (after, place', entering)) :
    Moved watch (forest.node watch) place (after.node watch) place' entering := by
  by_cases hworld : place = .world
  · subst hworld
    exact moved_of_world hwatch hunwrapped hnext
  obtain rfl := action_of_next hworld hnext
  have hbelowGen := wrappingAdd_one (hunwrapped watch hwatch).2
  have hinfGen := wrappingAdd_one (hunwrapped watch hwatch).1
  cases place with
  | world => exact absurd rfl hworld
  | raises self chain =>
    cases chain with
    | nil =>
      cases hnext
      exact .same rfl rfl rfl rfl rfl
    | cons =>
      rw [next] at hnext
      split at hnext
      next hlt =>
        cases hnext
        refine .modify (fun hself => ?_) (fun _ => rfl) fun _ => rfl
        subst hself
        exact ⟨le_rfl, le_rfl, le_rfl, le_of_lt hlt, id, fun _ => rfl, fun h => absurd rfl h,
          (by rintro ⟨⟩),
          fun _ => decide_eq_true rfl, (by rintro ⟨⟩)⟩
      next =>
        cases hnext
        exact .same rfl rfl rfl rfl rfl
  | bumps =>
    cases hnext
    refine .modify (fun hself => ?_) (fun _ => rfl) fun hne => decide_eq_false hne
    exact ⟨le_rfl, hbelowGen ▸ Nat.le_succ _, le_rfl, le_rfl, id, fun _ => rfl,
      fun _ => ⟨_, List.mem_cons_self, decide_eq_true hself⟩, (by rintro ⟨⟩), fun h => absurd rfl h,
      fun _ => hbelowGen ▸ Nat.lt_succ_self _⟩
  | counts self rest done =>
    cases rest with
    | cons =>
      cases hnext
      refine .modify (fun hself => ?_) (fun _ => rfl) fun _ => rfl
      refine ⟨hinfGen ▸ Nat.le_succ _, le_rfl, le_rfl, le_rfl, id, fun hsame => ?_,
        fun _ => ⟨_, List.mem_cons_self, decide_eq_true hself⟩, (by rintro ⟨⟩),
          fun h => absurd rfl h,
        (by rintro ⟨⟩)⟩
      exact absurd (hinfGen.symm.trans hsame) (Nat.succ_ne_self _)
    | nil =>
      cases done with
      | nil =>
        cases hnext
        exact .same rfl rfl rfl rfl rfl
      | cons =>
        cases hnext
        exact .quietly (fun _ => rfl) (fun _ => rfl) (fun _ => rfl) rfl rfl
  | lives | keeps =>
    cases hnext
    exact .same rfl rfl rfl rfl rfl
  | uncounts self mark rest =>
    cases rest with
    | cons =>
      cases hnext
      refine .modify (fun hself => ?_) (fun _ => rfl) fun _ => rfl
      refine ⟨hinfGen ▸ Nat.le_succ _, le_rfl, le_rfl, le_rfl, id, fun hsame => ?_,
        fun _ => ⟨_, List.mem_cons_self, decide_eq_true hself⟩, (by rintro ⟨⟩),
          fun h => absurd rfl h,
        (by rintro ⟨⟩)⟩
      exact absurd (hinfGen.symm.trans hsame) (Nat.succ_ne_self _)
    | nil =>
      cases hnext
      exact .same rfl rfl rfl rfl rfl
  | releases =>
    cases hnext
    exact .quietly (fun _ => rfl) (fun _ => rfl) (fun _ => rfl) rfl rfl
  | unrefs =>
    rw [next] at hnext
    split at hnext
    · cases hnext
      refine .modify (fun hself => ?_) (fun _ => rfl) fun _ => rfl
      exact ⟨le_rfl, le_rfl, le_rfl, le_rfl, fun _ => rfl, fun _ => rfl,
        fun _ => ⟨_, List.mem_cons_self, decide_eq_true hself⟩, (by rintro ⟨⟩),
          fun h => absurd rfl h, (by rintro ⟨⟩)⟩
    · cases hnext
      exact .quietly (fun _ => rfl) (fun _ => rfl) (fun _ => rfl) rfl rfl
  | wakes =>
    cases hnext
    refine .modify (fun _ => ?_) (fun hne => decide_eq_false hne) fun _ => rfl
    exact ⟨le_rfl, le_rfl, Nat.le_succ _, le_rfl, id, fun _ => rfl, fun h => absurd rfl h,
      fun _ => Nat.lt_succ_self _, fun h => absurd rfl h, (by rintro ⟨⟩)⟩
  | finished => cases hnext

end

end Forest

end TokioActors.Subtree
