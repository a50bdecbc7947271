/-
# The subtree tokens of a tree of actors

Every spawned actor has a token, and an actor's token refers to the token of the
actor that spawned it. A token carries the budget of the subtree below it, the
count of unbounded supervisors alive below it, and the signal that its subtree is
gone, which is set when the last reference to the token is let go.

The holds of the actors are the parties of a pool over the tokens: a new hold
raises the budgets of its ancestors, one token at a time, then their counts, and
the hold's end lowers the counts and lets go of its references. A change of a
token and the wake of the waits on it are two steps.
-/

import TokioActors.Lib.Family
import TokioActors.Subtree.Rules

namespace TokioActors.Subtree

/-- What a token and the watches of it share. -/
structure Token where
  /-- The time the actor can outlive a killed parent. -/
  own : Nat := 0
  /-- Whether the actor is a supervisor whose orderly stop has no bound. -/
  infinity : Bool := false
  /-- The tokens of the actors above, the parent first. -/
  above : List Nat := []
  belowNanos : Nat := 0
  infLive : Nat := 0
  /-- How often the count and the budget or the aborts changed. -/
  infGen : Nat := 0
  belowGen : Nat := 0
  gone : Bool := false
  released : Bool := false
  /-- The references to the token. -/
  refs : Nat := 1
  owed : Nat := 0
  latest : Option Nat := none
  /-- How often the waits on the token were woken. -/
  wakes : Nat := 0
  deriving DecidableEq, Repr

/-- The tokens made so far. -/
abbrev Forest := Machine.Family Token

/-- The next thing the holder of some references is to do. -/
inductive Hold
  /-- Anyone who may spawn actors. -/
  | world
  /-- A new hold is to raise the budget of the first token of the chain. -/
  | raises (self : Nat) (chain : List Nat) (candidate : Nat)
  /-- It raised the budget of `token` and is to say so. -/
  | bumps (self token : Nat) (rest : List Nat) (candidate : Nat)
  /-- The count is raised on `done` and is to be raised on `rest`. -/
  | counts (self : Nat) (rest done : List Nat)
  /-- The actor runs; `mark` is what its count was raised on. -/
  | lives (self : Nat) (mark : List Nat)
  /-- The count is to be lowered on `rest`. -/
  | uncounts (self : Nat) (mark rest : List Nat)
  | releases (self : Nat)
  /-- Someone else, a restart of an actor below, has a reference to the token. -/
  | keeps (token : Nat)
  | unrefs (token : Nat) (next : Hold)
  | wakes (token : Nat) (next : Hold)
  | finished
  deriving DecidableEq, Repr

inductive HoldAction
  | go
  | root
  | attach (parent : Nat) (isSupervisor : Bool) (shutdown : Shutdown) (killGrace : Nat)
  | keep (token : Nat)
  /-- The aborts of the subtree change. -/
  | aborts (token owed : Nat) (latest : Option Nat)
  deriving DecidableEq, Repr

namespace Forest

/-- Changes one token. -/
abbrev modify (forest : Forest) (at' : Nat) (change : Token → Token) : Forest :=
  Machine.Family.modify forest at' change

/-- Adds a token. -/
abbrev add (forest : Forest) (token : Token) : Forest := Machine.Family.add forest token

/-- A hold whose raise is over: a supervisor without a bound is counted next. -/
def raised (forest : Forest) (self : Nat) : Hold :=
  if (forest.node self).infinity then .counts self (forest.node self).above []
  else .lives self []

/-- The reference a mark has to the token it starts at. -/
def unmark (mark : List Nat) (next : Hold) : Hold :=
  match mark with
  | parent :: _ => .unrefs parent next
  | [] => next

/-- One step of one party. -/
def next (forest : Forest) : Hold → HoldAction → Option (Forest × Hold × List Hold)
  | .world, .root => some (forest.add {}, .world, [.lives forest.size []])
  | .world, .attach parent isSupervisor shutdown killGrace =>
    if parent < forest.size ∧ 0 < (forest.node parent).refs then
      let above := parent :: (forest.node parent).above
      let own := saturatingNanos (ownFin isSupervisor shutdown killGrace)
      some ((forest.modify parent fun token => { token with refs := token.refs + 1 }).add
          { own := own, infinity := isSupervisor && shutdown == .infinity, above := above },
        .world, [.raises forest.size above own])
    else none
  | .world, .keep token =>
    if token < forest.size ∧ 0 < (forest.node token).refs then
      some (forest.modify token fun token => { token with refs := token.refs + 1 }, .world,
        [.keeps token])
    else none
  | .world, .aborts token owed latest =>
    if token < forest.size then
      some (forest.modify token fun token =>
        { token with owed := owed, latest := latest, belowGen := wrappingAdd token.belowGen 1 },
        .world, [.wakes token .finished])
    else none
  -- `raise_below`, one token at a time.
  | .raises self (token :: rest) candidate, .go =>
    if candidate > (forest.node token).belowNanos then
      some (forest.modify token fun token => { token with belowNanos := candidate },
        .bumps self token rest candidate, [])
    else some (forest, forest.raised self, [])
  | .raises self [] _, .go => some (forest, forest.raised self, [])
  | .bumps self token rest candidate, .go =>
    some (forest.modify token fun token => { token with belowGen := wrappingAdd token.belowGen 1 },
      .wakes token (.raises self rest (saturatingAdd (forest.node token).own candidate)), [])
  -- `shift_infinity` up; the mark then has a reference of its own.
  | .counts self (token :: rest) done, .go =>
    some (forest.modify token fun token =>
        { token with
          infLive := min (token.infLive + 1) u32Max
          infGen := wrappingAdd token.infGen 1 },
      .wakes token (.counts self rest (done ++ [token])), [])
  | .counts self [] done, .go =>
    match done with
    | parent :: _ =>
      some (forest.modify parent fun token => { token with refs := token.refs + 1 },
        .lives self done, [])
    | [] => some (forest, .lives self done, [])
  -- The drop of a hold: its reference, then its mark, then the release signal.
  | .lives self mark, .go => some (forest, .unrefs self (.uncounts self mark mark), [])
  | .uncounts self mark (token :: rest), .go =>
    some (forest.modify token fun token =>
        { token with infLive := token.infLive - 1, infGen := wrappingAdd token.infGen 1 },
      .wakes token (.uncounts self mark rest), [])
  | .uncounts self mark [], .go => some (forest, unmark mark (.releases self), [])
  | .releases self, .go =>
    some (forest.modify self fun token => { token with released := true },
      .wakes self .finished, [])
  | .keeps token, .go => some (forest, .unrefs token .finished, [])
  -- The last reference drops the token, which sets its signal and lets go of the parent's.
  | .unrefs token next, .go =>
    if (forest.node token).refs ≤ 1 then
      some (forest.modify token fun token => { token with refs := 0, gone := true },
        .wakes token (unmark (forest.node token).above next), [])
    else
      some (forest.modify token fun token => { token with refs := token.refs - 1 }, next, [])
  | .wakes token next, .go =>
    some (forest.modify token fun token => { token with wakes := token.wakes + 1 }, next, [])
  | _, _ => none

/-- No token yet. -/
def start : Machine.Pool Forest Hold := ⟨⟨0, fun _ => {}⟩, [.world]⟩

theorem action_of_next {forest after : Forest} {place place' : Hold} {entering : List Hold}
    {action : HoldAction} (hworld : place ≠ .world)
    (hnext : forest.next place action = some (after, place', entering)) : action = .go := by
  cases action with
  | go => rfl
  | _ => cases place <;> simp [next] at hnext hworld

end Forest

end TokioActors.Subtree
