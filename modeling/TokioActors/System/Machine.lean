/-
# A system and its parties

The parties of a system are its callers, the spawns, the raisers, the shutdown
walks, and the incarnations themselves. An incarnation frees its registry
entries, seals its lane, writes its final reason together with the instant of
that write, and publishes `Stopped`; or its task is aborted, and its plane closes
without `Stopped`. Requests that do not go through the registry may be raised on
any lane at any time.
-/

import Mathlib.Data.PNat.Basic
import TokioActors.System.Walk

namespace TokioActors.System

/-- Where a party is. -/
inductive Place
  /-- The callers of the system, and its clock. -/
  | world
  | spawn (spec : Spec) (stage : SpawnStage)
  | actor (spec : Spec) (seq : Seq)
  | raiser (raiser : Raiser)
  | walk (walk : Walk) (stage : Stage)

inductive Input
  | tick (elapsed : Nat)
  | spawn (spec : Spec)
  | kill (key : KillKey) (window : Option Nat)
  | shutdown (timeout perActorTimeout : Nat)
  | reactivate
  | raise (seq : Seq) (reason : StopReason)
  | go
  | walk (input : WalkInput)
  | unregisterId
  | unregisterName
  | sealLane
  | dropLane
  | writeReason (reason : StopReason)
  | abandon (reason : StopReason)
  | publishStopped
  | closePlane

/-- A system and its parties. -/
abbrev State := Machine.Pool Shared Place

/-- The incarnation the key's entry holds. -/
def KillKey.find (s : Shared) : KillKey → Option Seq
  | .id key => (Keyed.find Entry.key key s.byId).map Entry.seq
  | .name key => (Keyed.find Entry.key key s.byName).map Entry.seq

/-- A call on the system, or a tick of its clock. -/
def worldStep (s : Shared) : Input → Option (Shared × List Place)
  | .tick elapsed => some ({ s with now := s.now + elapsed }, [])
  | .spawn spec => some (s, [.spawn spec .phaseCheck])
  | .kill key window =>
    (key.find s).map fun seq => (s, [.raiser ⟨key, seq, window, .clock, 0, none, false⟩])
  | .shutdown timeout perActorTimeout =>
    some (s, [.walk
      { perActorTimeout := perActorTimeout, deadline := saturatingDeadline s.now timeout } .enter])
  | .reactivate => if s.registering = 0 then some (s.reactivate.1, []) else none
  | .raise seq reason => some (s.onIncarnation seq fun inc => inc.raise reason, [])
  | _ => none

/-- A step of an incarnation. The reason is written once: at the end of a run
loop, after its lane was sealed, or by the abort guard of a task that never gets
there. -/
def actorStep (spec : Spec) (seq : Seq) (s : Shared) : Input → Option Shared
  | .unregisterId => some (s.unregisterById spec.id seq)
  | .unregisterName =>
    -- The id goes first.
    if (s.idEntry spec.id seq).isSome then none
    else spec.name.map fun name => s.unregisterByName name seq
  | .sealLane => some (s.onIncarnation seq fun inc => { inc with lane := inc.lane.sealLane })
  | .dropLane => some (s.onIncarnation seq fun inc => { inc with laneGone := true })
  | .writeReason reason =>
    let inc := s.incarnations seq
    if inc.reason.isNone && inc.lane.sealed && !inc.closed then
      some (s.onIncarnation seq fun inc =>
        { inc with reason := some reason, finalAt := some s.now })
    else none
  | .abandon reason =>
    let inc := s.incarnations seq
    if inc.reason.isNone && !inc.closed then
      some (s.onIncarnation seq fun inc =>
        { inc with reason := some reason, finalAt := some s.now, aborted := true })
    else none
  | .publishStopped =>
    let inc := s.incarnations seq
    if inc.reason.isSome && !inc.aborted && !inc.closed then
      some (s.onIncarnation seq fun inc => { inc with status := .stopped })
    else none
  | .closePlane => some (s.onIncarnation seq fun inc => { inc with closed := true })
  | _ => none

/-- The steps of an incarnation, one by one. -/
inductive Acted (spec : Spec) (seq : Seq) (s : Shared) : Input → Shared → Prop
  | unregisterId : Acted spec seq s .unregisterId (s.unregisterById spec.id seq)
  | unregisterName {name : String} (gone : (s.idEntry spec.id seq).isSome = false) :
      Acted spec seq s .unregisterName (s.unregisterByName name seq)
  | sealLane : Acted spec seq s .sealLane
      (s.onIncarnation seq fun inc => { inc with lane := inc.lane.sealLane })
  | dropLane : Acted spec seq s .dropLane
      (s.onIncarnation seq fun inc => { inc with laneGone := true })
  | writeReason {reason : StopReason} (unwritten : (s.incarnations seq).reason = none)
      (shut : (s.incarnations seq).lane.sealed = true)
      (unclosed : (s.incarnations seq).closed = false) :
      Acted spec seq s (.writeReason reason) (s.onIncarnation seq fun inc =>
        { inc with reason := some reason, finalAt := some s.now })
  | abandon {reason : StopReason} (unwritten : (s.incarnations seq).reason = none)
      (unclosed : (s.incarnations seq).closed = false) :
      Acted spec seq s (.abandon reason) (s.onIncarnation seq fun inc =>
        { inc with reason := some reason, finalAt := some s.now, aborted := true })
  | publishStopped (written : (s.incarnations seq).reason.isSome = true)
      (kept : (s.incarnations seq).aborted = false)
      (unclosed : (s.incarnations seq).closed = false) :
      Acted spec seq s .publishStopped
        (s.onIncarnation seq fun inc => { inc with status := .stopped })
  | closePlane : Acted spec seq s .closePlane
      (s.onIncarnation seq fun inc => { inc with closed := true })

theorem acted_of_step {spec : Spec} {seq : Seq} {s s' : Shared} {input : Input}
    (htaken : actorStep spec seq s input = some s') : Acted spec seq s input s' := by
  cases input with
  | unregisterId | sealLane | dropLane | closePlane =>
    cases htaken
    constructor
  | unregisterName =>
    simp only [actorStep] at htaken
    split at htaken
    · cases htaken
    · obtain ⟨name, _, rfl⟩ := Option.map_eq_some_iff.mp htaken
      exact .unregisterName (Bool.eq_false_iff.mpr ‹_›)
  | writeReason | abandon | publishStopped =>
    simp only [actorStep] at htaken
    split at htaken <;> cases htaken
    constructor <;> simp_all
  | _ => cases htaken

/-- One step of a party. -/
def next (s : Shared) (place : Place) (input : Input) : Option (Shared × Place × List Place) :=
  match place with
  | .world => (worldStep s input).map fun after => (after.1, .world, after.2)
  | .spawn spec stage =>
    match input with
    | .go =>
      (spec.step s stage).map fun after =>
        (after.1, .spawn spec after.2,
          match stage, after.2 with
          | .claimId _, .attachId seq => [.actor spec seq]
          | _, _ => [])
    | _ => none
  | .actor spec seq => (actorStep spec seq s input).map fun after => (after, .actor spec seq, [])
  | .raiser raiser =>
    match input with
    | .go => (raiser.step s).map fun after => (after.1, .raiser after.2, [])
    | _ => none
  | .walk walk stage =>
    match input with
    | .walk input => (walk.step s stage input).map fun after =>
      (after.1, .walk after.2.1 after.2.2, [])
    | _ => none

/-- The steps, one by one. -/
inductive Took (s : Shared) : Place → Input → Shared → Place → List Place → Prop
  | tick {elapsed : Nat} : Took s .world (.tick elapsed) { s with now := s.now + elapsed } .world []
  | call {spec : Spec} : Took s .world (.spawn spec) s .world [.spawn spec .phaseCheck]
  | kill {key : KillKey} {seq : Seq} {window : Option Nat} (found : key.find s = some seq) :
      Took s .world (.kill key window) s .world
        [.raiser ⟨key, seq, window, .clock, 0, none, false⟩]
  | shutdown {timeout perActorTimeout : Nat} :
      Took s .world (.shutdown timeout perActorTimeout) s .world [.walk
        { perActorTimeout := perActorTimeout, deadline := saturatingDeadline s.now timeout } .enter]
  | reactivate (quiet : s.registering = 0) : Took s .world .reactivate s.reactivate.1 .world []
  | raise {seq : Seq} {reason : StopReason} : Took s .world (.raise seq reason)
      (s.onIncarnation seq fun inc => inc.raise reason) .world []
  | spawn {spec : Spec} {stage stage' : SpawnStage} {s' : Shared} {entering : List Place}
      (taken : spec.step s stage = some (s', stage'))
      (entering_eq : entering = [] ∨
        ∃ seq, stage = .claimId seq ∧ stage' = .attachId seq ∧ entering = [.actor spec seq]) :
      Took s (.spawn spec stage) .go s' (.spawn spec stage') entering
  | actor {spec : Spec} {seq : Seq} {input : Input} {s' : Shared}
      (taken : Acted spec seq s input s') :
      Took s (.actor spec seq) input s' (.actor spec seq) []
  | raiser {raiser raiser' : Raiser} {s' : Shared} (taken : raiser.step s = some (s', raiser')) :
      Took s (.raiser raiser) .go s' (.raiser raiser') []
  | walk {walk walk' : Walk} {stage stage' : Stage} {input : WalkInput} {s' : Shared}
      (taken : walk.step s stage input = some (s', walk', stage')) :
      Took s (.walk walk stage) (.walk input) s' (.walk walk' stage') []

theorem took_of_next {s s' : Shared} {place place' : Place} {input : Input} {entering : List Place}
    (htaken : next s place input = some (s', place', entering)) :
    Took s place input s' place' entering := by
  cases place with
  | world =>
    obtain ⟨after, hstep, heq⟩ := Option.map_eq_some_iff.mp htaken
    cases heq
    cases input with
    | tick | spawn | shutdown | raise =>
      cases hstep
      constructor
    | kill =>
      obtain ⟨seq, hfound, heq⟩ := Option.map_eq_some_iff.mp hstep
      cases heq
      exact .kill hfound
    | reactivate =>
      simp only [worldStep] at hstep
      split at hstep <;> cases hstep
      exact .reactivate ‹_›
    | _ => cases hstep
  | spawn spec stage =>
    cases input with
    | go =>
      obtain ⟨⟨after, stage'⟩, hstep, heq⟩ := Option.map_eq_some_iff.mp htaken
      cases heq
      refine .spawn hstep ?_
      dsimp only
      split
      · simp only [Spec.step] at hstep
        split at hstep
        · split at hstep <;> cases hstep
        · cases hstep
          exact .inr ⟨_, rfl, rfl, rfl⟩
      · exact .inl rfl
    | _ => cases htaken
  | actor =>
    obtain ⟨after, hstep, heq⟩ := Option.map_eq_some_iff.mp htaken
    cases heq
    exact .actor (acted_of_step hstep)
  | raiser =>
    cases input with
    | go =>
      obtain ⟨after, hstep, heq⟩ := Option.map_eq_some_iff.mp htaken
      cases heq
      exact .raiser hstep
    | _ => cases htaken
  | walk =>
    cases input with
    | walk =>
      obtain ⟨after, hstep, heq⟩ := Option.map_eq_some_iff.mp htaken
      cases heq
      exact .walk hstep
    | _ => cases htaken

/-- A new system. -/
def init (systemName : String) (shards : ℕ+) (hash : ActorId → Nat) : State where
  shared :=
    { systemName := systemName, shards := shards, shards_pos := shards.pos, hash := hash }
  parties := [.world]

/-- The states of a system reached by steps that all meet the condition. -/
def Reaches (allowed : State → Nat × Input → Prop) (systemName : String) (shards : ℕ+)
    (hash : ActorId → Nat) (state : State) : Prop :=
  Machine.Reaches (Machine.Pool.step next) allowed (init systemName shards hash) state

end TokioActors.System
