/-
# Registering, attaching, and raising `Kill` through the registry

A spawn registers its actor, spawns the task and then attaches the task's abort
handle to the entries it made. A `Kill` raised through the registry declares its
deadline on an entry, raises, and then arms the abort it reads from the entry.
Each function is a list of single accesses to the maps, the lane and the clock;
between two of them any other party may run.
-/

import TokioActors.System.State

namespace TokioActors.System

/-! ## A spawn -/

/-- What a spawn registers. -/
structure Spec where
  id : ActorId
  name : Option String := none
  isRoot : Bool
  killGrace : Nat

/-- Where a spawn is: in `register_actor`, from its phase check to its inserts,
then in `attach_abort`. -/
inductive SpawnStage
  | phaseCheck
  | drawSeq
  | claimName (seq : Seq)
  | claimId (seq : Seq)
  | releaseName (seq : Seq) (name : String)
  | refused (error : SpawnError)
  | attachId (seq : Seq)
  | attachName (seq : Seq) (held : Bool)
  | readLane (seq : Seq) (held : Bool)
  | readIdDue (seq : Seq)
  | readNameDue (seq : Seq) (byId : Instant)
  | readClock (seq : Seq) (due : Instant)
  | arm (seq : Seq) (after : Nat) (since : Instant)
  | attached (seq : Seq)

/-- The earlier of two declared deadlines, zero when none was declared. -/
def earlierDue (byId byName : Instant) : Instant :=
  if byId = 0 then byName else if byName = 0 then byId else min byId byName

/-- One access of a spawn. -/
def Spec.step (spec : Spec) (s : Shared) : SpawnStage → Option (Shared × SpawnStage)
  | .phaseCheck =>
    if s.phase ≠ .active then some (s, .refused (.systemShuttingDown s.systemName))
    else some ({ s with registering := s.registering + 1 }, .drawSeq)
  | .drawSeq =>
    let seq := s.registrationSeq
    some ({ s with
        registrationSeq := seq + 1
        incarnations := Function.update s.incarnations seq
          { id := spec.id
            name := spec.name
            isRoot := spec.isRoot
            killGrace := spec.killGrace } },
      if spec.name.isSome then .claimName seq else .claimId seq)
  | .claimName seq =>
    match spec.name with
    | none => some (s, .claimId seq)
    | some name =>
      if (Keyed.find Entry.key name s.byName).isSome then
        some ({ s with registering := s.registering - 1 },
          .refused (.nameTaken name s.systemName))
      else some ({ s with byName := s.byName ++ [{ key := name, seq := seq }] }, .claimId seq)
  | .claimId seq =>
    if (Keyed.find Entry.key spec.id s.byId).isSome then
      match spec.name with
      | some name => some (s, .releaseName seq name)
      | none =>
        some ({ s with registering := s.registering - 1 }, .refused (.duplicateChild spec.id))
    else
      some ({ s with
          byId := s.byId ++ [{ key := spec.id, seq := seq }]
          registering := s.registering - 1 },
        .attachId seq)
  | .releaseName seq name =>
    some ({ s.unregisterByName name seq with registering := s.registering - 1 },
      .refused (.duplicateChild spec.id))
  | .attachId seq =>
    some (s.onIdEntry spec.id seq fun entry => { entry with abort := true },
      .attachName seq (s.idEntry spec.id seq).isSome)
  | .attachName seq held =>
    match spec.name with
    | none => some (s, .readLane seq held)
    | some name =>
      some (s.onNameEntry name seq fun entry => { entry with abort := true }, .readLane seq held)
  | .readLane seq held =>
    some (s, if held && (s.incarnations seq).lane.reason == some .kill then .readIdDue seq
      else .attached seq)
  | .readIdDue seq =>
    some (s, .readNameDue seq ((s.idEntry spec.id seq).elim 0 Entry.killDue))
  | .readNameDue seq byId =>
    let byName :=
      match spec.name with
      | none => 0
      | some name => (s.nameEntry name seq).elim 0 Entry.killDue
    some (s, .readClock seq (earlierDue byId byName))
  | .readClock seq due =>
    some (s, .arm seq (if due = 0 then (s.incarnations seq).killGrace else due - s.killClock)
      s.killClock)
  | .arm seq after since => some (s.armKillBackstop seq seq after since, .attached seq)
  | .refused _ => none
  | .attached _ => none

/-! ## A `Kill` through the registry -/

namespace Raiser

/-- The lane took the `Kill`. -/
def accepted (raiser : Raiser) : Bool := raiser.result.isSome && raiser.result != some .refused

/-- How long after the declaration the raiser's deadline is. -/
def after (raiser : Raiser) (s : Shared) : Nat :=
  raiser.window.getD (s.incarnations raiser.seq).killGrace

/-- The deadline the raiser declares. -/
def due (raiser : Raiser) (s : Shared) : Instant := raiser.clockAt + raiser.after s

/-- Declares the deadline on the entry, when it is the incarnation's. -/
def declare (raiser : Raiser) (s : Shared) : Shared :=
  match raiser.key with
  | .id id =>
    { s.onIdEntry id raiser.seq fun entry => entry.declareKill (raiser.due s) with
      declared := s.declared ++
        ((s.idEntry id raiser.seq).map fun entry => (entry.seq, raiser.seq)).toList }
  | .name name =>
    { s.onNameEntry name raiser.seq fun entry => entry.declareKill (raiser.due s) with
      declared := s.declared ++
        ((s.nameEntry name raiser.seq).map fun entry => (entry.seq, raiser.seq)).toList }

/-- The entry's incarnation and whether its abort handle is attached, when the
entry is the raiser's incarnation's. -/
def target (raiser : Raiser) (s : Shared) : Option (Seq × Bool) :=
  match raiser.key with
  | .id id => (s.idEntry id raiser.seq).map fun entry => (entry.seq, entry.abort)
  | .name name => (s.nameEntry name raiser.seq).map fun entry => (entry.seq, entry.abort)

/-- The raiser returns. -/
def return_ (raiser : Raiser) (s : Shared) : Shared × Raiser :=
  let raiser := { raiser with stage := .done }
  ({ s with raises := s.raises ++ [raiser] }, raiser)

/-- One access of a raiser. -/
def step (raiser : Raiser) (s : Shared) : Option (Shared × Raiser) :=
  match raiser.stage with
  | .clock => some (s, { raiser with clockAt := s.killClock, stage := .declare })
  | .declare => some (raiser.declare s, { raiser with stage := .raise })
  | .raise =>
    let result := (s.incarnations raiser.seq).raiseResult .kill
    let after := s.onIncarnation raiser.seq fun inc => inc.raise .kill
    let raiser := { raiser with result := some result, stage := .read }
    some (if result = .refused then raiser.return_ after else (after, raiser))
  | .read =>
    match raiser.target s with
    | some (handle, true) =>
      some (s, { raiser with
        abort := true
        stage := .arm handle (raiser.after s) })
    | _ => some (raiser.return_ s)
  | .arm handle grace =>
    some (raiser.return_ (s.armKillBackstop handle raiser.seq grace raiser.clockAt))
  | .done => none

/-- The raiser, with the answer of its lane. -/
def answered (raiser : Raiser) (s : Shared) : Raiser :=
  { raiser with
    result := some ((s.incarnations raiser.seq).raiseResult .kill)
    stage := .read }

/-- What one access of a raiser is. -/
inductive Takes (raiser : Raiser) (s : Shared) : Shared → Raiser → Prop
  | clock (stage : raiser.stage = .clock) :
      Takes raiser s s { raiser with clockAt := s.killClock, stage := .declare }
  | declare (stage : raiser.stage = .declare) :
      Takes raiser s (raiser.declare s) { raiser with stage := .raise }
  | raise (stage : raiser.stage = .raise)
      (accepted : (s.incarnations raiser.seq).raiseResult .kill ≠ .refused) :
      Takes raiser s (s.onIncarnation raiser.seq fun inc => inc.raise .kill) (raiser.answered s)
  | refuse (stage : raiser.stage = .raise)
      (refused : (s.incarnations raiser.seq).raiseResult .kill = .refused) :
      Takes raiser s
        ((raiser.answered s).return_ (s.onIncarnation raiser.seq fun inc => inc.raise .kill)).1
        ((raiser.answered s).return_ (s.onIncarnation raiser.seq fun inc => inc.raise .kill)).2
  | read {handle : Seq} (stage : raiser.stage = .read)
      (target : raiser.target s = some (handle, true)) :
      Takes raiser s s { raiser with abort := true, stage := .arm handle (raiser.after s) }
  | miss (stage : raiser.stage = .read) (target : ∀ handle, raiser.target s ≠ some (handle, true)) :
      Takes raiser s (raiser.return_ s).1 (raiser.return_ s).2
  | arm {handle : Seq} {grace : Nat} (stage : raiser.stage = .arm handle grace) :
      Takes raiser s (raiser.return_ (s.armKillBackstop handle raiser.seq grace raiser.clockAt)).1
        (raiser.return_ (s.armKillBackstop handle raiser.seq grace raiser.clockAt)).2

theorem takes {raiser raiser' : Raiser} {s s' : Shared}
    (htaken : raiser.step s = some (s', raiser')) : raiser.Takes s s' raiser' := by
  unfold step at htaken
  split at htaken
  · rename_i hstage
    cases htaken
    exact .clock hstage
  · rename_i hstage
    cases htaken
    exact .declare hstage
  · rename_i hstage
    dsimp only at htaken
    split at htaken
    · rename_i hrefused
      cases htaken
      exact .refuse hstage hrefused
    · rename_i haccepted
      cases htaken
      exact .raise hstage haccepted
  · rename_i hstage
    split at htaken
    · rename_i htarget
      cases htaken
      exact .read hstage htarget
    · rename_i hmissed
      cases htaken
      exact .miss hstage fun handle h => hmissed handle h
  · rename_i hstage
    cases htaken
    exact .arm hstage
  · cases htaken

end Raiser

/-! ## The gate -/

/-- A shutdown enters: the count and the phase change together. -/
def Shared.enter (s : Shared) : Shared :=
  { s with inFlight := s.inFlight + 1, phase := .shuttingDown }

/-- A shutdown leaves, completed or cut short. The last one in flight stores
`Defunct` when a shutdown has completed since the system was last active, and
clears the deadline the sweeps shared. -/
def Shared.leave (s : Shared) (completed : Bool) : Shared :=
  let inFlight := s.inFlight - 1
  let completedSinceActive := s.completedSinceActive || completed
  let ends := inFlight == 0 && completedSinceActive
  { s with
    inFlight := inFlight
    completedSinceActive := completedSinceActive
    sweepDeadline := if ends then none else s.sweepDeadline
    phase := if ends then .defunct else s.phase
    flight := if inFlight = 0 then s.flight + 1 else s.flight }

/-- Moves a defunct system with no shutdown in flight back to active, and says
whether it did. -/
def Shared.reactivate (s : Shared) : Shared × Bool :=
  if s.inFlight ≠ 0 ∨ s.phase ≠ .defunct then (s, false)
  else ({ s with completedSinceActive := false, phase := .active, era := s.era + 1 }, true)

end TokioActors.System
