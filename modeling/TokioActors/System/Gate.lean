/-
# Registrations, shutdowns and reactivation

Any number of shutdowns overlap, complete or are cut short, in any order, while
spawns register and callers reactivate the system. What the gate keeps through
all of it is one invariant over the phase, the count of shutdowns in flight, the
completed flag, the sweep deadline and the roots each walk has snapshotted.
-/

import TokioActors.System.Machine

namespace TokioActors.System

open Machine.Pool

/-! ## Steps that leave the gate alone -/

/-- What the gate orders, and what never changes. -/
structure Gate where
  phase : SystemPhase
  inFlight : ℤ
  registering : ℤ
  completedSinceActive : Bool
  sweepDeadline : Option Instant
  registrationSeq : Seq
  era : Nat
  flight : Nat
  shards : Nat
  hash : ActorId → Nat

def Shared.gate (s : Shared) : Gate where
  phase := s.phase
  inFlight := s.inFlight
  registering := s.registering
  completedSinceActive := s.completedSinceActive
  sweepDeadline := s.sweepDeadline
  registrationSeq := s.registrationSeq
  era := s.era
  flight := s.flight
  shards := s.shards
  hash := s.hash

/-- The registry holds the incarnation under the id. -/
def Shared.Holds (s : Shared) (id : ActorId) (seq : Seq) : Prop :=
  ∃ entry ∈ s.byId, entry.key = id ∧ entry.seq = seq

/-- The registry by id, without what its entries carry. -/
def Shared.rows (s : Shared) : List (ActorId × Seq) :=
  s.byId.map fun entry => (entry.key, entry.seq)

theorem Shared.holds_iff {s : Shared} {id : ActorId} {seq : Seq} :
    s.Holds id seq ↔ (id, seq) ∈ s.rows := by
  simp [Shared.Holds, Shared.rows]

/-- What an incarnation is registered with. -/
def Incarnation.birth (inc : Incarnation) : ActorId × Option String × Bool × Nat :=
  (inc.id, inc.name, inc.isRoot, inc.killGrace)

/-- The step registers nothing: the registry only loses entries. -/
structure Quiet (s s' : Shared) : Prop where
  rows : s'.rows.Sublist s.rows
  births : ∀ seq, (s'.incarnations seq).birth = (s.incarnations seq).birth

/-- The step registers nothing and leaves the gate as it is. -/
structure Calm (s s' : Shared) : Prop extends Quiet s s' where
  gate : s'.gate = s.gate

namespace Quiet

variable {s s' : Shared}

theorem of_eq (hbyId : s'.byId = s.byId) (hincarnations : s'.incarnations = s.incarnations) :
    Quiet s s' := by
  refine ⟨?_, fun seq => by rw [hincarnations]⟩
  simp only [Shared.rows, hbyId, List.Sublist.refl]

theorem holds (hquiet : Quiet s s') (id : ActorId) (seq : Seq) (hheld : s'.Holds id seq) :
    s.Holds id seq :=
  Shared.holds_iff.mpr (hquiet.rows.subset (Shared.holds_iff.mp hheld))

theorem roots (hquiet : Quiet s s') (seq : Seq) :
    (s'.incarnations seq).isRoot = (s.incarnations seq).isRoot :=
  congrArg (fun birth => birth.2.2.1) (hquiet.births seq)

end Quiet

namespace Calm

variable {s : Shared} {key : ActorId} {seq : Seq}

theorem of_eq {s' : Shared} (hgate : s'.gate = s.gate) (hbyId : s'.byId = s.byId)
    (hincarnations : s'.incarnations = s.incarnations) : Calm s s' :=
  ⟨.of_eq hbyId hincarnations, hgate⟩

theorem refl (s : Shared) : Calm s s := .of_eq rfl rfl rfl

theorem onIncarnation {f : Incarnation → Incarnation} (hbirth : ∀ inc, (f inc).birth = inc.birth) :
    Calm s (s.onIncarnation seq f) := by
  refine ⟨⟨.refl _, fun other => ?_⟩, rfl⟩
  by_cases hother : other = seq
  · subst hother
    simp [Shared.onIncarnation, hbirth]
  · simp [Shared.onIncarnation, hother]

theorem onIdEntry {f : Entry ActorId → Entry ActorId}
    (hkey : ∀ entry, (f entry).key = entry.key) (hseq : ∀ entry, (f entry).seq = entry.seq) :
    Calm s (s.onIdEntry key seq f) := by
  have hrows : (s.onIdEntry key seq f).rows = s.rows := ?_
  · exact ⟨⟨hrows ▸ .refl _, fun _ => rfl⟩, rfl⟩
  simp only [Shared.rows, Shared.onIdEntry, Keyed.update, List.map_map]
  refine List.map_congr_left fun entry _ => ?_
  simp only [Function.comp_apply]
  split <;> simp [hkey, hseq, apply_ite]

theorem unregisterById : Calm s (s.unregisterById key seq) :=
  ⟨⟨List.filter_sublist.map _, fun _ => rfl⟩, rfl⟩

end Calm

theorem Raiser.calm {raiser raiser' : Raiser} {s s' : Shared}
    (htaken : raiser.step s = some (s', raiser')) : Calm s s' := by
  have hraise : Calm s (s.onIncarnation raiser.seq fun inc => inc.raise .kill) :=
    .onIncarnation fun _ => rfl
  cases Raiser.takes htaken with
  | clock | read => exact .refl s
  | declare =>
    unfold Raiser.declare
    split
    · rename_i id _
      have hentry : Calm s (s.onIdEntry id raiser.seq fun entry =>
          entry.declareKill (raiser.due s)) :=
        .onIdEntry (fun entry => by unfold Entry.declareKill; split <;> rfl)
          (fun entry => by unfold Entry.declareKill; split <;> rfl)
      exact ⟨⟨hentry.rows, hentry.births⟩, hentry.gate⟩
    · exact .of_eq rfl rfl rfl
  | raise => exact hraise
  | refuse => exact ⟨⟨hraise.rows, hraise.births⟩, hraise.gate⟩
  | miss | arm => exact .of_eq rfl rfl rfl

/-! ## What a party is to the gate -/

/-- A shutdown past its entry: when it entered, its first snapshot, how far it is
with taking it, and whether it is in flight or completed. -/
structure Tour where
  era : Nat
  first : Option (List Snapshot)
  taking : Option (Nat × List Snapshot)
  flying : Bool
  completed : Bool

namespace Place

/-- The party holds the gate's shared side. -/
def admitted : Place → ℤ
  | spawn _ .drawSeq => 1
  | spawn _ (.claimName _) => 1
  | spawn _ (.claimId _) => 1
  | spawn _ (.releaseName _ _) => 1
  | _ => 0

def tour : Place → Option Tour
  | walk _ .enter => none
  | walk w (.snapshot shard found) => some ⟨w.era, w.first, some (shard, found), true, false⟩
  | walk w .finished => some ⟨w.era, w.first, none, false, true⟩
  | walk w .cutShort => some ⟨w.era, w.first, none, false, false⟩
  | walk w _ => some ⟨w.era, w.first, none, true, false⟩
  | _ => none

def flying (place : Place) : ℤ := if place.tour.any Tour.flying then 1 else 0

end Place

variable {s s' : Shared} {walk walk' : Walk} {stage stage' : Stage} {input : Input}

inductive Passage (s : Shared) (place : Place) : Shared → Place → Prop
  | calm {s' : Shared} {place' : Place} (calm : Calm s s')
      (admitted : place'.admitted = place.admitted) (tour : place'.tour = place.tour) :
      Passage s place s' place'
  | enrol {s' : Shared} {place' : Place} (active : s.phase = .active)
      (gate : s'.gate = { s.gate with registering := s.registering + 1 })
      (quiet : Quiet s s')
      (admitted : place.admitted = 0 ∧ place'.admitted = 1)
      (tour : place.tour = none ∧ place'.tour = none) : Passage s place s' place'
  | draw {s' : Shared} {place' : Place}
      (gate : s'.gate = { s.gate with registrationSeq := s.registrationSeq + 1 })
      (admitted : place.admitted = 1 ∧ place'.admitted = 1)
      (tour : place.tour = none ∧ place'.tour = none) : Passage s place s' place'
  /-- An admitted registration lands, or is refused after all. -/
  | land {s' : Shared} {place' : Place}
      (gate : s'.gate = { s.gate with registering := s.registering - 1 })
      (admitted : place.admitted = 1 ∧ place'.admitted = 0)
      (tour : place.tour = none ∧ place'.tour = none) : Passage s place s' place'
  | enter {s' : Shared} {place' : Place} (empty : s.registering = 0)
      (gate : s'.gate = { s.gate with inFlight := s.inFlight + 1, phase := .shuttingDown })
      (quiet : Quiet s s')
      (admitted : place.admitted = 0 ∧ place'.admitted = 0)
      (tour : place.tour = none ∧
        place'.tour = some ⟨s.era, none, some (0, []), true, false⟩) :
      Passage s place s' place'
  | visit {place' : Place} {shard : Nat} {found : List Snapshot} (tour : Tour)
      (admitted : place.admitted = 0 ∧ place'.admitted = 0)
      (before : place.tour = some { tour with taking := some (shard, found), flying := true })
      (after : place'.tour = some { tour with
        taking := some (shard + 1, found ++ s.snapshots shard s.isRoot), flying := true }) :
      Passage s place s place'
  | take {place' : Place} {shard : Nat} {found roots : List Snapshot}
      (tour : Tour) (all : s.shards ≤ shard) (perm : roots.Perm found)
      (admitted : place.admitted = 0 ∧ place'.admitted = 0)
      (before : place.tour = some { tour with taking := some (shard, found), flying := true })
      (after : place'.tour = some
        { tour with first := some roots, taking := none, flying := true }) :
      Passage s place s place'
  | fold {s' : Shared} {place' : Place} {floor : Instant} {walk : Walk} {tour : Tour}
      (stage : place = .walk walk (.foldStore floor))
      (gate : s'.gate = { s.gate with sweepDeadline := some (s.currentSweepDeadline floor) })
      (quiet : Quiet s s')
      (admitted : place.admitted = 0 ∧ place'.admitted = 0)
      (flying : tour.flying = true)
      (same : place.tour = some tour ∧ place'.tour = some tour) : Passage s place s' place'
  | leave {place' : Place} {completed : Bool} (tour : Tour)
      (empty : s.registering = 0) (admitted : place.admitted = 0 ∧ place'.admitted = 0)
      (before : place.tour = some { tour with flying := true, completed := false })
      (after : place'.tour = some
        { tour with taking := none, flying := false, completed := completed }) :
      Passage s place (s.leave completed) place'
  | reactivate {place' : Place} (empty : s.registering = 0)
      (admitted : place.admitted = 0 ∧ place'.admitted = 0)
      (tour : place.tour = none ∧ place'.tour = none) :
      Passage s place s.reactivate.1 place'

/-! ## Every step is a passage -/

theorem tour_nextRoot (roots : List Snapshot) : (Place.walk walk (Walk.nextRoot roots)).tour =
    some ⟨walk.era, walk.first, none, true, false⟩ := by
  cases roots <;> rfl

theorem newestFirst_perm (roots : List Snapshot) : (newestFirst roots).Perm roots :=
  List.perm_insertionSort (fun first second : Snapshot => second.seq ≤ first.seq) roots

theorem Walk.passage_cut (hempty : s.registering = 0)
    (hflying : stage.inFlight = true) :
    Passage s (.walk walk stage) (s.leave false) (.walk walk .cutShort) := by
  cases stage with
  | enter | finished | cutShort => cases hflying
  | snapshot shard found =>
    exact .leave ⟨walk.era, walk.first, some (shard, found), true, false⟩ hempty ⟨rfl, rfl⟩ rfl rfl
  | _ => exact .leave ⟨walk.era, walk.first, none, true, false⟩ hempty ⟨rfl, rfl⟩ rfl rfl

/-- A walk's step enters, takes the first snapshot, folds the deadline, leaves, or
leaves the gate alone. -/
theorem Walked.passage {input : WalkInput} (hfresh : stage = .enter → walk.first = none)
    (hwalked : Walked walk s stage input s' walk' stage') :
    Passage s (.walk walk stage) s' (.walk walk' stage') := by
  cases hwalked with
  | enter hempty =>
    refine .enter hempty rfl (.of_eq rfl rfl) ⟨rfl, rfl⟩ ⟨rfl, ?_⟩
    simp only [Place.tour, hfresh rfl]
  | visit => exact .visit ⟨walk.era, walk.first, none, true, false⟩ ⟨rfl, rfl⟩ rfl rfl
  | board hall =>
    refine .take ⟨walk.era, walk.first, none, true, false⟩ hall (newestFirst_perm _) ⟨rfl, ?_⟩ rfl
      (tour_nextRoot _)
    unfold Walk.nextRoot
    split <;> rfl
  | ask => exact .calm (.onIncarnation fun _ => rfl) rfl rfl
  | raise htaken | press htaken => exact .calm (Raiser.calm htaken) rfl rfl
  | report | late => exact .calm (.refl s) rfl (tour_nextRoot _)
  | @join _ _ _ sweep => cases sweep <;> exact .calm (.refl s) rfl rfl
  | foldStore => exact .fold rfl rfl (.of_eq rfl rfl) ⟨rfl, rfl⟩ rfl ⟨rfl, rfl⟩
  | leave hempty =>
    exact .leave ⟨walk.era, walk.first, none, true, false⟩ hempty ⟨rfl, rfl⟩ rfl rfl
  | cut hempty hflying => exact Walk.passage_cut hempty hflying
  | _ => exact .calm (.refl s) rfl rfl

theorem passage_spawn {spec : Spec} {stage stage' : SpawnStage}
    (htaken : spec.step s stage = some (s', stage')) :
    Passage s (.spawn spec stage) s' (.spawn spec stage') := by
  cases stage with
  | phaseCheck =>
    simp only [Spec.step] at htaken
    split at htaken
    · cases htaken
      exact .calm (.refl s) rfl rfl
    · rename_i hactive
      cases htaken
      exact .enrol (not_not.mp hactive) rfl (.of_eq rfl rfl) ⟨rfl, rfl⟩ ⟨rfl, rfl⟩
  | drawSeq =>
    cases htaken
    refine .draw rfl ⟨rfl, ?_⟩ ⟨rfl, rfl⟩
    split <;> rfl
  | claimName =>
    simp only [Spec.step] at htaken
    split at htaken
    · cases htaken
      exact .calm (.refl s) rfl rfl
    · split at htaken <;> cases htaken
      · exact .land rfl ⟨rfl, rfl⟩ ⟨rfl, rfl⟩
      · exact .calm (.of_eq rfl rfl rfl) rfl rfl
  | claimId =>
    simp only [Spec.step] at htaken
    split at htaken
    · split at htaken <;> cases htaken
      · exact .calm (.refl s) rfl rfl
      · exact .land rfl ⟨rfl, rfl⟩ ⟨rfl, rfl⟩
    · cases htaken
      exact .land rfl ⟨rfl, rfl⟩ ⟨rfl, rfl⟩
  | releaseName =>
    cases htaken
    exact .land rfl ⟨rfl, rfl⟩ ⟨rfl, rfl⟩
  | refused | attached => cases htaken
  | attachId =>
    cases htaken
    exact .calm (.onIdEntry (fun _ => rfl) fun _ => rfl) rfl rfl
  | attachName =>
    simp only [Spec.step] at htaken
    split at htaken <;> cases htaken
    · exact .calm (.refl s) rfl rfl
    · exact .calm (.of_eq rfl rfl rfl) rfl rfl
  | readLane =>
    cases htaken
    refine .calm (.refl s) ?_ rfl
    split <;> rfl
  | readIdDue | readNameDue | readClock =>
    cases htaken
    exact .calm (.refl s) rfl rfl
  | arm =>
    cases htaken
    exact .calm (.of_eq rfl rfl rfl) rfl rfl

theorem Acted.calm {spec : Spec} {seq : Seq} (hacted : Acted spec seq s input s') : Calm s s' := by
  cases hacted with
  | unregisterId => exact .unregisterById
  | unregisterName => exact .of_eq rfl rfl rfl
  | _ => exact .onIncarnation fun _ => rfl

def Place.Begins (place : Place) : Prop :=
  place.admitted = 0 ∧ place.tour = none ∧ ∀ walk, place = .walk walk .enter → walk.first = none

/-- Every step of a party is a passage, and the parties it brings begin. -/
theorem next_passage {place place' : Place}
    {entering : List Place} (hfresh : ∀ walk, place = .walk walk .enter → walk.first = none)
    (htaken : next s place input = some (s', place', entering)) :
    Passage s place s' place' ∧ ∀ place ∈ entering, place.Begins := by
  cases took_of_next htaken with
  | tick => exact ⟨.calm (.of_eq rfl rfl rfl) rfl rfl, by simp⟩
  | call | kill | shutdown =>
    refine ⟨.calm (.refl s) rfl rfl, ?_⟩
    simp [Place.Begins, Place.admitted, Place.tour]
  | reactivate hquiet => exact ⟨.reactivate hquiet ⟨rfl, rfl⟩ ⟨rfl, rfl⟩, by simp⟩
  | raise => exact ⟨.calm (.onIncarnation fun _ => rfl) rfl rfl, by simp⟩
  | spawn hstep hentering =>
    refine ⟨passage_spawn hstep, ?_⟩
    rcases hentering with rfl | ⟨_, _, _, rfl⟩ <;>
      simp [Place.Begins, Place.admitted, Place.tour]
  | actor hacted => exact ⟨.calm hacted.calm rfl rfl, by simp⟩
  | raiser hstep => exact ⟨.calm (Raiser.calm hstep) rfl rfl, by simp⟩
  | @walk walk _ _ _ _ _ hstep =>
    refine ⟨(Walk.walked hstep).passage ?_, by simp⟩
    rintro rfl
    exact hfresh walk rfl

end TokioActors.System
