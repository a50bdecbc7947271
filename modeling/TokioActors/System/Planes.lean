/-
# Status planes over time

An incarnation's plane only moves forward: its lane is sealed once, its reason
is written once, with the instant of the write, and a terminal plane keeps its
status and its instant. No party but the incarnation itself moves its plane; the
others raise on its lane.
-/

import TokioActors.System.Filing

namespace TokioActors.System

open Machine.Pool

/-- What an incarnation's lane and plane agree on. -/
structure Incarnation.Sound (now : Instant) (inc : Incarnation) : Prop where
  reason : inc.reason.isSome = inc.finalAt.isSome
  past : ∀ finalAt, inc.finalAt = some finalAt → finalAt ≤ now
  stopped : inc.status = .stopped → inc.finalAt.isSome = true ∧ inc.aborted = false
  sealed : inc.finalAt.isSome = true → inc.lane.sealed = true ∨ inc.aborted = true

/-- One change of an incarnation. -/
inductive Ages (now : Instant) (inc : Incarnation) : Incarnation → Prop
  | same : Ages now inc inc
  | lane {lane : LaneState} {laneGone : Bool}
      (sealed : inc.lane.sealed = true → lane.sealed = true) :
      Ages now inc { inc with lane := lane, laneGone := laneGone }
  | stamp {reason : StopReason} (unwritten : inc.reason = none)
      (sealed : inc.lane.sealed = true) (opened : inc.closed = false) :
      Ages now inc { inc with reason := some reason, finalAt := some now }
  | abandon {reason : StopReason} (unwritten : inc.reason = none)
      (opened : inc.closed = false) :
      Ages now inc { inc with reason := some reason, finalAt := some now, aborted := true }
  | publish (written : inc.reason.isSome = true)
      (kept : inc.aborted = false) (opened : inc.closed = false) :
      Ages now inc { inc with status := .stopped }
  | close : Ages now inc { inc with closed := true }

namespace Ages

variable {now : Instant} {inc inc' : Incarnation}

theorem sound (hages : Ages now inc inc') (hsound : inc.Sound now) : inc'.Sound now := by
  obtain ⟨hreason, hpast, hstopped, hsealed⟩ := hsound
  cases hages with
  | same | close => exact ⟨hreason, hpast, hstopped, hsealed⟩
  | lane hlane => exact ⟨hreason, hpast, hstopped, fun h => (hsealed h).imp_left hlane⟩
  | stamp hunwritten hlane =>
    refine ⟨rfl, by simp, fun h => ?_, fun _ => .inl hlane⟩
    exact absurd (hreason.trans (hstopped h).1) (by simp [hunwritten])
  | abandon hunwritten =>
    refine ⟨rfl, by simp, fun h => ?_, fun _ => .inr rfl⟩
    exact absurd (hreason.trans (hstopped h).1) (by simp [hunwritten])
  | publish hwritten hkept => exact ⟨hreason, hpast, fun _ => ⟨hreason ▸ hwritten, hkept⟩, hsealed⟩

/-- A terminal plane keeps its status and its instant. -/
theorem terminal (hages : Ages now inc inc') (hsound : inc.Sound now)
    (hterminal : inc.terminal = true) :
    inc'.terminal = true ∧ inc'.status = inc.status ∧ inc'.finalAt = inc.finalAt := by
  have hstops (hopened : inc.closed = false) : inc.status = .stopped := by
    simpa [Incarnation.terminal, hopened] using hterminal
  have hwritten (hunwritten : inc.reason = none) (hopened : inc.closed = false) : False := by
    have := hsound.reason.trans (hsound.stopped (hstops hopened)).1
    simp [hunwritten] at this
  cases hages with
  | same | lane => exact ⟨hterminal, rfl, rfl⟩
  | stamp hunwritten _ hopened | abandon hunwritten hopened =>
    exact absurd (hwritten hunwritten hopened) id
  | publish _ _ hopened => exact ⟨by simp [Incarnation.terminal], (hstops hopened).symm, rfl⟩
  | close => exact ⟨by simp [Incarnation.terminal], rfl, rfl⟩

end Ages

variable {s s' : Shared} {walk walk' : Walk} {stage' : Stage}

theorem Incarnation.Sound.later {now now' : Instant} {inc : Incarnation} (hsound : inc.Sound now)
    (hle : now ≤ now') : inc.Sound now' :=
  ⟨hsound.reason, fun f hf => (hsound.past f hf).trans hle, hsound.stopped, hsound.sealed⟩

theorem Incarnation.unsealed_of_accepted {inc : Incarnation} {reason : StopReason}
    (haccepted : inc.raiseResult reason ≠ .refused) : inc.lane.sealed = false := by
  by_contra hunsealed
  have hsealed : inc.lane.sealed = true := by simpa using hunsealed
  refine haccepted ?_
  simp [Incarnation.raiseResult, LaneState.raiseResult, laneAccept, hsealed]

theorem LaneState.sealed_raise (lane : LaneState) (reason : StopReason) (gone : Bool) :
    (lane.raise reason gone).sealed = lane.sealed := by
  simp only [LaneState.raise]
  split <;> rfl

/-! ## What the parties touch -/

/-- The raiser a walk is in. -/
def Stage.raiser? : Stage → Option Raiser
  | ladder _ _ (.killRaise raiser) => some raiser
  | launchRaise _ _ _ _ raiser => some raiser
  | _ => none

@[simp] theorem Stage.raiser?_nextRoot (rest : List Snapshot) :
    (Walk.nextRoot rest).raiser? = none := by
  cases rest <;> rfl

theorem Stage.raiser?_of_plain {root : Snapshot} {rest : List Snapshot} {ladder : Ladder}
    (hplain : ladder.acts = false) : (Stage.ladder root rest ladder).raiser? = none := by
  cases ladder <;> first | rfl | cases hplain

/-- What a step of a walk does to the system, and to the raiser it is in. -/
inductive Touch (s : Shared) (before : Option Raiser) : Shared → Option Raiser → Prop
  | same : Touch s before s none
  | enter : Touch s before s.enter none
  | leave {completed : Bool} : Touch s before (s.leave completed) none
  | fold {deadline : Instant} : Touch s before { s with sweepDeadline := some deadline } none
  | raise {seq : Seq} {reason : StopReason} :
      Touch s before (s.onIncarnation seq fun inc => inc.raise reason) none
  | call {id : ActorId} {seq : Seq} {entry : Entry ActorId}
      (found : s.idEntry id seq = some entry) :
      Touch s before s (some ⟨.id id, entry.seq, none, .clock, 0, none, false⟩)
  | raiser {s' : Shared} {raiser raiser' : Raiser} (before_eq : before = some raiser)
      (taken : raiser.step s = some (s', raiser')) : Touch s before s' (some raiser')

theorem Walked.touch {stage : Stage} {input : WalkInput}
    (hwalked : Walked walk s stage input s' walk' stage') :
    Touch s stage.raiser? s' stage'.raiser? := by
  cases hwalked with
  | enter => exact .enter
  | leave | cut => exact .leave
  | foldStore => exact .fold
  | ask => exact .raise
  | kill hfound | sight hfound => exact .call hfound
  | raise htaken | press htaken => exact .raiser rfl htaken
  | board | report | late => exact Stage.raiser?_nextRoot _ ▸ .same
  | rung _ hplain => exact Stage.raiser?_of_plain hplain ▸ .same
  | _ => exact .same

structure Later (s s' : Shared) : Prop where
  now : s.now ≤ s'.now
  ages : ∀ seq, Ages s.now (s.incarnations seq) (s'.incarnations seq)

theorem Later.of_eq (hnow : s.now ≤ s'.now)
    (hincarnations : s'.incarnations = s.incarnations) : Later s s' :=
  ⟨hnow, fun seq => by rw [hincarnations]; exact .same⟩

structure Lanes (s s' : Shared) : Prop where
  now : s.now ≤ s'.now
  raised : ∀ seq, ∃ lane laneGone,
    s'.incarnations seq = { s.incarnations seq with lane := lane, laneGone := laneGone } ∧
      ((s.incarnations seq).lane.sealed = true → lane.sealed = true)

namespace Lanes

variable {s s' : Shared}

theorem of_eq (hnow : s.now ≤ s'.now) (hincarnations : s'.incarnations = s.incarnations) :
    Lanes s s' :=
  ⟨hnow, fun seq => ⟨_, _, by rw [hincarnations], id⟩⟩

theorem raise {seq : Seq} {reason : StopReason} :
    Lanes s (s.onIncarnation seq fun inc => inc.raise reason) := by
  refine ⟨le_rfl, fun other => ?_⟩
  by_cases hother : other = seq
  · subst hother
    refine ⟨(s.incarnations other).lane.raise reason (s.incarnations other).laneGone,
      (s.incarnations other).laneGone, ?_, fun h => ?_⟩
    · simp [Shared.onIncarnation, Incarnation.raise]
    · rwa [LaneState.sealed_raise]
  · exact ⟨(s.incarnations other).lane, (s.incarnations other).laneGone,
      by simp [Shared.onIncarnation, hother], id⟩

theorem raiser {raiser raiser' : Raiser} (htaken : raiser.step s = some (s', raiser')) :
    Lanes s s' := by
  cases Raiser.takes htaken with
  | clock | read | miss | arm => exact .of_eq le_rfl rfl
  | declare =>
    unfold Raiser.declare
    split <;> exact .of_eq le_rfl rfl
  | raise => exact .raise
  | refuse => exact { @Lanes.raise s raiser.seq .kill with }

theorem later (hlanes : Lanes s s') : Later s s' := by
  refine ⟨hlanes.now, fun seq => ?_⟩
  obtain ⟨lane, laneGone, heq, hsealed⟩ := hlanes.raised seq
  rw [heq]
  exact .lane hsealed

end Lanes

variable {s s' : Shared} {input : Input} {spec : Spec}

theorem Touch.lanes {before after : Option Raiser} (htouch : Touch s before s' after) :
    Lanes s s' := by
  cases htouch with
  | same | enter | leave | fold | call => exact .of_eq le_rfl rfl
  | raise => exact .raise
  | raiser _ htaken => exact .raiser htaken

theorem Acted.later {seq : Seq} (hacted : Acted spec seq s input s') : Later s s' := by
  have hone {f : Incarnation → Incarnation}
      (hages : Ages s.now (s.incarnations seq) (f (s.incarnations seq))) :
      Later s (s.onIncarnation seq f) := by
    refine ⟨le_rfl, fun other => ?_⟩
    by_cases hother : other = seq
    · subst hother
      simpa [Shared.onIncarnation] using hages
    · simpa [Shared.onIncarnation, hother] using Ages.same
  cases hacted with
  | unregisterId | unregisterName => exact .of_eq le_rfl rfl
  | sealLane => exact hone (.lane fun _ => rfl)
  | dropLane => exact hone (.lane id)
  | closePlane => exact hone .close
  | writeReason hnone hshut hopen => exact hone (.stamp hnone hshut hopen)
  | abandon hnone hopen => exact hone (.abandon hnone hopen)
  | publishStopped hwritten hkept hopen => exact hone (.publish hwritten hkept hopen)

/-- Only the write of its reason stamps the end of an incarnation whose task was
not aborted. -/
theorem Acted.stamp {own : Seq} (hacted : Acted spec own s input s') (seq : Seq)
    (hkept : (s'.incarnations seq).aborted = false) :
    (s'.incarnations seq).finalAt = (s.incarnations seq).finalAt ∧
        (s.incarnations seq).aborted = false ∨
      (s'.incarnations seq).finalAt = some s.now ∧ ∃ reason, input = .writeReason reason := by
  by_cases hseq : seq = own
  · subst hseq
    cases hacted with
    | unregisterId | unregisterName => exact .inl ⟨rfl, hkept⟩
    | @writeReason reason => exact .inr ⟨by simp [Shared.onIncarnation], reason, rfl⟩
    | abandon => simp [Shared.onIncarnation] at hkept
    | _ =>
      simp [Shared.onIncarnation] at hkept ⊢
      exact hkept
  · have hsame : s'.incarnations seq = s.incarnations seq := by
      cases hacted with
      | unregisterId | unregisterName => rfl
      | _ => simp [Shared.onIncarnation, hseq]
    rw [hsame] at hkept ⊢
    exact .inl ⟨rfl, hkept⟩

theorem lanes_spawn {stage stage' : SpawnStage}
    (hstage : stage ≠ .drawSeq) (htaken : spec.step s stage = some (s', stage')) : Lanes s s' := by
  have hsame (hnow : s'.now = s.now) (hincarnations : s'.incarnations = s.incarnations) :
      Lanes s s' :=
    .of_eq hnow.ge hincarnations
  cases stage with
  | drawSeq => contradiction
  | phaseCheck | claimName | claimId | attachName =>
    simp only [Spec.step] at htaken
    split at htaken
    all_goals try split at htaken
    all_goals
      cases htaken
      exact hsame rfl rfl
  | releaseName | attachId | readLane | readIdDue | readNameDue | readClock | arm =>
    cases htaken
    exact hsame rfl rfl
  | refused | attached => cases htaken

/-- The parties other than incarnations and draws leave every plane alone. -/
theorem lanes_next {place place' : Place} {entering : List Place}
    (hdraw : ∀ spec, place ≠ .spawn spec .drawSeq) (hactor : ∀ spec seq, place ≠ .actor spec seq)
    (htaken : next s place input = some (s', place', entering)) : Lanes s s' := by
  cases took_of_next htaken with
  | tick => exact .of_eq (Nat.le_add_right _ _) rfl
  | call | kill | shutdown => exact .of_eq le_rfl rfl
  | reactivate =>
    unfold Shared.reactivate
    split <;> exact .of_eq le_rfl rfl
  | raise => exact .raise
  | @spawn spec _ _ _ _ hstep => exact lanes_spawn (fun h => hdraw spec (h ▸ rfl)) hstep
  | @actor spec seq => exact absurd rfl (hactor spec seq)
  | raiser hstep => exact .raiser hstep
  | walk hstep => exact (Walk.walked hstep).touch.lanes

/-- Every step but the draw of a number moves the clock and the planes forward,
and only an incarnation that writes its reason stamps an end. -/
theorem later_next {place place' : Place} {entering : List Place}
    (hdraw : ∀ spec, place ≠ .spawn spec .drawSeq)
    (htaken : next s place input = some (s', place', entering)) :
    Later s s' ∧ ∀ seq, (s'.incarnations seq).aborted = false →
      (s'.incarnations seq).finalAt = (s.incarnations seq).finalAt ∧
          (s.incarnations seq).aborted = false ∨
        (s'.incarnations seq).finalAt = some s.now ∧ ∃ reason, input = .writeReason reason := by
  by_cases hactor : ∃ spec seq, place = .actor spec seq
  · obtain ⟨spec, own, rfl⟩ := hactor
    cases took_of_next htaken with
    | actor hacted => exact ⟨hacted.later, hacted.stamp⟩
  · have hlanes := lanes_next hdraw (fun spec seq h => hactor ⟨spec, seq, h⟩) htaken
    refine ⟨hlanes.later, fun seq hkept => .inl ?_⟩
    obtain ⟨lane, laneGone, heq, _⟩ := hlanes.raised seq
    rw [heq] at hkept ⊢
    exact ⟨rfl, hkept⟩

/-! ## Runs -/

theorem Reaches.sound {allowed : State → Nat × Input → Prop} {systemName : String} {shards : ℕ+}
    {hash : ActorId → Nat} {state : State} (hreach : Reaches allowed systemName shards hash state)
    (seq : Seq) : (state.shared.incarnations seq).Sound state.shared.now := by
  have hfresh (now : Instant) (id : ActorId) (name : Option String) (isRoot : Bool)
      (killGrace : Nat) : ({ id := id, name := name, isRoot := isRoot, killGrace := killGrace } :
        Incarnation).Sound now :=
    ⟨rfl, nofun, nofun, nofun⟩
  refine @invariant _ _ _ next allowed _ state
    (fun state => ∀ seq, (state.shared.incarnations seq).Sound state.shared.now) ?_ ?_ hreach seq
  · exact fun seq => hfresh _ 0 none false 0
  · intro state i input place place' s' entering hsound _ _ htaken seq
    by_cases hplace : ∀ spec, place ≠ .spawn spec .drawSeq
    · have hlater := (later_next hplace htaken).1
      exact ((hlater.ages seq).sound (hsound seq)).later hlater.now
    · obtain ⟨spec, rfl⟩ : ∃ spec, place = .spawn spec .drawSeq := by simpa using hplace
      cases input with
      | go =>
        cases htaken
        by_cases hseq : seq = state.shared.registrationSeq
        · subst hseq
          simpa using hfresh state.shared.now spec.id spec.name spec.isRoot spec.killGrace
        · simpa [hseq] using hsound seq
      | _ => cases htaken

end TokioActors.System
