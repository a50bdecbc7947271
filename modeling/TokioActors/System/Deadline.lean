/-
# One verdict for one leftover

The final sweeps of overlapping shutdowns share one deadline, which every sweep
lowers to its own when that is earlier. A leftover whose end became final before
the deadline stopped in time, any other was killed. The fold of a sweep reads
the clock before it stores the deadline, so an end that becomes final between
the two, at or after the floor that was read, is judged one way before the store
and the other way after it. Where no end falls into such a gap, overlapping
shutdowns never disagree on a leftover that ended.
-/

import TokioActors.System.Reports

namespace TokioActors.System

open Machine.Pool

/-! ## The gap -/

/-- The floor of a fold that has read the clock and not stored the deadline. -/
def Place.floor : Place → Option Instant
  | walk _ (.foldStore floor) => some floor
  | _ => none

def Place.waiting : Place → Bool
  | walk _ (.waits _ _) => true
  | _ => false

/-- No wait task of a sweep fails. -/
def waitsKept (state : State) (label : Nat × Input) : Bool :=
  match label.2 with
  | .walk (.taskFails _) => !(state.parties[label.1]?).any Place.waiting
  | _ => true

/-- No reason is written inside the gap of a fold, once the clock has reached
the floor. -/
def outsideGaps (state : State) (label : Nat × Input) : Bool :=
  match label.2 with
  | .writeReason _ => state.parties.all fun place => place.floor.all fun floor =>
    decide (state.shared.now < floor)
  | _ => true

/-! ## What the sweeps know -/

/-- The system's deadline is held, and no later than the instant. -/
def HeldBy (s : Shared) (instant : Instant) : Prop :=
  ∃ held, s.sweepDeadline = some held ∧ held ≤ instant

/-- The incarnation's end, when there is one, came no earlier than the deadline. -/
def Behind (s : Shared) (seq : Seq) : Prop :=
  ∃ held, s.sweepDeadline = some held ∧ ∀ finalAt, (s.incarnations seq).aborted = false →
    (s.incarnations seq).finalAt = some finalAt → held ≤ finalAt

def Terminal (s : Shared) (seq : Seq) : Prop := (s.incarnations seq).terminal = true

/-- A wait that ended saw the end, or the deadline has passed. -/
def Settled (s : Shared) (seq : Seq) (ended : Bool) : Prop :=
  if ended then Terminal s seq else HeldBy s s.now

def WaitStage.Timed (s : Shared) (seq : Seq) : WaitStage → Prop
  | .last => HeldBy s s.now
  | .ended seen => Settled s seq seen
  | .failed => False
  | _ => True

def Wait.Timed (s : Shared) (task : Wait) : Prop :=
  HeldBy s task.deadline ∧ task.stage.Timed s task.target.seq

structure Force.Timed (s : Shared) (task : Force) : Prop where
  raised : task.raised = true → Behind s task.target.seq
  ended : ∀ report, task.stage = .ended report → report.outcome ≠ .unresponsive →
    Terminal s task.target.seq
  requested : task.requested ≠ .unresponsive

/-- What a force sweep of leftovers knows: the deadline has passed. -/
structure Pressed (s : Shared) (folded deadline : Instant) (targets : List Target)
    (tasks : List Force) : Prop where
  deadline : deadline = folded
  held : HeldBy s folded
  due : HeldBy s s.now
  targets : ∀ target ∈ targets, target.killRaised = false
  tasks : ∀ task ∈ tasks, task.Timed s

/-- What a walk that folded its deadline to the given one knows at its stage. -/
def Stage.Timed (s : Shared) (folded : Instant) : Stage → Prop
  | foldStore floor => ∀ seq finalAt, (s.incarnations seq).aborted = false →
      (s.incarnations seq).finalAt = some finalAt → finalAt < floor
  | list _ _ => HeldBy s folded
  | waits tasks waited => HeldBy s folded ∧ (∀ task ∈ tasks, task.Timed s) ∧
      ∀ joined ∈ waited, Settled s joined.2.1.seq joined.2.2
  | classify waited stragglers => HeldBy s folded ∧
      (∀ joined ∈ waited, Settled s joined.1.seq joined.2) ∧
      (stragglers ≠ [] → HeldBy s s.now) ∧ ∀ target ∈ stragglers, target.killRaised = false
  | launch sweep targets tasks => ∀ deadline ∈ sweep, Pressed s folded deadline targets tasks
  | launchRaise sweep target rest tasks raiser => ∀ deadline ∈ sweep,
      Pressed s folded deadline (target :: rest) tasks ∧
        (raiser.accepted = true → Behind s target.snapshot.seq)
  | launchAbort sweep target rest tasks => ∀ deadline ∈ sweep,
      Pressed s folded deadline (target :: rest) tasks
  | join sweep tasks => ∀ deadline ∈ sweep, Pressed s folded deadline [] tasks
  | _ => True

/-- A reported leftover that ended, as it is judged now. -/
def Recorded (s : Shared) (outcome : Outcome) : Prop :=
  outcome.report.outcome ≠ .unresponsive → Terminal s outcome.seq ∧
    ∃ held, s.sweepDeadline = some held ∧
      outcome.report.outcome = (s.incarnations outcome.seq).leftoverOutcome false held

/-! ## What others' steps keep -/

/-- What a step does to the shared deadline. -/
inductive Shift (s : Shared) (place : Place) (s' : Shared) : Prop
  | kept (deadline : s'.sweepDeadline = s.sweepDeadline) (flight : s'.flight = s.flight)
      (stays : 0 < s.inFlight → s'.inFlight ≠ 0)
  | fold (floor : Instant) (walk : Walk) (stage : place = .walk walk (.foldStore floor))
      (deadline : s'.sweepDeadline = some (s.currentSweepDeadline floor))
      (flight : s'.flight = s.flight) (stays : 0 < s.inFlight → s'.inFlight ≠ 0)
  /-- The last shutdown in flight leaves. -/
  | last (empty : s'.inFlight = 0) (flight : s'.flight = s.flight + 1)

theorem Passage.shift {s s' : Shared} {place place' : Place}
    (hpassage : Passage s place s' place') :
    Shift s place s' := by
  have hgate {gate : Gate} (hsame : s'.gate = gate)
      (hdeadline : gate.sweepDeadline = s.sweepDeadline)
      (hflight : gate.flight = s.flight) (hinFlight : s.inFlight ≤ gate.inFlight) :
      Shift s place s' := by
    have hcount : s'.inFlight = gate.inFlight := congrArg Gate.inFlight hsame
    exact .kept ((congrArg Gate.sweepDeadline hsame).trans hdeadline)
      ((congrArg Gate.flight hsame).trans hflight) (by omega)
  cases hpassage with
  | calm hcalm => exact hgate hcalm.gate rfl rfl le_rfl
  | enrol _ hsame | draw hsame | land hsame => exact hgate hsame rfl rfl le_rfl
  | enter _ hsame => exact hgate hsame rfl rfl (by simp)
  | visit | take => exact .kept rfl rfl ne_of_gt
  | fold hstage hsame =>
    have hcount : s'.inFlight = s.inFlight := congrArg Gate.inFlight hsame
    exact .fold _ _ hstage (congrArg Gate.sweepDeadline hsame) (congrArg Gate.flight hsame)
      (by omega)
  | @leave _ _ completed =>
    by_cases hempty : s.inFlight - 1 = 0
    · exact .last hempty (if_pos hempty)
    · refine .kept ?_ (if_neg hempty) fun _ => hempty
      simp [Shared.leave, hempty]
  | reactivate =>
    unfold Shared.reactivate
    split <;> exact .kept rfl rfl ne_of_gt

/-- A step within a flight: time passes, the deadline is only lowered, and an end
is stamped with the present instant. -/
structure Onward (stamping : Prop) (s s' : Shared) : Prop where
  later : Later s s'
  lowers : ∀ held, s.sweepDeadline = some held →
    ∃ held', s'.sweepDeadline = some held' ∧ held' ≤ held
  stamps : ∀ seq, (s'.incarnations seq).aborted = false →
    (s'.incarnations seq).finalAt = (s.incarnations seq).finalAt ∧
        (s.incarnations seq).aborted = false ∨
      (s'.incarnations seq).finalAt = some s.now ∧ stamping
  sound : ∀ seq, (s.incarnations seq).Sound s.now

section Onward

variable {stamping : Prop} {s s' : Shared}
variable {seq : Seq}

section

variable (honward : Onward stamping s s')

include honward

theorem HeldBy.onward {instant instant' : Instant}
    (hle : instant ≤ instant') (hheld : HeldBy s instant) : HeldBy s' instant' := by
  obtain ⟨held, heq, hbound⟩ := hheld
  obtain ⟨held', heq', hlower⟩ := honward.lowers held heq
  exact ⟨held', heq', hlower.trans (hbound.trans hle)⟩

theorem Terminal.onward (hterminal : Terminal s seq) : Terminal s' seq :=
  ((honward.later.ages seq).terminal (honward.sound seq) hterminal).1

theorem Behind.onward (hdue : HeldBy s s.now) (hbehind : Behind s seq) : Behind s' seq := by
  obtain ⟨held, heq, hlate⟩ := hbehind
  obtain ⟨held', heq', hlower⟩ := honward.lowers held heq
  refine ⟨held', heq', fun finalAt hkept hfinal => hlower.trans ?_⟩
  rcases honward.stamps seq hkept with ⟨hsame, hbefore⟩ | ⟨hnow, _⟩
  · exact hlate finalAt hbefore (hsame ▸ hfinal)
  · obtain ⟨other, hother, hpassed⟩ := hdue
    cases heq.symm.trans hother
    cases hnow.symm.trans hfinal
    exact hpassed

theorem Settled.onward {ended : Bool} (hsettled : Settled s seq ended) : Settled s' seq ended := by
  cases ended with
  | true => exact Terminal.onward honward hsettled
  | false => exact HeldBy.onward honward honward.later.now hsettled

theorem Wait.Timed.onward {task : Wait} (htimed : task.Timed s) : task.Timed s' := by
  obtain ⟨hheld, hstage⟩ := htimed
  refine ⟨hheld.onward honward le_rfl, ?_⟩
  cases hcase : task.stage with
  | last =>
    rw [hcase] at hstage
    exact HeldBy.onward honward honward.later.now hstage
  | ended =>
    rw [hcase] at hstage
    exact Settled.onward honward hstage
  | failed =>
    rw [hcase] at hstage
    exact hstage
  | _ => trivial

theorem Force.Timed.onward {task : Force} (hdue : HeldBy s s.now)
    (htimed : task.Timed s) : task.Timed s' :=
  ⟨fun h => (htimed.raised h).onward honward hdue,
    fun report hreport hne => (htimed.ended report hreport hne).onward honward, htimed.requested⟩

theorem Pressed.onward {folded deadline : Instant} {targets : List Target} {tasks : List Force}
    (hpressed : Pressed s folded deadline targets tasks) :
    Pressed s' folded deadline targets tasks :=
  ⟨hpressed.deadline, hpressed.held.onward honward le_rfl,
    hpressed.due.onward honward honward.later.now, hpressed.targets,
    fun task htask => (hpressed.tasks task htask).onward honward hpressed.due⟩

theorem Stage.Timed.onward {folded : Instant} {stage : Stage}
    (hgap : stamping → ∀ floor, stage = .foldStore floor → s.now < floor)
    (htimed : stage.Timed s folded) : stage.Timed s' folded := by
  cases stage with
  | foldStore floor =>
    intro seq finalAt hkept hfinal
    rcases honward.stamps seq hkept with ⟨hsame, hbefore⟩ | ⟨hnow, hstamping⟩
    · exact htimed seq finalAt hbefore (hsame ▸ hfinal)
    · cases hnow.symm.trans hfinal
      exact hgap hstamping floor rfl
  | list => exact HeldBy.onward honward le_rfl htimed
  | waits =>
    exact ⟨htimed.1.onward honward le_rfl, fun task htask => (htimed.2.1 task htask).onward honward,
      fun joined hjoined => (htimed.2.2 joined hjoined).onward honward⟩
  | classify =>
    exact ⟨htimed.1.onward honward le_rfl,
      fun joined hjoined => (htimed.2.1 joined hjoined).onward honward,
      fun h => (htimed.2.2.1 h).onward honward honward.later.now, htimed.2.2.2⟩
  | launch | launchAbort | join =>
    exact fun deadline hsweep => (htimed deadline hsweep).onward honward
  | launchRaise =>
    intro deadline hsweep
    obtain ⟨hpressed, hbehind⟩ := htimed deadline hsweep
    exact ⟨hpressed.onward honward, fun h => (hbehind h).onward honward hpressed.due⟩
  | _ => trivial

end

/-- A fold changes no verdict on an end that is below its floor. -/
theorem late_min {inc : Incarnation} {held floor : Instant}
    (hfloor : ∀ finalAt, inc.finalAt = some finalAt → finalAt < floor)
    (hfinal : inc.finalAt.isSome = true) : inc.late (min held floor) = inc.late held := by
  obtain ⟨finalAt, heq⟩ := Option.isSome_iff_exists.mp hfinal
  have hlt := hfloor finalAt heq
  simp only [Incarnation.late, heq, decide_eq_decide, min_le_iff]
  exact or_iff_left (Nat.not_le.mpr hlt)

theorem leftoverOutcome_congr {inc inc' : Incarnation} {raised : Bool} {deadline : Instant}
    (hstatus : inc'.status = inc.status) (hfinal : inc'.finalAt = inc.finalAt) :
    inc'.leftoverOutcome raised deadline = inc.leftoverOutcome raised deadline := by
  unfold Incarnation.leftoverOutcome Incarnation.late
  rw [hstatus, hfinal]

/-- A verdict stands through every step within its flight. -/
theorem Recorded.onward {outcome : Outcome} {place : Place} (honward : Onward stamping s s')
    (hshift : Shift s place s') (hflight : s'.flight = s.flight)
    (hfloor : ∀ walk floor, place = .walk walk (.foldStore floor) →
      (Stage.foldStore floor).Timed s walk.folded)
    (hrecorded : Recorded s outcome) : Recorded s' outcome := by
  intro hne
  obtain ⟨hterminal, held, heq, hverdict⟩ := hrecorded hne
  obtain ⟨hterminal', hstatus, hfinal⟩ :=
    (honward.later.ages outcome.seq).terminal (honward.sound outcome.seq) hterminal
  have hsame (deadline : Instant) : (s'.incarnations outcome.seq).leftoverOutcome false deadline =
      (s.incarnations outcome.seq).leftoverOutcome false deadline :=
    leftoverOutcome_congr hstatus hfinal
  refine ⟨hterminal', ?_⟩
  cases hshift with
  | kept hdeadline => exact ⟨held, hdeadline.trans heq, hverdict.trans (hsame held).symm⟩
  | last _ hnext => exact absurd (hnext.symm.trans hflight) (Nat.succ_ne_self _)
  | fold floor walk hstage hdeadline =>
    refine ⟨min held floor, by rw [hdeadline, Shared.currentSweepDeadline, heq], ?_⟩
    rw [hverdict, hsame]
    unfold Incarnation.leftoverOutcome
    by_cases hstopped : (s.incarnations outcome.seq).status = .stopped
    · obtain ⟨hsome, hkept⟩ := (honward.sound outcome.seq).stopped hstopped
      rw [late_min (fun finalAt => hfloor walk floor hstage outcome.seq finalAt hkept) hsome]
    · simp [hstopped]

end Onward

variable {s s' : Shared} {walk walk' : Walk} {stage' : Stage} {tasks : List Force}
  {folded deadline : Instant} {seq : Seq} {fired : Bool} {task : Force} {sweep : Option Instant}
  {k : Nat}

/-! ## What a walk's own step keeps -/

/-- A `Kill` that is accepted finds no end: what follows is behind the deadline. -/
theorem Behind.of_unsealed (hsound : (s.incarnations seq).Sound s.now) (hdue : HeldBy s s.now)
    (hunsealed : (s.incarnations seq).lane.sealed = false) : Behind s seq := by
  obtain ⟨held, heq, _⟩ := hdue
  refine ⟨held, heq, fun finalAt hkept hfinal => ?_⟩
  have hsealed := hsound.sealed (by simp [hfinal])
  simp [hunsealed, hkept] at hsealed

theorem Raiser.behind_step {raiser raiser' : Raiser}
    (hsound : (s.incarnations seq).Sound s.now) (hdue : HeldBy s s.now) (haimed : raiser.seq = seq)
    (hbefore : raiser.accepted = true → Behind s seq)
    (htaken : raiser.step s = some (s', raiser')) (haccepted : raiser'.accepted = true) :
    Behind s seq := by
  cases Raiser.takes htaken with
  | clock | declare | read | miss | arm => exact hbefore haccepted
  | raise _ hlane =>
    subst haimed
    exact .of_unsealed hsound hdue (Incarnation.unsealed_of_accepted hlane)
  | refuse _ hrefused =>
    simp [Raiser.accepted, Raiser.return_, Raiser.answered, hrefused] at haccepted

theorem HeldBy.current {own : Instant} (hheld : HeldBy s own) :
    ∃ held, s.sweepDeadline = some held ∧ s.currentSweepDeadline own = held := by
  obtain ⟨held, heq, hle⟩ := hheld
  exact ⟨held, heq, by simp [Shared.currentSweepDeadline, heq, hle]⟩

theorem Wait.timed_step {task task' : Wait} (htimed : task.Timed s)
    (htaken : task.step s fired = some task') : task'.Timed s := by
  obtain ⟨hheld, hstage⟩ := htimed
  unfold Wait.step at htaken
  cases hcase : task.stage with
  | held =>
    simp only [hcase] at htaken
    split at htaken <;> cases htaken
    obtain ⟨held, heq, hcurrent⟩ := hheld.current
    exact ⟨⟨held, heq, hcurrent.ge⟩, trivial⟩
  | status =>
    simp only [hcase] at htaken
    split at htaken <;> cases htaken
    refine ⟨hheld, ?_⟩
    dsimp only
    split
    · assumption
    · trivial
  | select =>
    simp only [hcase] at htaken
    split at htaken
    · split at htaken <;> cases htaken
      obtain ⟨held, heq, hle⟩ := hheld
      exact ⟨⟨held, heq, hle⟩, held, heq, hle.trans ‹_›⟩
    · cases htaken
      refine ⟨hheld, ?_⟩
      dsimp only
      split
      · rename_i hclosed
        change (s.incarnations task.target.seq).terminal = true
        simp [Incarnation.terminal, hclosed]
      · trivial
  | last =>
    simp only [hcase] at htaken
    rw [hcase] at hstage
    split at htaken <;> cases htaken
    refine ⟨hheld, ?_⟩
    change Settled s task.target.seq (s.incarnations task.target.seq).terminal
    unfold Settled
    split
    · assumption
    · exact hstage
  | ended | failed =>
    simp only [hcase] at htaken
    cases htaken

theorem Force.timed_step {task' : Force} (htimed : task.Timed s)
    (htaken : task.step s fired = some task') : task'.Timed s := by
  obtain ⟨hraised, hended, hrequested⟩ := htimed
  have hkeeps {stage : ForceStage} (hreport : ∀ report, stage = .ended report →
      report.outcome ≠ .unresponsive → Terminal s task.target.seq) :
      ({ task with stage := stage } : Force).Timed s := ⟨hraised, hreport, hrequested⟩
  unfold Force.step at htaken
  dsimp only at htaken
  split at htaken
  · split at htaken <;> cases htaken
    exact hkeeps nofun
  · split at htaken
    · rename_i hseen
      cases htaken
      exact hkeeps fun _ _ _ => (Bool.and_eq_true _ _ ▸ hseen).2
    · split at htaken <;> cases htaken
      exact hkeeps nofun
  · split at htaken <;> cases htaken
    exact hkeeps nofun
  · split at htaken <;> cases htaken
    exact hkeeps nofun
  · split at htaken
    · rename_i hseen
      cases htaken
      exact hkeeps fun _ _ _ => (Bool.and_eq_true _ _ ▸ hseen).2
    · split at htaken <;> cases htaken
      refine hkeeps fun report hreport hne => ?_
      cases hreport
      by_contra hopen
      have hterminal : ¬ (s.incarnations task.target.seq).terminal = true := hopen
      exact hne (by simp [hterminal, unresponsive])
  · cases htaken
  · cases htaken

/-- What a walk's own step leaves: what it knows at its next stage, and what it
has recorded. -/
structure Advanced (s : Shared) (walk walk' : Walk) (stage' : Stage) : Prop where
  flight : walk'.flight = walk.flight
  timed : stage'.Timed s walk'.folded
  records : ∀ outcome ∈ walk'.swept, outcome ∈ walk.swept ∨ Recorded s outcome

theorem Advanced.of_eq (hswept : walk'.swept = walk.swept) (hflight : walk'.flight = walk.flight)
    (htimed : stage'.Timed s walk'.folded) : Advanced s walk walk' stage' :=
  ⟨hflight, htimed, fun _ houtcome => .inl (hswept ▸ houtcome)⟩

theorem Stage.timed_nextRoot (roots : List Snapshot) : (Walk.nextRoot roots).Timed s folded := by
  cases roots <;> trivial

theorem Pressed.spawned {target : Target} {rest : List Target} {raised : Bool} {abort : Option Seq}
    (hpressed : Pressed s folded deadline (target :: rest) tasks)
    (hraised : raised = true → Behind s target.snapshot.seq) :
    Pressed s folded deadline rest
      (tasks ++ [⟨target.snapshot, Walk.requested raised, raised, abort, .timer⟩]) := by
  refine ⟨hpressed.deadline, hpressed.held, hpressed.due,
    fun other hother => hpressed.targets other (List.mem_cons_of_mem _ hother),
      fun task htask => ?_⟩
  rcases List.mem_append.mp htask with hold | hnew
  · exact hpressed.tasks task hold
  · obtain rfl := List.mem_singleton.mp hnew
    exact ⟨hraised, nofun, by cases raised <;> simp [Walk.requested]⟩

/-- The verdict on a leftover whose end was seen. -/
theorem recorded_leftover {target : Snapshot}
    (hheld : HeldBy s walk.folded) (hterminal : Terminal s target.seq) :
    Recorded s ⟨target.seq, target.id, (s.incarnations target.seq).leftoverReport false
      (s.currentSweepDeadline walk.folded), false⟩ := by
  obtain ⟨held, heq, hcurrent⟩ := hheld.current
  exact fun _ => ⟨hterminal, held, heq, by rw [hcurrent]; rfl⟩

/-- A `Kill` of the force changes no verdict: the end it brings is late. -/
theorem leftoverOutcome_raised {raised : Bool} {held : Instant}
    (hsound : (s.incarnations seq).Sound s.now) (heq : s.sweepDeadline = some held)
    (hbehind : raised = true → Behind s seq) :
    (s.incarnations seq).leftoverOutcome raised held =
      (s.incarnations seq).leftoverOutcome false held := by
  unfold Incarnation.leftoverOutcome
  by_cases hstopped : (s.incarnations seq).status = .stopped
  · cases raised with
    | false => rfl
    | true =>
      obtain ⟨hsome, hkept⟩ := hsound.stopped hstopped
      obtain ⟨finalAt, hfinal⟩ := Option.isSome_iff_exists.mp hsome
      obtain ⟨other, hother, hlate⟩ := hbehind rfl
      cases heq.symm.trans hother
      have hle := hlate finalAt hkept hfinal
      simp [hstopped, Incarnation.late, hfinal, hle]
  · simp [hstopped]

/-- A leftover the force reports as ended is judged as every other is. -/
theorem recorded_join (hsound : ∀ seq, (s.incarnations seq).Sound s.now)
    (hpressed : Pressed s folded deadline [] tasks) (hmem : task ∈ tasks) :
    Recorded s ⟨task.target.seq, task.target.id, task.joinReport s (some deadline), false⟩ := by
  obtain ⟨hraised, hended, hrequested⟩ := hpressed.tasks task hmem
  obtain ⟨held, heq, hcurrent⟩ := hpressed.held.current
  -- A target that is not terminal is reported as unresponsive.
  have hjoined (hterminal : Terminal s task.target.seq)
      (hreport : task.joinReport s (some deadline) =
      (s.incarnations task.target.seq).leftoverReport task.raised held) :
      Recorded s ⟨task.target.seq, task.target.id, task.joinReport s (some deadline), false⟩ := by
    refine fun _ => ⟨hterminal, held, heq, ?_⟩
    rw [hreport]
    exact leftoverOutcome_raised (hsound _) heq hraised
  rw [← hpressed.deadline] at hcurrent
  cases hreport : task.report? with
  | none =>
    by_cases hterminal : (s.incarnations task.target.seq).terminal = true
    · exact hjoined hterminal (by simp [Force.joinReport, hreport, hterminal, hcurrent])
    · refine fun hne => absurd ?_ hne
      simp [Force.joinReport, hreport, hterminal, unresponsive]
  | some report =>
    by_cases houtcome : report.outcome = .unresponsive
    · refine fun hne => absurd ?_ hne
      simp [Force.joinReport, hreport, houtcome]
    · refine hjoined (hended report ?_ houtcome)
        (by simp [Force.joinReport, hreport, houtcome, hcurrent])
      unfold Force.report? at hreport
      split at hreport <;> cases hreport
      assumption

theorem Pressed.set (hpressed : Pressed s folded deadline [] tasks) (htask : task.Timed s) :
    Pressed s folded deadline [] (tasks.set k task) := by
  refine ⟨hpressed.deadline, hpressed.held, hpressed.due, nofun, fun other hother => ?_⟩
  rcases List.mem_or_eq_of_mem_set hother with hold | rfl
  · exact hpressed.tasks other hold
  · exact htask

theorem Stage.timed_waits {tasks : List Wait} {task : Wait}
    {waited : List (Nat × Snapshot × Bool)} (htimed : (Stage.waits tasks waited).Timed s folded)
    (htask : task.Timed s) : (Stage.waits (tasks.set k task) waited).Timed s folded := by
  refine ⟨htimed.1, fun other hother => ?_, htimed.2.2⟩
  rcases List.mem_or_eq_of_mem_set hother with hold | rfl
  · exact htimed.2.1 other hold
  · exact htask

theorem Walked.advanced {stage : Stage} {input : WalkInput}
    (hsound : ∀ seq, (s.incarnations seq).Sound s.now) (haimed : stage.Aimed)
    (htimed : stage.Timed s walk.folded) (hentered : stage ≠ .enter)
    (hfold : input = .go → ∀ floor, stage ≠ .foldStore floor)
    (hkept : ∀ k, input = .taskFails k → ∀ tasks waited, stage ≠ .waits tasks waited)
    (hwalked : Walked walk s stage input s' walk' stage') : Advanced s walk walk' stage' := by
  cases hwalked with
  | enter => contradiction
  | foldStore => exact absurd rfl (hfold rfl _)
  | board | report | late => exact .of_eq rfl rfl (Stage.timed_nextRoot _)
  | launched | refuse =>
    exact .of_eq rfl rfl fun deadline hsweep => by first
      | exact htimed deadline hsweep
      | exact (htimed deadline hsweep).1
  | sight => exact .of_eq rfl rfl fun deadline hsweep => ⟨htimed deadline hsweep, nofun⟩
  | @spawn _ target | fetch =>
    refine .of_eq rfl rfl fun deadline hsweep => (htimed deadline hsweep).spawned fun hraised => ?_
    cases hraised.symm.trans ((htimed deadline hsweep).targets _ (List.mem_cons_self ..))
  | press htaken =>
    refine .of_eq rfl rfl fun deadline hsweep => ?_
    obtain ⟨hpressed, hbehind⟩ := htimed deadline hsweep
    exact ⟨hpressed, Raiser.behind_step (hsound _) hpressed.due haimed.1 hbehind htaken⟩
  | accept haccepted =>
    exact .of_eq rfl rfl fun deadline hsweep =>
      (htimed deadline hsweep).1.spawned fun _ => (htimed deadline hsweep).2 haccepted
  | force hfound htaken | forceAbort hfound htaken =>
    exact .of_eq rfl rfl fun deadline hsweep => (htimed deadline hsweep).set
      (Force.timed_step ((htimed deadline hsweep).tasks _ (List.mem_of_getElem? hfound)) htaken)
  | forceFails hfound =>
    refine .of_eq rfl rfl fun deadline hsweep => (htimed deadline hsweep).set ?_
    have hbefore := (htimed deadline hsweep).tasks _ (List.mem_of_getElem? hfound)
    exact ⟨hbefore.raised, nofun, hbefore.requested⟩
  | @join tasks k task sweep hfound =>
    have hrest : (Stage.join sweep (tasks.eraseIdx k)).Timed s walk.folded := fun deadline hsweep =>
      { htimed deadline hsweep with
        tasks := fun other hother =>
          (htimed deadline hsweep).tasks other (List.eraseIdx_subset hother) }
    cases sweep with
    | none => exact .of_eq rfl rfl hrest
    | some deadline =>
      refine ⟨rfl, hrest, fun outcome houtcome => ?_⟩
      rcases List.mem_append.mp houtcome with hold | hnew
      · exact .inl hold
      · rw [List.mem_singleton.mp hnew]
        exact .inr (recorded_join hsound (htimed deadline rfl) (List.mem_of_getElem? hfound))
  | foldRead =>
    refine .of_eq rfl rfl fun seq finalAt _ hfinal => lt_max_of_lt_right ?_
    exact Nat.lt_succ_of_le ((hsound seq).past finalAt hfinal)
  | list => exact .of_eq rfl rfl htimed
  | listed =>
    refine .of_eq rfl rfl ⟨htimed, fun task htask => ?_, (by rintro _ ⟨⟩)⟩
    obtain ⟨⟨target, index⟩, _, rfl⟩ := List.mem_map.mp htask
    exact ⟨htimed, trivial⟩
  | wait hfound htaken =>
    exact .of_eq rfl rfl (Stage.timed_waits htimed
      (Wait.timed_step (htimed.2.1 _ (List.mem_of_getElem? hfound)) htaken))
  | waitFails => exact absurd rfl (hkept _ rfl _ _)
  | waited hfound hends =>
    have hstage := (htimed.2.1 _ (List.mem_of_getElem? hfound)).2
    rcases hends with hended | hfailed
    · rw [hended] at hstage
      refine .of_eq rfl rfl ⟨htimed.1, fun other hother =>
        htimed.2.1 other (List.eraseIdx_subset hother), fun joined hjoined => ?_⟩
      rcases List.mem_append.mp hjoined with hold | hnew
      · exact htimed.2.2 joined hold
      · rw [List.mem_singleton.mp hnew]
        exact hstage
    · rw [hfailed] at hstage
      exact absurd hstage id
  | sort =>
    refine .of_eq rfl rfl ⟨htimed.1, fun joined hjoined => ?_, (by simp), (by rintro _ ⟨⟩)⟩
    obtain ⟨found, hfound, rfl⟩ := List.mem_map.mp hjoined
    exact htimed.2.2 found ((List.perm_insertionSort _ _).mem_iff.mp hfound)
  | ended =>
    obtain ⟨hheld, hwaited, hrest⟩ := htimed
    refine ⟨rfl, ⟨hheld, fun joined hjoined => hwaited joined (List.mem_cons_of_mem _ hjoined),
      hrest⟩, fun outcome houtcome => ?_⟩
    rcases List.mem_append.mp houtcome with hold | hnew
    · exact .inl hold
    · exact .inr (List.mem_singleton.mp hnew ▸
        recorded_leftover hheld (hwaited _ (List.mem_cons_self ..)))
  | straggler =>
    obtain ⟨hheld, hwaited, _, hunraised⟩ := htimed
    refine .of_eq rfl rfl ⟨hheld, fun joined hjoined =>
      hwaited joined (List.mem_cons_of_mem _ hjoined), fun _ => hwaited _ (List.mem_cons_self ..),
      fun other hother => ?_⟩
    rcases List.mem_append.mp hother with hold | hnew
    · exact hunraised other hold
    · rw [List.mem_singleton.mp hnew]
  | forceOn hsome =>
    obtain ⟨hheld, _, hdue, hunraised⟩ := htimed
    refine .of_eq rfl rfl ?_
    rintro _ ⟨⟩
    exact ⟨rfl, hheld, hdue hsome, hunraised, (by rintro _ ⟨⟩)⟩
  | cutLadder =>
    refine .of_eq rfl rfl ?_
    rintro _ ⟨⟩
  | _ => exact .of_eq rfl rfl trivial

end TokioActors.System
