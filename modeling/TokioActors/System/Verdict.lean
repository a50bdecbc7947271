/-
# Overlapping shutdowns agree

Shutdowns overlap when they belong to one flight: from the first entry with none
in flight to the last end. In a run where no wait task fails and no reason is
written in the gap of a fold, every verdict of a flight stands as the deadline is
lowered, so two shutdowns of one flight that report the same ended leftover
report the same outcome. The gap is real: a run through it is exhibited.
-/

import TokioActors.System.Deadline

namespace TokioActors.System

open Machine.Pool

/-- The steps meet the condition: no wait task fails, and no reason is written in
the gap of a fold. -/
def Timely (state : State) (label : Nat × Input) : Prop :=
  waitsKept state label = true ∧ outsideGaps state label = true

instance (state : State) (label : Nat × Input) : Decidable (Timely state label) :=
  inferInstanceAs (Decidable (_ ∧ _))

structure Walk.Timed (s : Shared) (walk : Walk) (stage : Stage) : Prop where
  fresh : stage = .enter → walk.swept = []
  flight_le : stage ≠ .enter → walk.flight ≤ s.flight
  flying : stage.inFlight = true → walk.flight = s.flight
  counted : stage ≠ .enter → walk.flight = s.flight → 0 < s.inFlight
  known : stage.inFlight = true → stage.Timed s walk.folded
  records : stage ≠ .enter → walk.flight = s.flight → ∀ outcome ∈ walk.swept, Recorded s outcome

variable {input : Input}

/-- While a shutdown is in flight, every step is onward until the last one leaves. -/
theorem onward_next {state : State} {i : Nat} {place place' : Place} {s' : Shared}
    {entering : List Place} (hgated : Gated state)
    (hsound : ∀ seq, (state.shared.incarnations seq).Sound state.shared.now)
    (hplace : state.parties[i]? = some place)
    (htaken : next state.shared place input = some (s', place', entering))
    (hcount : 0 < state.shared.inFlight) (hflight : s'.flight = state.shared.flight) :
    Onward (∃ reason, input = .writeReason reason) state.shared s' := by
  have hmem : place ∈ state.parties := List.mem_of_getElem? hplace
  have hphase : state.shared.phase ≠ .active := fun hactive =>
    hcount.ne' (hgated.gate.active hactive).1
  have hdraw : ∀ spec, place ≠ .spawn spec .drawSeq := by
    rintro spec rfl
    cases hgated.admitted_zero hphase _ hmem
  obtain ⟨hlater, hstamps⟩ := later_next hdraw htaken
  refine ⟨hlater, fun held hheld => ?_, hstamps, hsound⟩
  cases (next_passage (hgated.fresh place hmem) htaken).1.shift with
  | kept hdeadline => exact ⟨held, hdeadline.trans hheld, le_rfl⟩
  | last _ hnext => exact absurd (hnext.symm.trans hflight) (Nat.succ_ne_self _)
  | fold floor walk _ hdeadline =>
    refine ⟨min held floor, ?_, min_le_left _ _⟩
    rw [hdeadline, Shared.currentSweepDeadline, hheld]

/-- The gap of every fold is kept free. -/
theorem Timely.gap {state : State} {i : Nat} (htimely : Timely state (i, input))
    (hwrites : ∃ reason, input = .writeReason reason) {walk : Walk} {floor : Instant}
    (hmem : .walk walk (.foldStore floor) ∈ state.parties) : state.shared.now < floor := by
  obtain ⟨reason, rfl⟩ := hwrites
  have hall := List.all_eq_true.mp htimely.2 _ hmem
  simpa [Place.floor] using hall

section Step

variable {state : State} {i : Nat} {input : Input} {place place' : Place} {s' : Shared}
  {entering : List Place}
variable {walk : Walk} {stage : Stage} {winput : WalkInput}

theorem Shift.flight {s : Shared} (hshift : Shift s place s') :
    s.flight ≤ s'.flight ∧ (s'.inFlight ≠ 0 → s'.flight = s.flight) ∧
      (s'.flight = s.flight → 0 < s.inFlight → s'.inFlight ≠ 0) := by
  cases hshift with
  | kept _ hflight hstays => exact ⟨hflight.ge, fun _ => hflight, fun _ => hstays⟩
  | fold _ _ _ _ hflight hstays => exact ⟨hflight.ge, fun _ => hflight, fun _ => hstays⟩
  | last hempty hflight =>
    exact ⟨hflight ▸ Nat.le_succ _, fun h => absurd hempty h,
      fun h => absurd (hflight.symm.trans h) (Nat.succ_ne_self _)⟩

theorem Gated.counted (hgated : Gated state) (hmem : .walk walk stage ∈ state.parties)
    (hflying : stage.inFlight = true) : state.shared.inFlight ≠ 0 :=
  hgated.flying_iff.mp ⟨walk, stage, hmem, hflying⟩

theorem Walk.Timed.frame (hgated : Gated state)
    (hgated' : Gated ⟨s', state.parties.set i place' ++ entering⟩)
    (hsound : ∀ seq, (state.shared.incarnations seq).Sound state.shared.now)
    (htimely : Timely state (i, input)) (hplace : state.parties[i]? = some place)
    (htaken : next state.shared place input = some (s', place', entering))
    (hfloors : ∀ walk floor, place = .walk walk (.foldStore floor) →
      (Stage.foldStore floor).Timed state.shared walk.folded)
    (hmem : .walk walk stage ∈ state.parties)
    (hmem' : stage.inFlight = true → .walk walk stage ∈ state.parties.set i place' ++ entering)
    (htimed : walk.Timed state.shared stage) : walk.Timed s' stage := by
  have hmemPlace : place ∈ state.parties := List.mem_of_getElem? hplace
  have hshift := (next_passage (hgated.fresh place hmemPlace) htaken).1.shift
  obtain ⟨hle, hsame, hstays⟩ := hshift.flight
  -- A walk of the present flight was of it before the step.
  have hbefore (hentered : stage ≠ .enter) (hown : walk.flight = s'.flight) :
      s'.flight = state.shared.flight :=
    le_antisymm (hown ▸ htimed.flight_le hentered) hle
  have honward (hentered : stage ≠ .enter) (hown : walk.flight = s'.flight) :=
    onward_next hgated hsound hplace htaken
      (htimed.counted hentered (hown.trans (hbefore hentered hown))) (hbefore hentered hown)
  have hflies (hflying : stage.inFlight = true) : stage ≠ .enter ∧ walk.flight = s'.flight := by
    have hentered : stage ≠ .enter := by
      rintro rfl
      cases hflying
    refine ⟨hentered, ?_⟩
    rw [htimed.flying hflying, hsame (hgated'.counted (hmem' hflying) hflying)]
  refine ⟨htimed.fresh, fun h => (htimed.flight_le h).trans hle, fun h => (hflies h).2,
    fun hentered hown => ?_, fun hflying => ?_, fun hentered hown outcome houtcome => ?_⟩
  · have hcount := htimed.counted hentered (hown.trans (hbefore hentered hown))
    exact lt_of_le_of_ne hgated'.gate.inFlight_nonneg (hstays (hbefore hentered hown) hcount).symm
  · obtain ⟨hentered, hown⟩ := hflies hflying
    refine (htimed.known hflying).onward (honward hentered hown) fun hwrites floor hstage => ?_
    exact htimely.gap hwrites (hstage ▸ hmem)
  · exact (htimed.records hentered (hown.trans (hbefore hentered hown)) outcome houtcome).onward
      (honward hentered hown) hshift (hbefore hentered hown) hfloors

theorem Timely.waits
    (htimely : Timely state (i, .walk winput))
    (hplace : state.parties[i]? = some (.walk walk stage))
    (k : Nat) (hfails : winput = .taskFails k) (tasks : List Wait)
    (waited : List (Nat × Snapshot × Bool)) : stage ≠ .waits tasks waited := by
  rintro rfl
  subst hfails
  have hkept := htimely.1
  simp [waitsKept, hplace, Place.waiting] at hkept

/-- After a walk's own step, its verdicts stand as they did before it. -/
theorem Walk.Timed.recorded {walk' : Walk} {stage' : Stage}
    (hsound : ∀ seq, (state.shared.incarnations seq).Sound state.shared.now)
    (haimed : stage.Aimed) (htimely : Timely state (i, .walk winput))
    (hplace : state.parties[i]? = some (.walk walk stage))
    (htaken : walk.step state.shared stage winput = some (s', walk', stage'))
    (htimed : walk.Timed state.shared stage) {outcome : Outcome}
    (houtcome : outcome ∈ walk'.swept) :
    walk'.flight = state.shared.flight ∧ Recorded state.shared outcome := by
  by_cases hentered : stage = .enter
  · subst hentered
    cases Walk.walked htaken with
    | enter => simp [htimed.fresh rfl] at houtcome
    | cut _ hflying => cases hflying
  · have hflying := (Walk.walked htaken).inFlight hentered
    have hflight := htimed.flying hflying
    have hrecords := htimed.records hentered hflight
    by_cases hfold : winput = .go ∧ ∃ floor, stage = .foldStore floor
    · obtain ⟨rfl, floor, rfl⟩ := hfold
      cases htaken
      exact ⟨hflight, hrecords outcome houtcome⟩
    · have hadvanced := (Walk.walked htaken).advanced hsound haimed (htimed.known hflying) hentered
        (fun hgo floor h => hfold ⟨hgo, floor, h⟩) (htimely.waits hplace)
      exact ⟨hadvanced.flight.trans hflight,
        (hadvanced.records outcome houtcome).elim (hrecords outcome) id⟩

/-- A walk's own step keeps what it knows. -/
theorem Walk.Timed.step {walk' : Walk} {stage' : Stage} (hgated : Gated state)
    (hgated' : Gated ⟨s', state.parties.set i (.walk walk' stage')⟩)
    (hsound : ∀ seq, (state.shared.incarnations seq).Sound state.shared.now)
    (haimed : stage.Aimed) (htimely : Timely state (i, .walk winput))
    (hplace : state.parties[i]? = some (.walk walk stage))
    (htaken : walk.step state.shared stage winput = some (s', walk', stage'))
    (htimed : walk.Timed state.shared stage) : walk'.Timed s' stage' := by
  have hmem : .walk walk stage ∈ state.parties := List.mem_of_getElem? hplace
  have hnext : next state.shared (.walk walk stage) (.walk winput) =
      some (s', .walk walk' stage', []) := by simp [next, htaken]
  have hshift := (next_passage (hgated.fresh _ hmem) hnext).1.shift
  obtain ⟨hle, hsame, hstays⟩ := hshift.flight
  have hentered' : stage' ≠ .enter := fun h =>
    ne_enter_of_next (hgated.fresh _ hmem) hnext walk' (h ▸ rfl)
  have hflies' (hflying : stage'.inFlight = true) : s'.flight = state.shared.flight := by
    have hmem' : .walk walk' stage' ∈ state.parties.set i (.walk walk' stage') :=
      List.mem_set (List.getElem?_eq_some_iff.mp hplace).1 _
    exact hsame (hgated'.counted hmem' hflying)
  by_cases hentered : stage = .enter
  · subst hentered
    cases Walk.walked htaken with
    | cut _ hflying => cases hflying
    | enter =>
      refine ⟨(by rintro ⟨⟩), fun _ => le_rfl, fun _ => rfl, fun _ _ => ?_, fun _ => trivial,
        fun _ _ outcome houtcome => ?_⟩
      · exact Int.lt_add_one_of_le hgated.gate.inFlight_nonneg
      · rw [htimed.fresh rfl] at houtcome
        cases houtcome
  · have hflying := (Walk.walked htaken).inFlight hentered
    have hflight := htimed.flying hflying
    have hcount := htimed.counted hentered hflight
    have honward (hflight' : s'.flight = state.shared.flight) :=
      onward_next hgated hsound hplace hnext hcount hflight'
    have hrecords (hflight' : s'.flight = state.shared.flight) (outcome : Outcome)
        (hrecorded : Recorded state.shared outcome) : Recorded s' outcome := by
      refine hrecorded.onward (honward hflight') hshift hflight' fun other floor heq => ?_
      cases heq
      exact htimed.known hflying
    by_cases hfold : winput = .go ∧ ∃ floor, stage = .foldStore floor
    · -- The store of the folded deadline: it is the one the system now holds.
      obtain ⟨rfl, floor, rfl⟩ := hfold
      cases htaken
      refine ⟨(by rintro ⟨⟩), fun _ => hflight.le, fun _ => hflight, fun _ _ => hcount,
        fun _ => ⟨_, rfl, le_rfl⟩, fun _ _ outcome houtcome => ?_⟩
      exact hrecords rfl outcome (htimed.records hentered hflight outcome houtcome)
    · have hadvanced := (Walk.walked htaken).advanced hsound haimed (htimed.known hflying) hentered
        (fun hgo floor h => hfold ⟨hgo, floor, h⟩) (htimely.waits hplace)
      have hown := hadvanced.flight.trans hflight
      refine ⟨fun h => absurd h hentered', fun _ => hown ▸ hle,
        fun h => hown.trans (hflies' h).symm,
        fun _ h => ?_, fun h => ?_, fun _ h outcome houtcome => ?_⟩
      · exact lt_of_le_of_ne hgated'.gate.inFlight_nonneg
          (hstays (h.symm.trans hown) hcount).symm
      · refine hadvanced.timed.onward (honward (hflies' h)) ?_
        rintro ⟨reason, hreason⟩
        cases hreason
      · exact hrecords (h.symm.trans hown) outcome
          (htimed.recorded hsound haimed htimely hplace htaken houtcome).2

end Step

variable {state : State} {walk : Walk} {systemName : String}

/-! ## Runs -/

theorem Reaches.timed {shards : ℕ+} {hash : ActorId → Nat}
    (hreach : Reaches Timely systemName shards hash state) {stage : Stage}
    (hmem : .walk walk stage ∈ state.parties) : walk.Timed state.shared stage := by
  refine @each_reached _ _ _ next Timely _ state
    (fun s place => ∀ walk stage, place = .walk walk stage → walk.Timed s stage) ?_ ?_ hreach _ hmem
    walk stage rfl
  · rintro place hplace walk stage rfl
    simp [init] at hplace
  · intro state i input place place' s' entering hbefore htimed htimely hplace htaken
    have hafter : Reaches Timely systemName shards hash
        ⟨s', state.parties.set i place' ++ entering⟩ := by
      refine .tail hbefore htimely ?_
      simp [Machine.Pool.step, hplace, htaken]
    have hgated := Reaches.gated hbefore
    have hsound := Reaches.sound hbefore
    have hmem : place ∈ state.parties := List.mem_of_getElem? hplace
    refine ⟨?_, ?_, ?_⟩
    · rintro j other hij hj walk stage rfl
      refine (htimed _ (List.mem_of_getElem? hj) walk stage rfl).frame hgated hafter.gated hsound
        htimely hplace htaken ?_ (List.mem_of_getElem? hj) ?_
      · rintro own floor rfl
        exact (htimed _ hmem own _ rfl).known rfl
      · intro _
        refine List.mem_append_left _ (List.mem_iff_getElem?.mpr ⟨j, ?_⟩)
        rw [List.getElem?_set_ne (Ne.symm hij)]
        exact hj
    · rintro walk' stage' rfl
      obtain ⟨walk, stage, winput, rfl, rfl, rfl, hstep⟩ := walk_of_next htaken
      have hcut : stage ≠ .cutShort := by
        rintro rfl
        cases winput <;> cases hstep
      have hgated' := hafter.gated
      rw [List.append_nil] at hgated'
      exact (htimed _ hmem walk stage rfl).step hgated hgated' hsound
        (Reaches.audited hbefore hmem hcut).aimed htimely hplace hstep
    · rintro other hother walk stage rfl
      obtain ⟨rfl, perActorTimeout, deadline, rfl⟩ := walk_of_entering htaken hother
      exact ⟨fun _ => rfl, fun h => absurd rfl h, (by rintro ⟨⟩), fun h => absurd rfl h,
        (by rintro ⟨⟩),
        fun h => absurd rfl h⟩

/-- Two shutdowns agree on the leftovers both report as ended. -/
def Agree (walk walk' : Walk) : Prop :=
  ∀ outcome ∈ walk.swept, ∀ outcome' ∈ walk'.swept, outcome.seq = outcome'.seq →
    outcome.report.outcome ≠ .unresponsive → outcome'.report.outcome ≠ .unresponsive →
      outcome.report.outcome = outcome'.report.outcome

/-- Two verdicts of the present flight agree: both are the one of the deadline held now. -/
theorem Recorded.agree {s : Shared} {outcome outcome' : Outcome} (hrecorded : Recorded s outcome)
    (hrecorded' : Recorded s outcome') (hseq : outcome.seq = outcome'.seq)
    (hne : outcome.report.outcome ≠ .unresponsive)
    (hne' : outcome'.report.outcome ≠ .unresponsive) :
    outcome.report.outcome = outcome'.report.outcome := by
  obtain ⟨_, held, heq, hverdict⟩ := hrecorded hne
  obtain ⟨_, held', heq', hverdict'⟩ := hrecorded' hne'
  cases heq.symm.trans heq'
  rw [hverdict, hverdict', hseq]

/-- A walk after a step is one from before it, or its verdicts are of the flight
before it. -/
theorem recorded_of_step {shards : ℕ+} {hash : ActorId → Nat}
    (hreach : Reaches Timely systemName shards hash state) {i : Nat} {place place' : Place}
    {s' : Shared} {entering : List Place} (htimely : Timely state (i, input))
    (hplace : state.parties[i]? = some place)
    (htaken : next state.shared place input = some (s', place', entering)) {stage : Stage}
    (hmem : .walk walk stage ∈ state.parties.set i place' ++ entering) {outcome : Outcome}
    (houtcome : outcome ∈ walk.swept) :
    .walk walk stage ∈ state.parties ∨
      walk.flight = state.shared.flight ∧ Recorded state.shared outcome := by
  rcases List.mem_append.mp hmem with hset | hentering
  · rcases List.mem_or_eq_of_mem_set hset with hold | rfl
    · exact .inl hold
    · obtain ⟨before, stageBefore, winput, rfl, rfl, _, hstep⟩ := walk_of_next htaken
      have hmemBefore := List.mem_of_getElem? hplace
      have hcut : stageBefore ≠ .cutShort := by
        rintro rfl
        cases winput <;> cases hstep
      exact .inr ((hreach.timed hmemBefore).recorded hreach.sound
        (hreach.audited hmemBefore hcut).aimed htimely hplace hstep houtcome)
  · obtain ⟨rfl, perActorTimeout, deadline, rfl⟩ := walk_of_entering htaken hentering
    cases houtcome

/-- In every run where no wait task fails and no reason is written in the gap of a
fold, overlapping shutdowns agree in every state reached. -/
theorem sweeps_agree {systemName : String} {shards : ℕ+} {hash : ActorId → Nat} {state : State}
    (hreach : Reaches Timely systemName shards hash state) {walk walk' : Walk}
    {stage stage' : Stage}
    (hmem : .walk walk stage ∈ state.parties) (hmem' : .walk walk' stage' ∈ state.parties)
    (hflight : walk.flight = walk'.flight) : Agree walk walk' := by
  refine @invariant_reached _ _ _ next Timely _ state (fun state => ∀ walk stage walk' stage',
    .walk walk stage ∈ state.parties → .walk walk' stage' ∈ state.parties →
    walk.flight = walk'.flight → Agree walk walk') ?_ ?_ hreach walk stage walk' stage' hmem hmem'
    hflight
  · rintro walk stage _ _ hmem
    simp [init] at hmem
  · intro state i input place place' s' entering hbefore hagree htimely hplace htaken walk stage
      walk' stage' hmem hmem' hflight outcome houtcome outcome' houtcome' hseq hne hne'
    -- A verdict of a walk of the present flight stands in the state before the step.
    have hrecords {walk : Walk} {stage : Stage} {outcome : Outcome}
        (hold : .walk walk stage ∈ state.parties) (houtcome : outcome ∈ walk.swept)
        (hown : walk.flight = state.shared.flight) : Recorded state.shared outcome := by
      have htimed := Reaches.timed hbefore hold
      refine htimed.records (fun henter => ?_) hown outcome houtcome
      rw [htimed.fresh henter] at houtcome
      cases houtcome
    rcases recorded_of_step hbefore htimely hplace htaken hmem houtcome with
      hold | ⟨hown, hrecorded⟩
    · rcases recorded_of_step hbefore htimely hplace htaken hmem' houtcome' with
        hold' | ⟨hown', hrecorded'⟩
      · exact hagree _ _ _ _ hold hold' hflight outcome houtcome outcome' houtcome' hseq hne hne'
      · exact (hrecords hold houtcome (hflight.trans hown')).agree hrecorded' hseq hne hne'
    · rcases recorded_of_step hbefore htimely hplace htaken hmem' houtcome' with
        hold' | ⟨_, hrecorded'⟩
      · exact hrecorded.agree (hrecords hold' houtcome' (hflight.symm.trans hown)) hseq hne hne'
      · exact hrecorded.agree hrecorded' hseq hne hne'

/-! ## The gap -/

/-- A child is left over at the sweeps of two shutdowns that wait for it until
100; a third, whose deadline was 5, reads the clock at 10 for its floor. -/
def threeSweeps : List (Nat × Input) := List.flatten
  [[(0, .spawn ⟨3, none, false, 5⟩), (1, .go), (1, .go), (1, .go)],
    [(0, .shutdown 100 10), (0, .shutdown 100 10), (0, .shutdown 5 10)],
    List.replicate 9 (3, .walk .go), List.replicate 9 (4, .walk .go),
      List.replicate 5 (5, .walk .go),
    [(0, .tick 10), (5, .walk .go), (0, .tick 2)]]

def storeFold : List (Nat × Input) := [(5, .walk .go)]

def childEnds : List (Nat × Input) :=
  [(2, .unregisterId), (2, .sealLane), (2, .writeReason .parentRequest), (2, .publishStopped)]

/-- A waiting shutdown sees the end, reports it and completes. -/
def reportEnd (i : Nat) : List (Nat × Input) :=
  [(i, .walk (.task 0)), (i, .walk (.task 0)), (i, .walk (.join 0)), (i, .walk .go), (i, .walk .go),
    (i, .walk .go), (i, .walk .go)]

/-- The end falls into the gap of the fold, and the first shutdown reports it
before the store. -/
def gapRun : List (Nat × Input) :=
  List.flatten [threeSweeps, childEnds, reportEnd 3, storeFold, reportEnd 4]

def timelyRun : List (Nat × Input) :=
  List.flatten [threeSweeps, storeFold, childEnds, reportEnd 3, reportEnd 4]

def Walk.verdicts (walk : Walk) : List (Seq × StopOutcome) :=
  walk.swept.map fun outcome => (outcome.seq, outcome.report.outcome)

theorem not_agree_of_verdicts {walk walk' : Walk} {seq : Seq}
    (hverdicts : (seq, .graceful) ∈ walk.verdicts) (hverdicts' : (seq, .killed) ∈ walk'.verdicts) :
    ¬ Agree walk walk' := by
  intro hagree
  obtain ⟨outcome, hmem, heq⟩ := List.mem_map.mp hverdicts
  obtain ⟨outcome', hmem', heq'⟩ := List.mem_map.mp hverdicts'
  obtain ⟨rfl, houtcome⟩ := Prod.mk.inj heq
  obtain ⟨hseq, houtcome'⟩ := Prod.mk.inj heq'
  have hsame := hagree outcome hmem outcome' hmem' hseq.symm (by simp [houtcome])
    (by simp [houtcome'])
  rw [houtcome, houtcome'] at hsame
  cases hsame

/-- The two shutdowns of a run that completed and reported. -/
def bothFinished (state : State) : Option (Walk × Walk) :=
  (finishedWalk state 3).bind fun walk => (finishedWalk state 4).map fun walk' => (walk, walk')

theorem mem_of_bothFinished {walk' : Walk} (hboth : bothFinished state = some (walk, walk')) :
    .walk walk .finished ∈ state.parties ∧ .walk walk' .finished ∈ state.parties := by
  obtain ⟨first, hfirst, hrest⟩ := Option.bind_eq_some_iff.mp hboth
  obtain ⟨second, hsecond, heq⟩ := Option.map_eq_some_iff.mp hrest
  cases heq
  exact ⟨List.mem_of_getElem? (getElem?_of_finishedWalk hfirst),
    List.mem_of_getElem? (getElem?_of_finishedWalk hsecond)⟩

theorem gapRun_finishes : ((Machine.runWhere (Machine.Pool.step next)
    (fun state label => waitsKept state label = true) (init "system" 1 fun _ => 0) gapRun).bind
      bothFinished).isSome = true := by decide +kernel

theorem timelyRun_finishes : ((Machine.runWhere (Machine.Pool.step next) Timely
    (init "system" 1 fun _ => 0) timelyRun).bind bothFinished).isSome = true := by decide +kernel

/-- Two overlapping shutdowns, none of whose wait tasks fails, report one ended
leftover as graceful and as killed. -/
theorem sweeps_disagree : ∃ (state : State) (walk walk' : Walk),
    Reaches (fun state label => waitsKept state label = true) "system" 1 (fun _ => 0) state ∧
      .walk walk .finished ∈ state.parties ∧ .walk walk' .finished ∈ state.parties ∧
      walk.flight = walk'.flight ∧ ¬ Agree walk walk' := by
  obtain ⟨state, hrun, hboth⟩ := Option.bind_eq_some_iff.mp (Option.some_get gapRun_finishes).symm
  obtain ⟨hmem, hmem'⟩ := mem_of_bothFinished hboth
  have hreach := Machine.reaches_of_runWhere hrun
  refine ⟨state, _, _, hreach, hmem, hmem', by decide +kernel, ?_⟩
  exact @not_agree_of_verdicts _ _ 0 (by decide +kernel) (by decide +kernel)

theorem sweeps_agree_timelyRun : ∃ walk walk' : Walk, Agree walk walk' ∧
    (0, .killed) ∈ walk.verdicts ∧ (0, .killed) ∈ walk'.verdicts := by
  obtain ⟨state, hrun, hboth⟩ :=
    Option.bind_eq_some_iff.mp (Option.some_get timelyRun_finishes).symm
  obtain ⟨hmem, hmem'⟩ := mem_of_bothFinished hboth
  have hreach := Machine.reaches_of_runWhere hrun
  exact ⟨_, _, sweeps_agree hreach hmem hmem' (by decide +kernel), by decide +kernel,
    by decide +kernel⟩

end TokioActors.System
