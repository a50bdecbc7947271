/-
# The phase invariant

The parties of a system are counted against its gate: the registrations under
way are the admitted spawns, the shutdowns in flight are the walks past their
entry that have not ended. A shutdown belongs to the era, between two
reactivations, in which it entered, and its first snapshot covers the registry
of that era from the moment it was taken.
-/

import TokioActors.System.Gate

namespace TokioActors.System

open Machine.Pool

/-- What a shutdown past its entry keeps. -/
structure Tour.Sound (s : Shared) (tour : Tour) : Prop where
  era_le : tour.era ≤ s.era
  flying : tour.flying = true → tour.era = s.era
  active : s.phase = .active → tour.era < s.era
  completed : tour.completed = true → tour.era = s.era → s.completedSinceActive = true
  /-- The first snapshot holds every root that is registered. -/
  cover : tour.era = s.era → ∀ roots, tour.first = some roots → ∀ id seq, s.Holds id seq →
    (s.incarnations seq).isRoot = true → ∃ root ∈ roots, root.id = id ∧ root.seq = seq
  /-- A snapshot being taken holds those of the shards it has read. -/
  taking : ∀ shard found, tour.taking = some (shard, found) → tour.flying = true ∧
    ∀ id seq, s.Holds id seq → (s.incarnations seq).isRoot = true → s.shard id < shard →
      ∃ root ∈ found, root.id = id ∧ root.seq = seq

structure Gate.Sound (gate : Gate) : Prop where
  registering_nonneg : 0 ≤ gate.registering
  inFlight_nonneg : 0 ≤ gate.inFlight
  closed : gate.phase ≠ .active → gate.registering = 0
  active : gate.phase = .active →
    gate.inFlight = 0 ∧ gate.completedSinceActive = false ∧ gate.sweepDeadline = none
  defunct : gate.phase = .defunct →
    gate.inFlight = 0 ∧ gate.completedSinceActive = true ∧ gate.sweepDeadline = none
  shuttingDown : gate.phase = .shuttingDown → gate.inFlight = 0 →
    gate.completedSinceActive = false

/-- The parties and the gate agree. -/
structure Gated (state : State) : Prop where
  gate : state.shared.gate.Sound
  registering : state.shared.registering = weigh Place.admitted state.parties
  inFlight : state.shared.inFlight = weigh Place.flying state.parties
  fresh : ∀ place ∈ state.parties, ∀ walk, place = .walk walk .enter → walk.first = none
  tours : ∀ place ∈ state.parties, ∀ tour, place.tour = some tour → tour.Sound state.shared
  completed : state.shared.completedSinceActive = true → ∃ place ∈ state.parties, ∃ tour,
    place.tour = some tour ∧ tour.completed = true ∧ tour.era = state.shared.era

/-! ## The gate's counts -/

theorem Place.admitted_nonneg (place : Place) : 0 ≤ place.admitted := by
  unfold Place.admitted
  split <;> simp

theorem Place.flying_nonneg (place : Place) : 0 ≤ place.flying := by
  unfold Place.flying
  split <;> simp

variable {place : Place} {tour : Tour}

theorem Place.flying_of_tour (htour : place.tour = some tour) :
    place.flying = if tour.flying then 1 else 0 := by
  simp [Place.flying, htour]

theorem Place.flying_of_none (htour : place.tour = none) : place.flying = 0 := by
  simp [Place.flying, htour]

variable {s' : Shared} {place' : Place}

theorem Passage.counts {s : Shared} (hpassage : Passage s place s' place') :
    s'.registering + place.admitted = s.registering + place'.admitted ∧
      s'.inFlight + place.flying = s.inFlight + place'.flying := by
  cases hpassage with
  | calm hcalm hadmitted htour =>
    have hgate := hcalm.gate
    simp only [Shared.gate, Gate.mk.injEq] at hgate
    simp only [Place.flying, hadmitted, htour, hgate, and_self]
  | enrol _ hgate _ hadmitted htour | enter _ hgate _ hadmitted htour
  | draw hgate hadmitted htour | land hgate hadmitted htour =>
    simp only [Shared.gate, Gate.mk.injEq] at hgate
    simp [Place.flying, hadmitted, htour, hgate]
  | visit _ hadmitted hbefore hafter | take _ _ _ hadmitted hbefore hafter =>
    simp [Place.flying, hadmitted, hbefore, hafter]
  | fold hstage hgate hquiet hadmitted hflying hsame =>
    simp only [Shared.gate, Gate.mk.injEq] at hgate
    simp [Place.flying, hadmitted, hsame, hgate]
  | leave tour hempty hadmitted hbefore hafter =>
    simp [Place.flying, hadmitted, hbefore, hafter, Shared.leave]
  | reactivate hempty hadmitted htour =>
    unfold Shared.reactivate
    split <;> simp [Place.flying, hadmitted, htour]

/-- Eras only grow, and the shards never change. -/
theorem Passage.era_le {s : Shared} (hpassage : Passage s place s' place') :
    s.era ≤ s'.era ∧ s'.shards = s.shards ∧ s'.hash = s.hash := by
  have hgate {gate : Gate} (hsame : s'.gate = gate) (hera : gate.era = s.era)
      (hshards : gate.shards = s.shards) (hhash : gate.hash = s.hash) :
      s.era ≤ s'.era ∧ s'.shards = s.shards ∧ s'.hash = s.hash :=
    ⟨((congrArg Gate.era hsame).trans hera).ge, (congrArg Gate.shards hsame).trans hshards,
      (congrArg Gate.hash hsame).trans hhash⟩
  cases hpassage with
  | calm hcalm => exact hgate hcalm.gate rfl rfl rfl
  | enrol _ hsame | enter _ hsame | draw hsame | land hsame | fold _ hsame =>
    exact hgate hsame rfl rfl rfl
  | visit | take | leave => exact ⟨le_rfl, rfl, rfl⟩
  | reactivate =>
    unfold Shared.reactivate
    split
    · exact ⟨le_rfl, rfl, rfl⟩
    · exact ⟨Nat.le_succ _, rfl, rfl⟩

section Step

variable {s s' : Shared} {place place' : Place}

theorem Passage.gateSound (hpassage : Passage s place s' place') (hsound : s.gate.Sound)
    (hadmits : place.admitted ≤ s.registering) (hflies : place.flying ≤ s.inFlight) :
    s'.gate.Sound := by
  obtain ⟨hregistering, hinFlight, hclosed, hactive, hdefunct, hshutting⟩ := hsound
  simp only [Shared.gate] at hregistering hinFlight hclosed hactive hdefunct hshutting
  cases hpassage with
  | calm hcalm =>
    rw [hcalm.gate]
    exact ⟨hregistering, hinFlight, hclosed, hactive, hdefunct, hshutting⟩
  | enrol hopen hgate =>
    rw [hgate]
    exact ⟨by simp only; omega, hinFlight, fun hne => absurd hopen hne, hactive,
      hdefunct, hshutting⟩
  | draw hgate =>
    rw [hgate]
    exact ⟨hregistering, hinFlight, hclosed, hactive, hdefunct, hshutting⟩
  | land hgate =>
    rw [hgate]
    refine ⟨by simp only; omega, hinFlight, fun hne => ?_, hactive, hdefunct,
      hshutting⟩
    have hzero : s.registering = 0 := hclosed hne
    omega
  | enter hempty hgate =>
    rw [hgate]
    exact ⟨hregistering, by simp only; omega, fun _ => hempty, (by rintro ⟨⟩), (by rintro ⟨⟩),
      fun _ hzero => by simp only at hzero; omega⟩
  | visit | take => exact ⟨hregistering, hinFlight, hclosed, hactive, hdefunct, hshutting⟩
  | fold hstage hgate hquiet hadmitted hflying hsame =>
    rw [Place.flying_of_tour hsame.1, if_pos hflying] at hflies
    rw [hgate]
    refine ⟨hregistering, hinFlight, hclosed, fun hphase => ?_, fun hphase => ?_, hshutting⟩
    · have hzero : s.inFlight = 0 := (hactive hphase).1
      omega
    · have hzero : s.inFlight = 0 := (hdefunct hphase).1
      omega
  | leave tour hempty hadmitted hbefore =>
    rw [Place.flying_of_tour hbefore, if_pos rfl] at hflies
    have hphase : s.phase = .shuttingDown := by
      cases hphase : s.phase with
      | active => have := (hactive hphase).1; omega
      | shuttingDown => rfl
      | defunct => have := (hdefunct hphase).1; omega
    refine ⟨hregistering, by simp only [Shared.gate, Shared.leave]; omega, fun _ => hempty, ?_, ?_,
      ?_⟩
      <;> simp only [Shared.gate, Shared.leave, hphase] <;> grind
  | reactivate hempty hadmitted htour =>
    unfold Shared.reactivate
    split
    · exact ⟨hregistering, hinFlight, hclosed, hactive, hdefunct, hshutting⟩
    · rename_i hboth
      obtain ⟨hzero, hphase⟩ := not_or.mp hboth
      exact ⟨hregistering, hinFlight, fun _ => hempty,
        fun _ => ⟨not_not.mp hzero, rfl, (hdefunct (not_not.mp hphase)).2.2⟩, (by rintro ⟨⟩),
          (by rintro ⟨⟩)⟩

/-- A change of the shared state that keeps the phase, the era and the completed
flag, and registers nothing, keeps every shutdown's facts. -/
theorem Tour.Sound.mono (hsound : tour.Sound s) (hera : s'.era = s.era)
    (hphase : s'.phase = .active → s.phase = .active)
    (hcompleted : s.completedSinceActive = true → s'.completedSinceActive = true)
    (hshards : s'.shards = s.shards) (hhash : s'.hash = s.hash) (hquiet : Quiet s s') :
    tour.Sound s' := by
  have hshard (id : ActorId) : s'.shard id = s.shard id := by
    simp only [Shared.shard, hshards, hhash]
  refine ⟨hera ▸ hsound.era_le, hera ▸ hsound.flying, fun h => hera ▸ hsound.active (hphase h),
    fun hdone h => hcompleted (hsound.completed hdone (hera ▸ h)), ?_, ?_⟩
  · intro h roots hfirst id seq hheld hroot
    exact hsound.cover (hera ▸ h) roots hfirst id seq (hquiet.holds id seq hheld)
      (hquiet.roots seq ▸ hroot)
  · intro shard found htaking
    refine ⟨(hsound.taking shard found htaking).1, fun id seq hheld hroot hlt => ?_⟩
    exact (hsound.taking shard found htaking).2 id seq (hquiet.holds id seq hheld)
      (hquiet.roots seq ▸ hroot)
      (hshard id ▸ hlt)

/-- While the system is active, what is registered concerns no shutdown. -/
theorem Tour.Sound.ofActive (hsound : tour.Sound s) (hopen : s.phase = .active)
    (hera : s'.era = s.era) (hcompleted : s'.completedSinceActive = s.completedSinceActive) :
    tour.Sound s' := by
  have hlt := hsound.active hopen
  have hgrounded : tour.flying ≠ true := fun hflying => hlt.ne (hsound.flying hflying)
  refine ⟨hera ▸ hsound.era_le, hera ▸ hsound.flying, fun _ => hera ▸ hlt,
    fun hdone h => hcompleted ▸ hsound.completed hdone (hera ▸ h),
    fun h => absurd (hera ▸ h) hlt.ne, fun shard found htaking => ?_⟩
  exact absurd (hsound.taking shard found htaking).1 hgrounded

theorem Passage.tourSound (hpassage : Passage s place s' place') (hgate : s.gate.Sound)
    (hadmits : place.admitted ≤ s.registering) (hcounted : tour.flying = true → 0 < s.inFlight)
    (hsound : tour.Sound s) : tour.Sound s' := by
  have hopen (hone : place.admitted = 1) : s.phase = .active := by
    by_contra hne
    have hzero : s.registering = 0 := hgate.closed hne
    omega
  cases hpassage with
  | calm hcalm =>
    refine hsound.mono (congrArg Gate.era hcalm.gate) (fun h => ?_) (fun h => ?_)
      (congrArg Gate.shards hcalm.gate) (congrArg Gate.hash hcalm.gate) hcalm.toQuiet
    · exact (congrArg Gate.phase hcalm.gate).symm.trans h
    · exact (congrArg Gate.completedSinceActive hcalm.gate).trans h
  | enrol hactive hsame =>
    exact hsound.ofActive hactive (congrArg Gate.era hsame)
      (congrArg Gate.completedSinceActive hsame)
  | draw hsame hadmitted | land hsame hadmitted =>
    exact hsound.ofActive (hopen hadmitted.1) (congrArg Gate.era hsame)
      (congrArg Gate.completedSinceActive hsame)
  | enter hempty hsame hquiet =>
    refine hsound.mono (congrArg Gate.era hsame) (fun h => ?_) (fun h => ?_)
      (congrArg Gate.shards hsame) (congrArg Gate.hash hsame) hquiet
    · cases (congrArg Gate.phase hsame).symm.trans h
    · exact (congrArg Gate.completedSinceActive hsame).trans h
  | visit | take => exact hsound
  | fold hstage hsame hquiet =>
    refine hsound.mono (congrArg Gate.era hsame) (fun h => ?_) (fun h => ?_)
      (congrArg Gate.shards hsame) (congrArg Gate.hash hsame) hquiet
    · exact (congrArg Gate.phase hsame).symm.trans h
    · exact (congrArg Gate.completedSinceActive hsame).trans h
  | leave =>
    refine hsound.mono rfl ?_ ?_ rfl rfl (.of_eq rfl rfl)
    · simp only [Shared.leave]
      split <;> simp
    · simp only [Shared.leave]
      intro h
      simp [h]
  | reactivate hempty hadmitted htour =>
    unfold Shared.reactivate
    split
    · exact hsound
    · rename_i hboth
      have hzero : s.inFlight = 0 := not_not.mp (not_or.mp hboth).1
      have hgrounded : tour.flying ≠ true := fun hflying => (hcounted hflying).ne' hzero
      have hlt : tour.era < s.era + 1 := Nat.lt_succ_of_le hsound.era_le
      exact ⟨hlt.le, fun h => absurd h hgrounded, fun _ => hlt, fun _ h => absurd h hlt.ne,
        fun h => absurd h hlt.ne,
        fun shard found h => absurd (hsound.taking shard found h).1 hgrounded⟩

/-- What a shard's snapshot holds. -/
theorem mem_snapshots {shard : Nat} {keep : Entry ActorId → Bool} {root : Snapshot} :
    root ∈ s.snapshots shard keep ↔ ∃ entry ∈ s.byId, s.shard entry.key = shard ∧
      keep entry = true ∧ root = ⟨entry.key, entry.seq, (s.incarnations entry.seq).killGrace⟩ := by
  simp only [Shared.snapshots, List.mem_map, List.mem_filter, Bool.and_eq_true, beq_iff_eq]
  constructor
  · rintro ⟨entry, ⟨hmem, hshard, hkeep⟩, rfl⟩
    exact ⟨entry, hmem, hshard, hkeep, rfl⟩
  · rintro ⟨entry, hmem, hshard, hkeep, rfl⟩
    exact ⟨entry, ⟨hmem, hshard, hkeep⟩, rfl⟩

theorem Passage.tourSound_self {tour' : Tour} (hpassage : Passage s place s' place')
    (hgate : s.gate.Sound) (hadmits : place.admitted ≤ s.registering)
    (hcounted : place.flying ≤ s.inFlight)
    (hsound : ∀ tour, place.tour = some tour → tour.Sound s) (htour' : place'.tour = some tour') :
    tour'.Sound s' := by
  have hothers (tour : Tour) (htour : place.tour = some tour) : tour.Sound s' := by
    refine hpassage.tourSound hgate hadmits (fun hflying => ?_) (hsound tour htour)
    rw [Place.flying_of_tour htour, if_pos hflying] at hcounted
    omega
  cases hpassage with
  | calm hcalm hadmitted htour => exact hothers tour' (htour ▸ htour')
  | enrol _ _ _ _ htour | draw _ _ htour | land _ _ htour | reactivate _ _ htour =>
    simp [htour.2] at htour'
  | enter hempty hsame hquiet hadmitted htour =>
    cases htour.2.symm.trans htour'
    refine ⟨(congrArg Gate.era hsame).ge, fun _ => (congrArg Gate.era hsame).symm, fun h => ?_,
      nofun, nofun, ?_⟩
    · cases (congrArg Gate.phase hsame).symm.trans h
    · rintro shard found ⟨⟩
      exact ⟨rfl, fun _ _ _ _ h => absurd h (Nat.not_lt_zero _)⟩
  | @visit _ shard found tour hadmitted hbefore hafter =>
    cases hafter.symm.trans htour'
    have hbefore := hsound _ hbefore
    refine ⟨hbefore.era_le, hbefore.flying, hbefore.active, hbefore.completed, hbefore.cover, ?_⟩
    rintro shard' found' ⟨⟩
    refine ⟨rfl, fun id seq hholds hroot hlt => ?_⟩
    rcases Nat.lt_succ_iff_lt_or_eq.mp hlt with hlt | heq
    · obtain ⟨root, hmem, hfound⟩ :=
        (hbefore.taking shard found rfl).2 id seq hholds hroot hlt
      exact ⟨root, List.mem_append_left _ hmem, hfound⟩
    · obtain ⟨entry, hmem, rfl, rfl⟩ := hholds
      exact ⟨_, List.mem_append_right _ (mem_snapshots.mpr ⟨entry, hmem, heq, hroot, rfl⟩),
        rfl, rfl⟩
  | @take _ shard found roots tour hall hperm hadmitted hbefore hafter =>
    cases hafter.symm.trans htour'
    have hbefore := hsound _ hbefore
    refine ⟨hbefore.era_le, hbefore.flying, hbefore.active, hbefore.completed, ?_, nofun⟩
    rintro _ roots ⟨⟩ id seq hholds hroot
    have hlt : s.shard id < shard := (Nat.mod_lt _ s.shards_pos).trans_le hall
    obtain ⟨root, hmem, hfound⟩ := (hbefore.taking shard found rfl).2 id seq hholds hroot hlt
    exact ⟨root, hperm.mem_iff.mpr hmem, hfound⟩
  | fold hstage hsame hquiet hadmitted hflying htour =>
    cases htour.2.symm.trans htour'
    exact hothers _ htour.1
  | leave tour hempty hadmitted hbefore hafter =>
    cases hafter.symm.trans htour'
    have hbefore := hothers _ hbefore
    refine ⟨hbefore.era_le, nofun, hbefore.active, fun hcompleted _ => ?_, hbefore.cover, nofun⟩
    simp only at hcompleted
    simp [Shared.leave, hcompleted]

/-- Where a completed shutdown of the present era comes from. -/
theorem Passage.completed (hpassage : Passage s place s' place')
    (hcompleted : s'.completedSinceActive = true) : s'.era = s.era ∧
      ((∃ tour tour', place.tour = some tour ∧ tour.flying = true ∧ place'.tour = some tour' ∧
          tour'.completed = true ∧ tour'.era = tour.era) ∨
        (s.completedSinceActive = true ∧ ∀ tour, place.tour = some tour → tour.completed = true →
          ∃ tour', place'.tour = some tour' ∧ tour'.completed = true ∧ tour'.era = tour.era)) := by
  cases hpassage with
  | calm hcalm hadmitted htour =>
    refine ⟨congrArg Gate.era hcalm.gate, .inr ⟨?_, fun tour hsome hdone => ?_⟩⟩
    · exact (congrArg Gate.completedSinceActive hcalm.gate).symm.trans hcompleted
    · exact ⟨tour, htour.trans hsome, hdone, rfl⟩
  | enrol _ hsame _ _ htour | draw hsame _ htour | land hsame _ htour | enter _ hsame _ _ htour =>
    refine ⟨congrArg Gate.era hsame, .inr ⟨?_, fun tour hsome => ?_⟩⟩
    · exact (congrArg Gate.completedSinceActive hsame).symm.trans hcompleted
    · simp [htour.1] at hsome
  | visit tour hadmitted hbefore hafter | take tour hall hperm hadmitted hbefore hafter =>
    refine ⟨rfl, .inr ⟨hcompleted, fun tour hsome hdone => ?_⟩⟩
    cases hbefore.symm.trans hsome
    exact ⟨_, hafter, hdone, rfl⟩
  | fold hstage hsame hquiet hadmitted hflying htour =>
    refine ⟨congrArg Gate.era hsame, .inr ⟨?_, fun tour hsome hdone => ?_⟩⟩
    · exact (congrArg Gate.completedSinceActive hsame).symm.trans hcompleted
    · cases htour.1.symm.trans hsome
      exact ⟨_, htour.2, hdone, rfl⟩
  | @leave _ completed tour hempty hadmitted hbefore hafter =>
    refine ⟨rfl, ?_⟩
    cases completed with
    | true => exact .inl ⟨_, _, hbefore, rfl, hafter, rfl, rfl⟩
    | false =>
      refine .inr ⟨by simpa [Shared.leave] using hcompleted, fun tour hsome hdone => ?_⟩
      cases hbefore.symm.trans hsome
      cases hdone
  | reactivate hempty hadmitted htour =>
    unfold Shared.reactivate at hcompleted ⊢
    split at hcompleted
    · rename_i hboth
      rw [if_pos hboth]
      exact ⟨rfl, .inr ⟨hcompleted, fun tour hsome => by simp [htour.1] at hsome⟩⟩
    · cases hcompleted

theorem Passage.fresh (hpassage : Passage s place s' place') {walk : Walk}
    (henter : place' = .walk walk .enter) : place.tour = none := by
  subst henter
  cases hpassage with
  | calm _ _ htour => exact htour.symm
  | enrol _ _ _ _ htour | draw _ _ htour | land _ _ htour | reactivate _ _ htour
  | enter _ _ _ _ htour => exact htour.1
  | visit _ _ _ hafter | take _ _ _ _ _ hafter | leave _ _ _ _ hafter => cases hafter
  | fold _ _ _ _ _ htour => cases htour.2

theorem ne_enter_of_next {input : Input} {entering : List Place}
    (hfresh : ∀ walk, place = .walk walk .enter → walk.first = none)
    (htaken : next s place input = some (s', place', entering)) (walk' : Walk) :
    place' ≠ .walk walk' .enter := by
  rintro rfl
  have htour := (next_passage hfresh htaken).1.fresh rfl
  cases took_of_next htaken with
  | @walk walk _ stage _ input _ hstep =>
    have hstage : stage = .enter := by cases stage <;> first | rfl | cases htour
    subst hstage
    cases Walk.walked hstep

end Step

/-! ## Runs -/

/-- Every step of the pool keeps what the gate and its parties agree on. -/
theorem Gated.step {state : State} (hgated : Gated state) {i : Nat} {input : Input}
    {entering : List Place} (hplace : state.parties[i]? = some place)
    (htaken : next state.shared place input = some (s', place', entering)) :
    Gated ⟨s', state.parties.set i place' ++ entering⟩ := by
  have hmem : place ∈ state.parties := List.mem_of_getElem? hplace
  have hfresh := hgated.fresh place hmem
  obtain ⟨hpassage, hbegins⟩ := next_passage hfresh htaken
  have hadmits : place.admitted ≤ state.shared.registering :=
    hgated.registering ▸ weight_le_weigh Place.admitted_nonneg hplace
  have hflies : place.flying ≤ state.shared.inFlight :=
    hgated.inFlight ▸ weight_le_weigh Place.flying_nonneg hplace
  have hcounts := hpassage.counts
  -- A party of the next state stayed where it was, is the one that stepped, or begins.
  have hcases : ∀ other ∈ state.parties.set i place' ++ entering,
      other ∈ state.parties ∨ other = place' ∨ other.Begins := by
    intro other hother
    rcases List.mem_append.mp hother with hset | hentering
    · exact (List.mem_or_eq_of_mem_set hset).imp_right .inl
    · exact .inr (.inr (hbegins other hentering))
  refine ⟨hpassage.gateSound hgated.gate hadmits hflies, ?_, ?_, ?_, ?_, ?_⟩
  · have hnone : weigh Place.admitted entering = 0 := weigh_zero fun other h => (hbegins other h).1
    have hweigh : weigh Place.admitted (state.parties.set i place' ++ entering) + _ = _ :=
      weigh_step hplace
    have hbefore := hgated.registering
    simp only
    omega
  · have hnone : weigh Place.flying entering = 0 :=
      weigh_zero fun other h => Place.flying_of_none (hbegins other h).2.1
    have hweigh : weigh Place.flying (state.parties.set i place' ++ entering) + _ = _ :=
      weigh_step hplace
    have hbefore := hgated.inFlight
    simp only
    omega
  · intro other hother walk hwalk
    rcases hcases other hother with hold | rfl | hnew
    · exact hgated.fresh other hold walk hwalk
    · exact absurd hwalk (ne_enter_of_next hfresh htaken walk)
    · exact hnew.2.2 walk hwalk
  · intro other hother tour htour
    rcases hcases other hother with hold | rfl | hnew
    · refine hpassage.tourSound hgated.gate hadmits (fun hflying => ?_)
        (hgated.tours other hold tour htour)
      obtain ⟨j, hj⟩ := List.mem_iff_getElem?.mp hold
      have hle : other.flying ≤ weigh Place.flying state.parties :=
        weight_le_weigh Place.flying_nonneg hj
      rw [Place.flying_of_tour htour, if_pos hflying] at hle
      have hcount := hgated.inFlight
      omega
    · exact hpassage.tourSound_self hgated.gate hadmits hflies (hgated.tours place hmem) htour
    · simp [hnew.2.1] at htour
  · intro hcompleted
    have hi : i < state.parties.length := (List.getElem?_eq_some_iff.mp hplace).1
    have hself : place' ∈ state.parties.set i place' ++ entering :=
      List.mem_append_left _ (List.mem_set hi place')
    obtain ⟨hera, ⟨tour, tour', htour, hflying, htour', hdone, hsame⟩ | ⟨hbefore, hkept⟩⟩ :=
      hpassage.completed hcompleted
    · have heraTour := (hgated.tours place hmem tour htour).flying hflying
      exact ⟨place', hself, tour', htour', hdone, by simp only; omega⟩
    · obtain ⟨other, hold, tour, htour, hdone, heraOther⟩ := hgated.completed hbefore
      obtain ⟨j, hj⟩ := List.mem_iff_getElem?.mp hold
      by_cases hij : j = i
      · subst hij
        cases hplace.symm.trans hj
        obtain ⟨tour', htour', hdone', heraSame⟩ := hkept tour htour hdone
        exact ⟨place', hself, tour', htour', hdone', by simp only; omega⟩
      · refine ⟨other, List.mem_append_left _ ?_, tour, htour, hdone, by simp only; omega⟩
        exact List.mem_iff_getElem?.mpr ⟨j, by rw [List.getElem?_set_ne (Ne.symm hij)]; exact hj⟩

theorem Reaches.gated {allowed : State → Nat × Input → Prop} {systemName : String} {shards : ℕ+}
    {hash : ActorId → Nat} {state : State} (hreach : Reaches allowed systemName shards hash state) :
    Gated state := by
  refine invariant ?_ (fun _ _ _ _ _ _ _ hgated _ => hgated.step) hreach
  refine ⟨⟨le_rfl, le_rfl, fun _ => rfl, fun _ => ⟨rfl, rfl, rfl⟩, nofun, nofun⟩, rfl, rfl, ?_, ?_,
    nofun⟩
  · rintro place hplace walk rfl
    simp [init] at hplace
  · intro place hplace tour htour
    obtain rfl : place = .world := by simpa [init] using hplace
    cases htour

/-! ## The gate over whole runs -/

def Flying (state : State) : Prop :=
  ∃ walk stage, Place.walk walk stage ∈ state.parties ∧ stage.inFlight = true

/-- A shutdown has completed since the system was last active. -/
def Completed (state : State) : Prop :=
  ∃ walk, Place.walk walk .finished ∈ state.parties ∧ walk.era = state.shared.era

/-- What the phases promise in a state. -/
structure PhaseOrder (state : State) : Prop where
  /-- The phase is active only while no shutdown is in flight. -/
  active : state.shared.phase = .active → ¬ Flying state
  /-- From an entry to a successful reactivation, no registration is admitted. -/
  closed : state.shared.phase ≠ .active → (∀ place ∈ state.parties, place.admitted = 0) ∧
    ∀ label after, Machine.Pool.step next state label = some after →
      (∀ place ∈ after.parties, place.admitted = 0) ∧
      (∀ id seq, after.shared.Holds id seq → state.shared.Holds id seq) ∧
      (after.shared.phase = .active →
        state.shared.reactivate.2 = true ∧ after.shared = state.shared.reactivate.1)
  /-- The first snapshot of a walk that entered since holds every root still registered. -/
  snapshot : ∀ walk stage, .walk walk stage ∈ state.parties → stage ≠ .enter →
    walk.era = state.shared.era → ∀ roots, walk.first = some roots → ∀ id seq,
      state.shared.Holds id seq → (state.shared.incarnations seq).isRoot = true →
        ∃ root ∈ roots, root.id = id ∧ root.seq = seq
  defunct : state.shared.phase = .defunct ↔ ¬ Flying state ∧ Completed state
  reactivate : state.shared.reactivate.2 = true ↔ ¬ Flying state ∧ Completed state
  /-- A reactivated system is active and has no sweep deadline left over. -/
  reactivated : state.shared.reactivate.2 = true → state.shared.reactivate.1.phase = .active ∧
    state.shared.reactivate.1.sweepDeadline = none

theorem Place.tour_walk {walk : Walk} {stage : Stage} (hstage : stage ≠ .enter) :
    ∃ tour, (Place.walk walk stage).tour = some tour ∧ tour.era = walk.era ∧
      tour.first = walk.first ∧ tour.flying = stage.inFlight ∧
      (tour.completed = true ↔ stage = .finished) := by
  cases stage with
  | enter => contradiction
  | _ => exact ⟨_, rfl, rfl, rfl, rfl, by simp⟩

theorem Place.walk_of_tour (htour : place.tour = some tour) :
    ∃ walk stage, place = .walk walk stage ∧ tour.era = walk.era ∧ tour.flying = stage.inFlight ∧
      (tour.completed = true ↔ stage = .finished) := by
  cases place with
  | walk walk stage =>
    have hstage : stage ≠ .enter := by
      rintro rfl
      cases htour
    obtain ⟨tour', htour', hera, _, hflying, hcompleted⟩ := Place.tour_walk hstage
    cases htour.symm.trans htour'
    exact ⟨walk, stage, rfl, hera, hflying, hcompleted⟩
  | _ => cases htour

/-- Away from the active phase, a passage admits and registers nothing, and only
a successful reactivation leads back. -/
theorem Passage.closed {s : Shared} (hpassage : Passage s place s' place')
    (hphase : s.phase ≠ .active) (hadmitted : place.admitted = 0) :
    place'.admitted = 0 ∧ (∀ id seq, s'.Holds id seq → s.Holds id seq) ∧
      (s'.phase = .active → s.reactivate.2 = true ∧ s' = s.reactivate.1) := by
  cases hpassage with
  | calm hcalm hsame =>
    refine ⟨hsame.trans hadmitted, hcalm.holds, fun h => absurd ?_ hphase⟩
    exact (congrArg Gate.phase hcalm.gate).symm.trans h
  | enrol hactive => exact absurd hactive hphase
  | draw hgate hone htour | land hgate hone htour =>
    rw [hone.1] at hadmitted
    cases hadmitted
  | enter hempty hgate hquiet hzero =>
    exact ⟨hzero.2, hquiet.holds, fun h => nomatch (congrArg Gate.phase hgate).symm.trans h⟩
  | visit tour hzero | take tour _ _ hzero =>
    exact ⟨hzero.2, fun _ _ => id, fun h => absurd h hphase⟩
  | fold hstage hgate hquiet hzero =>
    refine ⟨hzero.2, hquiet.holds, fun h => absurd ?_ hphase⟩
    exact (congrArg Gate.phase hgate).symm.trans h
  | leave tour hempty hzero =>
    refine ⟨hzero.2, fun _ _ => id, fun h => ?_⟩
    simp only [Shared.leave] at h
    split at h
    · cases h
    · exact absurd h hphase
  | reactivate hempty hzero =>
    unfold Shared.reactivate
    split
    · exact ⟨hzero.2, fun _ _ => id, fun h => absurd h hphase⟩
    · exact ⟨hzero.2, fun _ _ => id, fun _ => ⟨rfl, rfl⟩⟩

section Gated

variable {state : State}

theorem Gated.flying_iff (hgated : Gated state) : Flying state ↔ state.shared.inFlight ≠ 0 := by
  constructor
  · rintro ⟨walk, stage, hmem, hflying⟩ hzero
    have hstage : stage ≠ .enter := by
      rintro rfl
      cases hflying
    obtain ⟨tour, htour, _, _, htourFlying, _⟩ := @Place.tour_walk walk stage hstage
    have hnone := eq_zero_of_weigh Place.flying_nonneg (hgated.inFlight.symm.trans hzero) hmem
    rw [Place.flying_of_tour htour, htourFlying, hflying] at hnone
    cases hnone
  · intro hne
    by_contra hnone
    refine hne (hgated.inFlight.trans (weigh_zero fun place hplace => ?_))
    cases htour : place.tour with
    | none => exact Place.flying_of_none htour
    | some =>
      obtain ⟨walk, stage, rfl, _, hflying, _⟩ := Place.walk_of_tour htour
      rw [Place.flying_of_tour htour, hflying, if_neg]
      exact fun hin => hnone ⟨walk, stage, hplace, hin⟩

theorem Gated.completed_iff (hgated : Gated state) :
    Completed state ↔ state.shared.completedSinceActive = true := by
  constructor
  · rintro ⟨walk, hmem, hera⟩
    exact (hgated.tours _ hmem _ rfl).completed rfl hera
  · intro hcompleted
    obtain ⟨place, hmem, tour, htour, hdone, hera⟩ := hgated.completed hcompleted
    obtain ⟨walk, stage, rfl, heraWalk, _, hfinished⟩ := Place.walk_of_tour htour
    cases hfinished.mp hdone
    exact ⟨walk, hmem, heraWalk ▸ hera⟩

theorem Gated.defunct_iff (hgated : Gated state) :
    state.shared.phase = .defunct ↔ ¬ Flying state ∧ Completed state := by
  rw [hgated.flying_iff, hgated.completed_iff, not_not]
  constructor
  · intro hphase
    exact ⟨(hgated.gate.defunct hphase).1, (hgated.gate.defunct hphase).2.1⟩
  · rintro ⟨hzero, hcompleted⟩
    cases hphase : state.shared.phase with
    | defunct => rfl
    | active => cases hcompleted.symm.trans (hgated.gate.active hphase).2.1
    | shuttingDown => cases hcompleted.symm.trans (hgated.gate.shuttingDown hphase hzero)

/-- Reactivation succeeds from the defunct phase, and only there. -/
theorem Gated.reactivate_iff (hgated : Gated state) :
    state.shared.reactivate.2 = true ↔ state.shared.phase = .defunct := by
  unfold Shared.reactivate
  split
  · rename_i heither
    refine ⟨(by rintro ⟨⟩), fun hphase => ?_⟩
    rcases heither with hne | hne
    · exact absurd (hgated.gate.defunct hphase).1 hne
    · exact absurd hphase hne
  · rename_i hneither
    exact ⟨fun _ => not_not.mp (not_or.mp hneither).2, fun _ => rfl⟩

theorem Gated.admitted_zero (hgated : Gated state) (hphase : state.shared.phase ≠ .active) :
    ∀ place ∈ state.parties, place.admitted = 0 := fun _ =>
  eq_zero_of_weigh Place.admitted_nonneg (hgated.registering.symm.trans (hgated.gate.closed hphase))

end Gated

/-- However registrations, entries, ends and reactivations interleave, the phases
keep their order. -/
theorem phase_order {allowed : State → Nat × Input → Prop} {systemName : String} {shards : ℕ+}
    {hash : ActorId → Nat} {state : State}
    (hreach : Reaches allowed systemName shards hash state) : PhaseOrder state := by
  have hgated := hreach.gated
  refine ⟨fun hphase => ?_, fun hphase => ⟨hgated.admitted_zero hphase, ?_⟩, ?_,
    hgated.defunct_iff, hgated.reactivate_iff.trans hgated.defunct_iff, fun hsuccess => ?_⟩
  · rw [hgated.flying_iff, not_not]
    exact (hgated.gate.active hphase).1
  · intro label after htaken
    obtain ⟨place, s', place', entering, hplace, hnext, rfl⟩ := step_eq_some htaken
    have hmem : place ∈ state.parties := List.mem_of_getElem? hplace
    obtain ⟨hpassage, hbegins⟩ := next_passage (hgated.fresh place hmem) hnext
    obtain ⟨hadmitted, hholds, hback⟩ :=
      hpassage.closed hphase (hgated.admitted_zero hphase place hmem)
    refine ⟨fun other hother => ?_, hholds, hback⟩
    rcases List.mem_append.mp hother with hset | hentering
    · rcases List.mem_or_eq_of_mem_set hset with hold | rfl
      · exact hgated.admitted_zero hphase other hold
      · exact hadmitted
    · exact (hbegins other hentering).1
  · intro walk stage hmem hstage hera roots hfirst
    obtain ⟨tour, htour, heraTour, hfirstTour, _, _⟩ := @Place.tour_walk walk stage hstage
    exact (hgated.tours _ hmem tour htour).cover (heraTour.trans hera) roots
      (hfirstTour.trans hfirst)
  · have hdefunct := hgated.reactivate_iff.mp hsuccess
    have hzero : state.shared.inFlight = 0 := (hgated.gate.defunct hdefunct).1
    have hnone : state.shared.sweepDeadline = none := (hgated.gate.defunct hdefunct).2.2
    unfold Shared.reactivate
    rw [if_neg (not_or.mpr ⟨not_not.mpr hzero, not_not.mpr hdefunct⟩)]
    exact ⟨rfl, hnone⟩

/-- A root registers, two shutdowns overlap, one is cut short and the other
completes. -/
def overlap : List (Nat × Input) := List.flatten
  [[(0, .spawn ⟨1, none, true, 5⟩), (1, .go), (1, .go), (1, .go), (0, .shutdown 100 10),
      (0, .shutdown 100 10)],
    List.replicate 3 (3, .walk .go), List.replicate 3 (4, .walk .go), [(4, .walk .cut)],
    List.replicate 3 (3, .walk .go),
    [(2, .unregisterId), (2, .sealLane), (2, .writeReason .parentRequest), (2, .publishStopped)],
    List.replicate 10 (3, .walk .go)]

theorem phase_order_overlap : ∃ state : State, PhaseOrder state ∧ state.shared.phase = .defunct ∧
    state.shared.reactivate.2 = true := by
  have hreach := @Machine.reaches_get State (Nat × Input) (Machine.Pool.step next)
    (init "system" 1 fun _ => 0) overlap (by decide +kernel)
  exact ⟨_, phase_order hreach, by decide +kernel, by decide +kernel⟩

end TokioActors.System
