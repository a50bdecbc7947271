/-
# The reports of completed shutdowns

A walk scans the registry one shard at a time: for its first snapshot, for roots
that came late, and for the leftovers of the sweep. What a scan has found are
distinct incarnations, and no root comes late. The ladder asks the roots in the
order of the snapshot, and goes on from a root that has ended or that it has asked
and killed. The balance of the ledger then says what a completed walk has reported:
every incarnation that was registered when its shard was listed is in it.
-/

import TokioActors.System.Accounts
import TokioActors.System.Planes

namespace TokioActors.System

open Machine.Pool

/-! ## Scans of the registry -/

namespace Stage

/-- The scan under way: the shard it reads next, and what it has found. -/
def scanning : Stage → Option (Nat × List Snapshot)
  | snapshot shard found => some (shard, found)
  | late shard found => some (shard, found)
  | list shard found => some (shard, found)
  | _ => none

/-- The roots the ladder has not asked yet. -/
def unasked : Stage → List Seq
  | ladder root rest .stop => (root :: rest).map Snapshot.seq
  | ladder _ rest _ => rest.map Snapshot.seq
  | _ => []

end Stage

variable {stage stage' : Stage} {walk walk' : Walk} {s s' : Shared} {state : State}
  {input : WalkInput} {found : List Snapshot} {place place' : Place} {id : ActorId} {seq : Seq}
  {ladder : Ladder} {entering : List Place}

/-- What a scan has found in the shards below the given one: distinct
incarnations, each known under its id. -/
structure Gathered (s : Shared) (shard : Nat) (found : List Snapshot) : Prop where
  known : ∀ root ∈ found, Known s (root.id, root.seq)
  below : ∀ root ∈ found, s.shard root.id < shard
  nodup : (found.map Snapshot.seq).Nodup

theorem Gathered.nil (s : Shared) : Gathered s 0 [] := ⟨nofun, nofun, .nil⟩

/-- No two entries of one shard share an incarnation. -/
theorem Filed.snapshots_nodup (hfiled : Filed state) (shard : Nat) (keep : Entry ActorId → Bool) :
    ((state.shared.snapshots shard keep).map Snapshot.seq).Nodup := by
  have hrows : (state.shared.byId.map Entry.seq).Nodup := by
    have hkeys := hfiled.keys
    simp only [Shared.rows, List.map_map, List.Nodup, List.pairwise_map] at hkeys ⊢
    refine hkeys.imp_of_mem fun {first second} hfirst hsecond hne heq => hne ?_
    have hknown := (hfiled.known _ (List.mem_map.mpr ⟨first, hfirst, rfl⟩)).2
    have hknown' := (hfiled.known _ (List.mem_map.mpr ⟨second, hsecond, rfl⟩)).2
    rw [heq] at hknown
    exact hknown.symm.trans hknown'
  refine hrows.sublist ?_
  simp only [Shared.snapshots, List.map_map]
  exact List.filter_sublist.map _

theorem Gathered.visit {state : State} (hfiled : Filed state) {shard : Nat} {found : List Snapshot}
    (hgathered : Gathered state.shared shard found) (keep : Entry ActorId → Bool) :
    Gathered state.shared (shard + 1) (found ++ state.shared.snapshots shard keep) := by
  have hfresh : ∀ root ∈ state.shared.snapshots shard keep,
      Known state.shared (root.id, root.seq) ∧ state.shared.shard root.id = shard := by
    intro root hroot
    obtain ⟨entry, hmem, hshard, _, rfl⟩ := mem_snapshots.mp hroot
    exact ⟨hfiled.known _ (List.mem_map.mpr ⟨entry, hmem, rfl⟩), hshard⟩
  refine ⟨?_, ?_, ?_⟩
  · intro root hroot
    rcases List.mem_append.mp hroot with hold | hnew
    · exact hgathered.known root hold
    · exact (hfresh root hnew).1
  · intro root hroot
    rcases List.mem_append.mp hroot with hold | hnew
    · exact Nat.lt_succ_of_lt (hgathered.below root hold)
    · exact (hfresh root hnew).2 ▸ Nat.lt_succ_self _
  · rw [List.map_append]
    refine List.Nodup.append hgathered.nodup (hfiled.snapshots_nodup shard keep) ?_
    -- An incarnation found before is known under an id of an earlier shard.
    intro seq hold hnew
    obtain ⟨root, hroot, rfl⟩ := List.mem_map.mp hold
    obtain ⟨other, hother, hseq⟩ := List.mem_map.mp hnew
    have hlt := hgathered.below root hroot
    have hid : other.id = root.id := by
      have hknown := (hfresh other hother).1.2
      rw [hseq] at hknown
      exact hknown.symm.trans (hgathered.known root hroot).2
    rw [← hid, (hfresh other hother).2] at hlt
    exact lt_irrefl _ hlt

theorem Gathered.filing (hfiling : Filing s place s' place') (hshard : s'.shard = s.shard)
    {shard : Nat} (hgathered : Gathered s shard found) : Gathered s' shard found :=
  ⟨fun root hroot => hfiling.known (hgathered.known root hroot), hshard ▸ hgathered.below,
    hgathered.nodup⟩

/-! ## What the ladder has done -/

def Walk.stops (walk : Walk) : List Seq :=
  (walk.issued.filter fun issued => issued.signal = .stop).map Issued.wanted

/-- The requests the ladder is past were issued on the incarnation, if it is registered still. -/
def Walk.Pursues (walk : Walk) (s : Shared) (id : ActorId) (seq : Seq) (pursued : Nat) : Prop :=
  s.Holds id seq → (1 ≤ pursued → ⟨.stop, seq, seq⟩ ∈ walk.issued) ∧
    (2 ≤ pursued → ⟨.kill, seq, seq⟩ ∈ walk.issued)

/-- A root the ladder reported has ended, or it was asked and killed and is reported as
unresponsive. -/
def Walk.Judged (walk : Walk) (s : Shared) (outcome : Outcome) : Prop :=
  (s.incarnations outcome.seq).terminal = true ∧ walk.Pursues s outcome.id outcome.seq 1 ∨
    outcome.report = unresponsive ∧ walk.Pursues s outcome.id outcome.seq 2

structure Pursuit (s : Shared) (walk : Walk) (stage : Stage) : Prop where
  climbs : ∀ root rest ladder, stage = .ladder root rest ladder →
    walk.Pursues s root.id root.seq ladder.pursued
  judged : ∀ outcome ∈ walk.outcomes, outcome.byLadder = true → walk.Judged s outcome

/-- From one state to the other, nothing was registered and what had ended has ended. -/
structure Ebbs (s s' : Shared) : Prop where
  held : ∀ id seq, s'.Holds id seq → s.Holds id seq
  ended : ∀ seq, (s.incarnations seq).terminal = true → (s'.incarnations seq).terminal = true

theorem Walk.Pursues.ebbs {pursued : Nat} (hebbs : Ebbs s s') (hissued : walk.issued ⊆ walk'.issued)
    (hpursues : walk.Pursues s id seq pursued) : walk'.Pursues s' id seq pursued := by
  intro hheld
  obtain ⟨hstop, hkill⟩ := hpursues (hebbs.held id seq hheld)
  exact ⟨fun h => hissued (hstop h), fun h => hissued (hkill h)⟩

theorem Walk.Judged.ebbs {outcome : Outcome} (hebbs : Ebbs s s')
    (hissued : walk.issued ⊆ walk'.issued) (hjudged : walk.Judged s outcome) :
    walk'.Judged s' outcome :=
  hjudged.imp (fun h => ⟨hebbs.ended _ h.1, h.2.ebbs hebbs hissued⟩)
    fun h => ⟨h.1, h.2.ebbs hebbs hissued⟩

theorem Pursuit.ebbs (hebbs : Ebbs s s') (hpursuit : Pursuit s walk stage) :
    Pursuit s' walk stage :=
  ⟨fun root rest ladder h => (hpursuit.climbs root rest ladder h).ebbs hebbs (List.Subset.refl _),
    fun outcome houtcome h =>
      (hpursuit.judged outcome houtcome h).ebbs hebbs (List.Subset.refl _)⟩

theorem Walk.pursues_nextRoot (roots : List Snapshot) (root : Snapshot) (rest : List Snapshot)
    (ladder : Ladder) (hnext : nextRoot roots = .ladder root rest ladder) :
    walk.Pursues s root.id root.seq ladder.pursued := by
  cases roots <;> cases hnext
  exact fun _ => ⟨nofun, nofun⟩

theorem Walked.pursuit (hmissing : ∀ id seq, s.idEntry id seq = none → ¬ s.Holds id seq)
    (hpursuit : Pursuit s walk stage) (hwalked : Walked walk s stage input s' walk' stage') :
    Pursuit s walk' stage' := by
  have hkeeps {walk' : Walk} {stage' : Stage} (hissued : walk.issued ⊆ walk'.issued)
      (houtcomes : ∀ outcome ∈ walk'.outcomes, outcome.byLadder = true → outcome ∈ walk.outcomes)
      (hclimbs : ∀ root rest ladder, stage' = .ladder root rest ladder →
        walk'.Pursues s root.id root.seq ladder.pursued) : Pursuit s walk' stage' :=
    ⟨hclimbs, fun outcome houtcome h => (hpursuit.judged outcome (houtcomes outcome houtcome h)
      h).ebbs
      ⟨fun _ _ => id, fun _ => id⟩ hissued⟩
  have hsame {stage' : Stage} := @hkeeps walk stage' (List.Subset.refl _) fun _ h _ => h
  cases hwalked with
  | rung hstep =>
    refine hsame ?_
    rintro _ _ _ ⟨⟩
    rcases hstep with hpursued | hgone
    · exact hpursued ▸ hpursuit.climbs _ _ _ rfl
    · exact fun hheld => absurd hheld (hmissing _ _ hgone)
  | stop hfound =>
    refine hkeeps (List.subset_append_left _ _) (fun _ h _ => h) ?_
    rintro _ _ _ ⟨⟩ -
    rw [Shared.seq_of_idEntry hfound]
    exact ⟨fun _ => by simp [Walk.issue], nofun⟩
  | kill hfound =>
    refine hkeeps (List.subset_append_left _ _) (fun _ h _ => h) ?_
    rintro _ _ _ ⟨⟩ hheld
    rw [Shared.seq_of_idEntry hfound]
    have hstop := (hpursuit.climbs _ _ _ rfl hheld).1 le_rfl
    exact ⟨fun _ => List.mem_append_left _ hstop, fun _ => by simp [Walk.issue]⟩
  | ask | raise =>
    have hclimbs := hpursuit.climbs _ _ _ rfl
    refine hsame ?_
    rintro _ _ _ ⟨⟩
    exact hclimbs
  | abort =>
    refine hkeeps (List.subset_append_left _ _) (fun _ h _ => h) ?_
    rintro _ _ _ ⟨⟩
    exact (hpursuit.climbs _ _ _ rfl).ebbs ⟨fun _ _ => id, fun _ => id⟩
      (List.subset_append_left _ _)
  | report hseen =>
    refine ⟨Walk.pursues_nextRoot _, fun outcome houtcome h => ?_⟩
    have hclimbs := hpursuit.climbs _ _ _ rfl
    rcases List.mem_append.mp houtcome with hold | hnew
    · exact hpursuit.judged outcome hold h
    · obtain rfl := List.mem_singleton.mp hnew
      rcases hseen with ⟨hasked, hended⟩ | ⟨hkilled, hreport⟩
      · refine .inl ⟨hended, fun hheld => ⟨fun _ => ?_, nofun⟩⟩
        exact (hclimbs hheld).1 (Nat.one_le_iff_ne_zero.mpr hasked)
      · exact .inr ⟨hreport, hkilled ▸ hclimbs⟩
  | board | late => exact hkeeps (List.Subset.refl _) (fun _ h _ => h) (Walk.pursues_nextRoot _)
  | @join _ _ task sweep =>
    refine hkeeps (by cases sweep <;> exact List.Subset.refl _) (fun outcome houtcome h => ?_)
      (by rintro _ _ _ ⟨⟩)
    cases sweep with
    | none =>
      rcases List.mem_append.mp houtcome with hold | hnew
      · exact hold
      · cases List.mem_singleton.mp hnew
        cases h
    | some => exact houtcome
  | sight | forceAbort | list =>
    exact hkeeps (List.subset_append_left _ _) (fun _ h _ => h) (by rintro _ _ _ ⟨⟩)
  | _ => exact hkeeps (List.Subset.refl _) (fun _ h _ => h) (by rintro _ _ _ ⟨⟩)

theorem Stage.unasked_nextRoot (roots : List Snapshot) :
    (Walk.nextRoot roots).unasked = roots.map Snapshot.seq := by
  cases roots <;> rfl

theorem Stage.unasked_of_plain {root : Snapshot} {rest : List Snapshot}
    (hplain : ladder.acts = false) :
    (Stage.ladder root rest ladder).unasked = rest.map Snapshot.seq := by
  cases ladder <;> first | rfl | cases hplain

theorem Stage.rest_sublist_unasked {root : Snapshot} {rest : List Snapshot} :
    (rest.map Snapshot.seq).Sublist (Stage.ladder root rest ladder).unasked := by
  cases ladder <;> first | exact .refl _ | exact List.sublist_cons_self _ _

@[simp] theorem Walk.reported_issue (walk : Walk) (signal : Signal) (target wanted : Seq) :
    (walk.issue signal target wanted).reported = walk.reported := rfl

@[simp] theorem Walk.stops_issue (walk : Walk) (signal : Signal) (target wanted : Seq) :
    (walk.issue signal target wanted).stops =
      walk.stops ++ if signal = .stop then [wanted] else [] := by
  simp only [stops, issue, List.filter_append, List.map_append, List.filter_singleton]
  by_cases hstop : signal = .stop <;> simp [hstop]

/-- The ladder asks the roots in the order of the snapshot. -/
theorem Walked.stops (hempty : stage.leg = .boarding → walk.reported = [])
    (hstops : (walk.stops ++ stage.unasked).Sublist walk.reported)
    (hwalked : Walked walk s stage input s' walk' stage') :
    (walk'.stops ++ stage'.unasked).Sublist walk'.reported := by
  have hbare : walk.stops.Sublist walk.reported := (List.sublist_append_left _ _).trans hstops
  have hrest {root : Snapshot} {rest : List Snapshot} {ladder : Ladder}
      (hstage : stage = .ladder root rest ladder) :
      (walk.stops ++ rest.map Snapshot.seq).Sublist walk.reported :=
    (Stage.rest_sublist_unasked.append_left _).trans (hstage ▸ hstops)
  cases hwalked with
  | board =>
    have hnone : walk.stops = [] := List.sublist_nil.mp (hempty rfl ▸ hbare)
    change (walk.stops ++ _).Sublist _
    rw [hnone, Stage.unasked_nextRoot]
    exact .refl _
  | rung _ hplain =>
    rw [Stage.unasked_of_plain hplain]
    exact hrest rfl
  | stop => simpa [Stage.unasked] using hstops
  | kill | abort => simpa [Stage.unasked] using hrest rfl
  | report =>
    rw [Stage.unasked_nextRoot]
    exact hrest rfl
  | cutLadder | cut => simpa [Stage.unasked, Walk.cutLadder] using hbare
  | sight | forceAbort => simpa [Stage.unasked] using hbare
  | late =>
    rw [Stage.unasked_nextRoot]
    exact hbare.append (List.Sublist.refl _)
  | @join _ _ _ sweep => cases sweep <;> exact hstops
  | list => simpa [Walk.stops, List.filter_map, Function.comp_def, Stage.unasked] using hbare
  | _ => exact hstops

/-! ## Runs -/

/-- What a walk that was not cut short keeps. -/
structure Audited (s : Shared) (walk : Walk) (stage : Stage) : Prop where
  balanced : (walk.ledger stage).Balanced
  aimed : stage.Aimed
  ready : stage.Ready walk
  gathered : ∀ shard found, stage.scanning = some (shard, found) → Gathered s shard found
  issued : ∀ signal ∈ walk.issued,
    signal.target = signal.wanted ∧ signal.wanted ∈ walk.sighted stage
  stops : (walk.stops ++ stage.unasked).Sublist walk.reported
  pursuit : walk.era = s.era → Pursuit s walk stage

theorem Filing.quiet_of_walk
    (hfiling : Filing s (.walk walk stage) s' (.walk walk' stage')) : Quiet s s' := by
  cases hfiling with
  | keep hquiet => exact hquiet
  | draw _ _ _ _ hclaim => cases hclaim
  | file hclaimed => cases hclaimed

theorem Audited.boarding (haudited : Audited s walk stage) (hleg : stage.leg = .boarding) :
    walk.reported = [] ∧ walk.outcomes = [] := by
  obtain ⟨hreported, houtcomes⟩ := haudited.balanced.empty hleg
  exact ⟨hreported, List.map_eq_nil_iff.mp houtcomes⟩

/-- Others' steps keep a walk's facts. -/
theorem Audited.frame (hgated : Gated state)
    (hsound : ∀ seq, (state.shared.incarnations seq).Sound state.shared.now)
    (hmem : .walk walk stage ∈ state.parties) {input : Input} (hplace : place ∈ state.parties)
    (htaken : next state.shared place input = some (s', place', entering))
    (haudited : Audited state.shared walk stage) : Audited s' walk stage := by
  have hfresh := hgated.fresh place hplace
  have hpassage := (next_passage hfresh htaken).1
  obtain ⟨hera, hshards, hhash⟩ := hpassage.era_le
  refine ⟨haudited.balanced, haudited.aimed, haudited.ready, fun shard found hscan => ?_,
    haudited.issued, haudited.stops, fun hown => ?_⟩
  · refine (haudited.gathered shard found hscan).filing (filing_next hfresh htaken) ?_
    funext id
    simp only [Shared.shard, hshards, hhash]
  · by_cases hentered : stage = .enter
    · subst hentered
      exact ⟨by rintro _ _ _ ⟨⟩, by simp [(haudited.boarding rfl).2]⟩
    · obtain ⟨tour, htour, heraTour, _⟩ := @Place.tour_walk walk stage hentered
      have htoured := hgated.tours _ hmem tour htour
      have heq : tour.era = state.shared.era :=
        le_antisymm htoured.era_le (by rw [heraTour, hown]; exact hera)
      have hphase : state.shared.phase ≠ .active := fun hactive => (htoured.active hactive).ne heq
      have hzero := hgated.admitted_zero hphase place hplace
      -- Nothing is drawn in a closed system.
      have hlater := (later_next (by rintro spec rfl; cases hzero) htaken).1
      exact (haudited.pursuit (heraTour ▸ heq)).ebbs ⟨(hpassage.closed hphase hzero).2.1,
        fun seq hended => ((hlater.ages seq).terminal (hsound seq) hended).1⟩

/-- Walks that step are in flight, so their era is the present one. -/
theorem Gated.era_of_flying (hgated : Gated state)
    (hmem : .walk walk stage ∈ state.parties) (hflying : stage.inFlight = true) :
    walk.era = state.shared.era ∧ ∀ roots, walk.first = some roots → ∀ id seq,
      state.shared.Holds id seq → (state.shared.incarnations seq).isRoot = true →
        seq ∈ roots.map Snapshot.seq := by
  have hentered : stage ≠ .enter := by
    rintro rfl
    cases hflying
  obtain ⟨tour, htour, hera, hfirst, hfly, _⟩ := @Place.tour_walk walk stage hentered
  have hsound := hgated.tours _ hmem tour htour
  have heq := hsound.flying (hfly.trans hflying)
  refine ⟨hera ▸ heq, fun roots hroots id seq hheld hroot => ?_⟩
  obtain ⟨root, hmem, _, hseq⟩ := hsound.cover heq roots (hfirst.trans hroots) id seq hheld hroot
  exact List.mem_map.mpr ⟨root, hmem, hseq⟩

section Step

variable {state : State} {walk walk' : Walk} {stage stage' : Stage} {s' : Shared}
  {input : WalkInput}

/-- A root that is still registered was reported: none comes late. -/
theorem Audited.ready_step (hgated : Gated state) (hfiled : Filed state)
    (hmem : .walk walk stage ∈ state.parties) (haudited : Audited state.shared walk stage)
    (hwalked : Walked walk state.shared stage input s' walk' stage') : stage'.Ready walk' := by
  have hnext {walk : Walk} (roots : List Snapshot) : (Walk.nextRoot roots).Ready walk := by
    cases roots <;> simp [Walk.nextRoot, Stage.Ready]
  cases hwalked with
  | visit => exact ((haudited.gathered _ _ rfl).visit hfiled _).nodup
  | look =>
    intro root hroot
    rcases List.mem_append.mp hroot with hold | hnew
    · exact haudited.ready root hold
    · obtain ⟨entry, hentry, _, hkeep, rfl⟩ := mem_snapshots.mp hnew
      obtain ⟨roots, hfirst⟩ : ∃ roots, walk.first = some roots := by
        refine Option.ne_none_iff_exists'.mp fun hnone => ?_
        cases haudited.balanced.boarding.mpr hnone
      have hreported : walk.reported = roots.map Snapshot.seq := by
        simpa [Walk.ledger, hfirst] using haudited.balanced.first
      rw [hreported]
      exact (hgated.era_of_flying hmem rfl).2 roots hfirst entry.key entry.seq
        ⟨entry, hentry, rfl, rfl⟩ hkeep
  | list =>
    refine ⟨((haudited.gathered _ _ rfl).visit hfiled _).nodup, fun root hroot => ?_⟩
    rcases List.mem_append.mp hroot with hold | hnew
    · exact haudited.ready.2 root hold
    · obtain ⟨entry, _, _, hkeep, rfl⟩ := mem_snapshots.mp hnew
      simpa using hkeep
  | enter | rooted | foldStore => simp [Stage.Ready]
  | board | report | late => exact hnext _
  | _ => trivial

theorem Audited.gathered_step (hfiled : Filed state) (haudited : Audited state.shared walk stage)
    (hwalked : Walked walk state.shared stage input s' walk' stage') :
    ∀ shard found, stage'.scanning = some (shard, found) → Gathered state.shared shard found := by
  intro shard found hscanning
  have hnext {roots : List Snapshot} (h : (Walk.nextRoot roots).scanning = some (shard, found)) :
      Gathered state.shared shard found := by
    cases roots <;> cases h
    exact .nil _
  cases hwalked with
  | visit | look | list =>
    cases hscanning
    exact (haudited.gathered _ _ rfl).visit hfiled _
  | enter | rooted | foldStore =>
    cases hscanning
    exact .nil _
  | board | report | late => exact hnext hscanning
  | _ => cases hscanning

/-- The signals a walk issues go to incarnations it has seen. -/
theorem Audited.issued_step (haudited : Audited state.shared walk stage)
    (hentered : Entered walk stage walk' stage') : ∀ signal ∈ walk'.issued,
      signal.target = signal.wanted ∧ signal.wanted ∈ walk'.sighted stage' := by
  obtain ⟨new, hissued, hnew⟩ := hentered.issued
  intro signal hsignal
  rw [hissued] at hsignal
  rcases List.mem_append.mp hsignal with hold | hlast
  · obtain ⟨htarget, hwanted⟩ := haudited.issued signal hold
    exact ⟨htarget, hentered.sighted hwanted⟩
  · obtain ⟨htarget, hpending | howed | hlisting⟩ := hnew signal hlast
    · refine ⟨htarget, hentered.sighted ?_⟩
      have hreported := haudited.balanced.outcomes.subset (List.mem_append_right _ hpending)
      exact List.mem_append_left _ (List.mem_append_left _ hreported)
    · refine ⟨htarget, hentered.sighted ?_⟩
      have hleftover := haudited.balanced.swept.subset (List.mem_append_right _ howed)
      exact List.mem_append_left _ (List.mem_append_right _ hleftover)
    · exact ⟨htarget, List.mem_append_right _ hlisting⟩

theorem Walked.inFlight (hwalked : Walked walk s stage input s' walk' stage')
    (hentered : stage ≠ .enter) : stage.inFlight = true := by
  cases hwalked with
  | enter => contradiction
  | cut _ hflying => exact hflying
  | _ => rfl

theorem Filed.missing (hfiled : Filed state) (hgone : state.shared.idEntry id seq = none) :
    ¬ state.shared.Holds id seq := by
  rintro ⟨entry, hentry, rfl, rfl⟩
  simp [Shared.idEntry, Keyed.find_of_mem hfiled.nodup hentry] at hgone

theorem Audited.step (hgated : Gated state) (hfiled : Filed state)
    (hmem : .walk walk stage ∈ state.parties) (haudited : Audited state.shared walk stage)
    (hcut : stage' ≠ .cutShort)
    (htaken : walk.step state.shared stage input = some (s', walk', stage')) :
    Audited s' walk' stage' := by
  have hwalked := Walk.walked htaken
  have hentered := hwalked.entered haudited.balanced haudited.aimed haudited.ready hcut
  have hnext : next state.shared (.walk walk stage) (.walk input) =
      some (s', .walk walk' stage', []) := by simp [next, htaken]
  have hfresh := hgated.fresh _ hmem
  have hfiling := filing_next hfresh hnext
  obtain ⟨_, hshards, hhash⟩ := (next_passage hfresh hnext).1.era_le
  have hebbs : Ebbs state.shared s' := by
    refine ⟨hfiling.quiet_of_walk.holds, fun seq hended => ?_⟩
    obtain ⟨lane, laneGone, heq, _⟩ := hwalked.touch.lanes.raised seq
    rwa [heq]
  have hpursuit : Pursuit state.shared walk stage := by
    by_cases hstage : stage = .enter
    · subst hstage
      exact ⟨nofun, by simp [(haudited.boarding rfl).2]⟩
    · exact haudited.pursuit (hgated.era_of_flying hmem (hwalked.inFlight hstage)).1
  refine ⟨hentered.posting.balanced haudited.balanced, hentered.aimed,
    haudited.ready_step hgated hfiled hmem hwalked, fun shard found hscanning => ?_,
    haudited.issued_step hentered, hwalked.stops (fun h => (haudited.boarding h).1) haudited.stops,
    fun _ => (hwalked.pursuit (fun _ _ => hfiled.missing) hpursuit).ebbs hebbs⟩
  refine (haudited.gathered_step hfiled hwalked shard found hscanning).filing hfiling ?_
  funext id
  simp only [Shared.shard, hshards, hhash]

end Step

variable {walk : Walk}

theorem walk_of_next {input : Input}
    (htaken : next s place input = some (s', .walk walk' stage', entering)) :
    ∃ walk stage winput, place = .walk walk stage ∧ input = .walk winput ∧ entering = [] ∧
      walk.step s stage winput = some (s', walk', stage') := by
  cases took_of_next htaken with
  | @walk walk _ stage _ input _ hstep => exact ⟨walk, stage, input, rfl, rfl, rfl, hstep⟩

theorem walk_of_entering {input : Input} (htaken : next s place input = some (s', place', entering))
    (hentering : .walk walk stage ∈ entering) : stage = .enter ∧
      ∃ perActorTimeout deadline, walk =
        { perActorTimeout := perActorTimeout, deadline := deadline } := by
  cases took_of_next htaken with
  | shutdown =>
    obtain ⟨rfl, rfl⟩ : walk = _ ∧ stage = _ := by simpa using hentering
    exact ⟨rfl, _, _, rfl⟩
  | spawn _ heq => rcases heq with rfl | ⟨_, _, _, rfl⟩ <;> simp at hentering
  | _ => simp at hentering

theorem Audited.begins (s : Shared) (perActorTimeout : Nat) (deadline : Instant) :
    Audited s { perActorTimeout := perActorTimeout, deadline := deadline } .enter := by
  refine ⟨?_, trivial, trivial, nofun, nofun, .refl _, fun _ => ⟨nofun, nofun⟩⟩
  constructor <;> simp [Walk.ledger, Stage.pending, Stage.climbing, Stage.leg, Stage.forced,
    Stage.owed]

/-- Every walk that was not cut short keeps its facts. -/
theorem Reaches.audited {allowed : State → Nat × Input → Prop} {systemName : String} {shards : ℕ+}
    {hash : ActorId → Nat} (hreach : Reaches allowed systemName shards hash state)
    (hmem : .walk walk stage ∈ state.parties) (hcut : stage ≠ .cutShort) :
    Audited state.shared walk stage := by
  refine @each_reached _ _ _ next allowed _ state (fun s place => ∀ walk stage,
    place = .walk walk stage → stage ≠ .cutShort → Audited s walk stage) ?_ ?_ hreach _ hmem walk
    stage rfl hcut
  · rintro place hplace walk stage rfl
    simp [init] at hplace
  · intro state i input place place' s' entering hbefore haudited _ hplace htaken
    have hgated := Reaches.gated hbefore
    have hfiled := Reaches.filed hbefore
    have hmem : place ∈ state.parties := List.mem_of_getElem? hplace
    refine ⟨?_, ?_, ?_⟩
    · rintro j other _ hj walk stage rfl hcut
      have hother := List.mem_of_getElem? hj
      exact (haudited _ hother walk stage rfl hcut).frame hgated (Reaches.sound hbefore) hother hmem
        htaken
    · rintro walk' stage' rfl hcut
      obtain ⟨walk, stage, winput, rfl, _, _, hstep⟩ := walk_of_next htaken
      have hcut' : stage ≠ .cutShort := by
        rintro rfl
        cases winput <;> cases hstep
      exact (haudited _ hmem walk stage rfl hcut').step hgated hfiled hmem hcut hstep
    · rintro other hother walk stage rfl hcut
      obtain ⟨rfl, perActorTimeout, deadline, rfl⟩ := walk_of_entering htaken hother
      exact .begins s' perActorTimeout deadline

/-! ## Completed walks -/

section Completed

variable {allowed : State → Nat × Input → Prop} {systemName : String} {shards : ℕ+}
  {hash : ActorId → Nat} {state : State}

end Completed

def finishedWalk (state : State) (i : Nat) : Option Walk :=
  match state.parties[i]? with
  | some (.walk walk .finished) => some walk
  | _ => none

theorem getElem?_of_finishedWalk {i : Nat} (hwalk : finishedWalk state i = some walk) :
    state.parties[i]? = some (.walk walk .finished) := by
  unfold finishedWalk at hwalk
  split at hwalk <;> cases hwalk
  assumption

end TokioActors.System
