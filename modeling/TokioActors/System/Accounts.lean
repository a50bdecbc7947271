/-
# What a shutdown reports

A shutdown owes one report for each root of its first snapshot and one for each
incarnation it listed at the sweep. What it has reported and what it still owes
stay a permutation of what it took on, through the sequential ladder, the cut to
a concurrent sweep, failing tasks and the sweep of the leftovers; and every
signal goes to the incarnation that was snapshotted.
-/

import TokioActors.System.Filing

namespace TokioActors.System

open Machine.Pool Snapshot Walk

/-! ## What is owed -/

/-- The legs of a walk: up to its first snapshot, up to the listing of the
leftovers, and from there on. -/
inductive Leg
  | boarding
  | rooting
  | sweeping
  deriving DecidableEq

def sweepSeqs (targets : List Target) (tasks : List Force) : List Seq :=
  targets.map (fun target => target.snapshot.seq) ++ tasks.map fun task => task.target.seq

namespace Stage

def leg : Stage → Leg
  | enter => .boarding
  | snapshot _ _ => .boarding
  | launch sweep _ _ => if sweep.isSome then .sweeping else .rooting
  | launchRaise sweep _ _ _ _ => if sweep.isSome then .sweeping else .rooting
  | launchAbort sweep _ _ _ => if sweep.isSome then .sweeping else .rooting
  | join sweep _ => if sweep.isSome then .sweeping else .rooting
  | waits _ _ => .sweeping
  | classify _ _ => .sweeping
  | leave => .sweeping
  | finished => .sweeping
  | _ => .rooting

/-- The incarnations of the force sweep the walk is in. -/
def forced : Stage → List Seq
  | launch _ targets tasks => sweepSeqs targets tasks
  | launchRaise _ target rest tasks _ => sweepSeqs (target :: rest) tasks
  | launchAbort _ target rest tasks => sweepSeqs (target :: rest) tasks
  | join _ tasks => sweepSeqs [] tasks
  | _ => []

/-- The roots the ladder has not reported. -/
def climbing : Stage → List Seq
  | ladder root rest _ => (root :: rest).map seq
  | _ => []

def pending (stage : Stage) : List Seq :=
  stage.climbing ++ if stage.leg = .sweeping then [] else stage.forced

def owed : Stage → List Seq
  | waits tasks waited =>
    tasks.map (fun task => task.target.seq) ++ waited.map fun joined => joined.2.1.seq
  | classify waited stragglers =>
    waited.map (fun joined => joined.1.seq) ++ stragglers.map fun target => target.snapshot.seq
  | stage => if stage.leg = .sweeping then stage.forced else []

end Stage

variable {walk walk' : Walk} {s s' : Shared} {tasks : List Force} {stage' stage : Stage}
  {task : Force} {sweep : Option Instant} {k : Nat} {root : Snapshot} {rest : List Snapshot}
  {ladder : Ladder} {target : Target} {fired : Bool} {report : StopReport}

/-- What a walk has reported and what it owes. -/
structure Ledger where
  leg : Leg
  first : Option (List Snapshot)
  reported : List Seq
  /-- The reported roots, and whether the ladder reported them. -/
  outcomes : List (Seq × Bool)
  pending : List Seq
  climbing : List Seq
  leftover : List Seq
  swept : List Seq
  owed : List Seq

def Walk.ledger (walk : Walk) (stage : Stage) : Ledger where
  leg := stage.leg
  first := walk.first
  reported := walk.reported
  outcomes := walk.outcomes.map fun outcome => (outcome.seq, outcome.byLadder)
  pending := stage.pending
  climbing := stage.climbing
  leftover := walk.leftover.map seq
  swept := walk.swept.map Outcome.seq
  owed := stage.owed

structure Ledger.Balanced (l : Ledger) : Prop where
  outcomes : (l.outcomes.map Prod.fst ++ l.pending).Perm l.reported
  swept : (l.swept ++ l.owed).Perm l.leftover
  first : l.reported = (l.first.getD []).map seq
  boarding : l.leg = .boarding ↔ l.first = none
  order : l.reported.Pairwise (· > ·)
  ladder : ((l.outcomes.filter Prod.snd).map Prod.fst ++ l.climbing) <+: l.reported
  listed : l.leg ≠ .sweeping → l.leftover = []
  nodup : l.leftover.Nodup
  disjoint : ∀ seq ∈ l.leftover, seq ∉ l.reported

inductive Posting (l : Ledger) : Ledger → Prop
  | idle {pending climbing owed : List Seq} (pended : pending.Perm l.pending)
      (climbed : climbing = l.climbing ∨ climbing = []) (owes : owed.Perm l.owed) :
      Posting l { l with pending := pending, climbing := climbing, owed := owed }
  | take {roots : List Snapshot} (leg : l.leg = .boarding)
      (order : (roots.map seq).Pairwise (· > ·)) :
      Posting l { l with
        leg := .rooting
        first := some roots
        reported := roots.map seq
        pending := roots.map seq
        climbing := roots.map seq }
  | climb {seq : Seq} {rest : List Seq} (pending : l.pending = seq :: rest)
      (climbing : l.climbing = seq :: rest) :
      Posting l { l with
        outcomes := l.outcomes ++ [(seq, true)]
        pending := rest
        climbing := rest }
  | settle {seq : Seq} {rest : List Seq} (pending : l.pending.Perm (seq :: rest)) :
      Posting l { l with outcomes := l.outcomes ++ [(seq, false)], pending := rest, climbing := [] }
  | list {found : List Seq} (leg : l.leg = .rooting)
      (nodup : found.Nodup) (fresh : ∀ seq ∈ found, seq ∉ l.reported) :
      Posting l { l with leg := .sweeping, leftover := found, owed := found }
  | sweep {seq : Seq} {rest : List Seq} (owed : l.owed.Perm (seq :: rest)) :
      Posting l { l with swept := l.swept ++ [seq], owed := rest }

theorem Ledger.Balanced.empty {l : Ledger} (hbalanced : l.Balanced) (hleg : l.leg = .boarding) :
    l.reported = [] ∧ l.outcomes = [] := by
  have hreported : l.reported = [] := by
    simpa [hbalanced.boarding.mp hleg] using hbalanced.first
  have houtcomes := (hreported ▸ hbalanced.outcomes).eq_nil
  exact ⟨hreported, by simpa using (List.append_eq_nil_iff.mp houtcomes).1⟩

/-- Every posting keeps the balance. -/
theorem Posting.balanced {l l' : Ledger} (hposting : Posting l l') (hbalanced : l.Balanced) :
    l'.Balanced := by
  have hempty := hbalanced.empty
  obtain ⟨houtcomes, hswept, hfirst, hboarding, horder, hladder, hlisted, hnodup, hdisjoint⟩ :=
    hbalanced
  cases hposting with
  | idle hpended hclimbed howes =>
    refine ⟨(List.Perm.append_left _ hpended).trans houtcomes,
      (List.Perm.append_left _ howes).trans hswept, hfirst, hboarding, horder, ?_, hlisted, hnodup,
      hdisjoint⟩
    rcases hclimbed with rfl | rfl
    · exact hladder
    · simpa using (List.prefix_append _ _).trans hladder
  | take hleg hroots =>
    have hnil := (hempty hleg).2
    have hleft : l.leftover = [] := hlisted (by simp [hleg])
    refine ⟨by simp [hnil], hswept, rfl, by simp, hroots, by simp [hnil], fun _ => hleft, hnodup,
      ?_⟩
    simp [hleft]
  | climb hpending hclimbing =>
    refine ⟨?_, hswept, hfirst, hboarding, horder, ?_, hlisted, hnodup, hdisjoint⟩
    · simpa [hpending] using houtcomes
    · simpa [hclimbing] using hladder
  | settle hpending =>
    refine ⟨?_, hswept, hfirst, hboarding, horder, ?_, hlisted, hnodup, hdisjoint⟩
    · simpa using (List.Perm.append_left _ hpending.symm).trans houtcomes
    · simpa using (List.prefix_append _ _).trans hladder
  | list hleg hfound hfresh =>
    have hnil : l.leftover = [] := hlisted (by simp [hleg])
    rw [hnil] at hswept
    have hempty : l.swept = [] := (List.append_eq_nil_iff.mp hswept.eq_nil).1
    refine ⟨houtcomes, by simp [hempty], hfirst, ?_, horder, hladder, nofun, hfound, hfresh⟩
    simp only [reduceCtorEq, false_iff]
    rw [← hboarding, hleg]
    exact nofun
  | sweep howed =>
    refine ⟨houtcomes, ?_, hfirst, hboarding, horder, hladder, hlisted, hnodup, hdisjoint⟩
    simpa using (List.Perm.append_left _ howed.symm).trans hswept

/-! ## What the walk aims at -/

/-- The task's abort handle is its target's. -/
def Force.Aimed (task : Force) : Prop :=
  ∀ handle, task.abort = some handle → handle = task.target.seq

/-- The signals under way go to the incarnations they were meant for. -/
def Stage.Aimed : Stage → Prop
  | .ladder root _ (.stopRaise lane) => lane = root.seq
  | .ladder root _ (.killRaise raiser) => raiser.seq = root.seq
  | .launch _ _ tasks => ∀ task ∈ tasks, task.Aimed
  | .launchRaise _ target _ tasks raiser =>
    raiser.seq = target.snapshot.seq ∧ ∀ task ∈ tasks, task.Aimed
  | .launchAbort _ _ _ tasks => ∀ task ∈ tasks, task.Aimed
  | .join _ tasks => ∀ task ∈ tasks, task.Aimed
  | _ => True

/-- The leftovers found so far. -/
def Stage.listing : Stage → List Seq
  | list _ found => found.map seq
  | _ => []

/-- The incarnations a walk has seen in a snapshot. -/
def Walk.sighted (walk : Walk) (stage : Stage) : List Seq :=
  walk.reported ++ walk.leftover.map seq ++ stage.listing

structure Entered (walk : Walk) (stage : Stage) (walk' : Walk) (stage' : Stage) : Prop where
  posting : Posting (walk.ledger stage) (walk'.ledger stage')
  sighted : walk.sighted stage ⊆ walk'.sighted stage'
  issued : ∃ new, walk'.issued = walk.issued ++ new ∧ ∀ signal ∈ new,
    signal.target = signal.wanted ∧
      (signal.wanted ∈ stage.pending ∨ signal.wanted ∈ stage.owed ∨ signal.wanted ∈ stage'.listing)
  aimed : stage'.Aimed

theorem Entered.idle {walk walk' : Walk} {stage stage' : Stage} {new : List Issued}
    (hwalk : walk' = { walk with issued := walk.issued ++ new }) (hleg : stage'.leg = stage.leg)
    (hpending : stage'.pending.Perm stage.pending)
    (hclimbing : stage'.climbing = stage.climbing ∨ stage'.climbing = [])
    (howed : stage'.owed.Perm stage.owed) (hlisting : stage.listing ⊆ stage'.listing)
    (hnew : ∀ signal ∈ new, signal.target = signal.wanted ∧ (signal.wanted ∈ stage.pending ∨
      signal.wanted ∈ stage.owed ∨ signal.wanted ∈ stage'.listing))
    (haimed : stage'.Aimed) : Entered walk stage walk' stage' := by
  subst hwalk
  refine ⟨?_, List.append_subset.mpr ⟨List.subset_append_left _ _,
    List.Subset.trans hlisting (List.subset_append_right _ _)⟩, ⟨new, rfl, hnew⟩, haimed⟩
  unfold ledger
  rw [hleg]
  exact .idle hpending hclimbing howed

/-- A step that leaves the walk alone, and of what it owes only the order. -/
theorem Entered.still (hleg : stage'.leg = stage.leg) (hpending : stage'.pending = stage.pending)
    (hclimbing : stage'.climbing = stage.climbing) (howed : stage'.owed.Perm stage.owed)
    (hlisting : stage'.listing = stage.listing) (haimed : stage'.Aimed) :
    Entered walk stage walk stage' :=
  @Entered.idle _ _ _ _ [] (by simp) hleg (.of_eq hpending) (.inl hclimbing) howed
    (hlisting ▸ List.Subset.refl _) (by simp) haimed

theorem Entered.rung {walk walk' : Walk} {root : Snapshot} {rest : List Snapshot}
    {ladder ladder' : Ladder} {new : List Issued}
    (hwalk : walk' = { walk with issued := walk.issued ++ new })
    (hnew : ∀ signal ∈ new, signal.target = root.seq ∧ signal.wanted = root.seq)
    (haimed : (Stage.ladder root rest ladder').Aimed) :
    Entered walk (.ladder root rest ladder) walk' (.ladder root rest ladder') := by
  refine .idle hwalk rfl (.refl _) (.inl rfl) (.refl _) (List.Subset.refl _) ?_ haimed
  intro signal hsignal
  obtain ⟨htarget, hwanted⟩ := hnew signal hsignal
  refine ⟨htarget.trans hwanted.symm, .inl ?_⟩
  simp [Stage.pending, Stage.climbing, hwanted]

theorem Entered.reported :
    Entered walk (.ladder root rest ladder) (walk.ladderReport root report) (nextRoot rest) := by
  refine ⟨?_, ?_, ⟨[], by simp [ladderReport], by simp⟩, ?_⟩
  · have hposting : Posting (walk.ledger (.ladder root rest ladder)) _ :=
      @Posting.climb _ root.seq (rest.map seq) (by simp [ledger, Stage.pending,
        Stage.climbing, Stage.leg, Stage.forced]) rfl
    cases rest <;> simpa [ledger, ladderReport, nextRoot, Stage.leg, Stage.pending,
      Stage.climbing, Stage.owed, Stage.forced] using hposting
  · cases rest <;> exact List.Subset.refl _
  · cases rest <;> trivial

theorem Entered.cut {raised : Bool} :
    Entered walk (.ladder root rest ladder) walk (cutLadder root rest raised) := by
  refine @Entered.idle _ _ _ _ [] (by simp) rfl (.of_eq ?_) (.inr rfl) (.refl _)
    (List.Subset.refl _) (by simp) (by simp [cutLadder, Stage.Aimed])
  simp [Stage.pending, Stage.climbing, cutLadder, Stage.leg, Stage.forced, sweepSeqs,
    Function.comp_def]

/-! ## Every step is entered -/

theorem Raiser.step_seq {raiser raiser' : Raiser}
    (htaken : raiser.step s = some (s', raiser')) : raiser'.seq = raiser.seq := by
  cases Raiser.takes htaken <;> rfl

/-- The stages of a force sweep. -/
def Stage.forcing : Stage → Bool
  | launch _ _ _ => true
  | launchRaise _ _ _ _ _ => true
  | launchAbort _ _ _ _ => true
  | join _ _ => true
  | _ => false

theorem Stage.of_forcing (hforcing : stage.forcing = true) :
    stage.climbing = [] ∧ stage.listing = [] ∧
      stage.pending = (if stage.leg = .sweeping then [] else stage.forced) ∧
      stage.owed = if stage.leg = .sweeping then stage.forced else [] := by
  cases stage with
  | launch | launchRaise | launchAbort | join => exact ⟨rfl, rfl, rfl, rfl⟩
  | _ => cases hforcing

theorem Entered.forced {walk walk' : Walk} {stage stage' : Stage} {new : List Issued}
    (hstage : stage.forcing = true) (hstage' : stage'.forcing = true)
    (hwalk : walk' = { walk with issued := walk.issued ++ new }) (hleg : stage'.leg = stage.leg)
    (hforced : stage'.forced.Perm stage.forced)
    (hnew : ∀ signal ∈ new, signal.target = signal.wanted ∧ signal.wanted ∈ stage.forced)
    (haimed : stage'.Aimed) : Entered walk stage walk' stage' := by
  obtain ⟨hclimbing, hlisting, hpending, howed⟩ := Stage.of_forcing hstage
  obtain ⟨hclimbing', hlisting', hpending', howed'⟩ := Stage.of_forcing hstage'
  refine .idle hwalk hleg ?_ (.inr hclimbing') ?_ (by simp [hlisting]) ?_ haimed
  · rw [hpending, hpending', hleg]
    split
    · exact .refl _
    · exact hforced
  · rw [howed, howed', hleg]
    split
    · exact hforced
    · exact .refl _
  · intro signal hsignal
    refine ⟨(hnew signal hsignal).1, ?_⟩
    rw [hpending, howed]
    split
    · exact .inr (.inl (hnew signal hsignal).2)
    · exact .inl (hnew signal hsignal).2

theorem sweepSeqs_spawned {rest : List Target} (htask : task.target = target.snapshot) :
    (sweepSeqs rest (tasks ++ [task])).Perm (sweepSeqs (target :: rest) tasks) := by
  simp only [sweepSeqs, List.map_append, List.map_cons, List.map_nil, htask, ← List.append_assoc,
    List.cons_append]
  exact List.perm_append_singleton _ _

theorem Force.aimed_append (htasks : ∀ task ∈ tasks, task.Aimed) (htask : task.Aimed) :
    ∀ other ∈ tasks ++ [task], other.Aimed := by
  intro other hother
  rcases List.mem_append.mp hother with hold | hnew
  · exact htasks other hold
  · exact List.mem_singleton.mp hnew ▸ htask

theorem Force.step_target {task' : Force} (htaken : task.step s fired = some task') :
    task'.target = task.target ∧ task'.abort = task.abort := by
  unfold Force.step at htaken
  dsimp only at htaken
  split at htaken
  all_goals try split at htaken
  all_goals try split at htaken
  all_goals cases htaken
  all_goals exact ⟨rfl, rfl⟩

theorem sweepSeqs_set {task' : Force}
    (htask : tasks[k]? = some task) (htarget : task'.target = task.target) :
    sweepSeqs [] (tasks.set k task') = sweepSeqs [] tasks := by
  obtain ⟨hk, rfl⟩ := List.getElem?_eq_some_iff.mp htask
  simp only [sweepSeqs, List.map_nil, List.nil_append, List.map_set, htarget]
  rw [← List.map_set, List.set_getElem_self]

theorem Force.aimed_set {task' : Force} (htasks : ∀ task ∈ tasks, task.Aimed)
    (htask : task'.Aimed) : ∀ other ∈ tasks.set k task', other.Aimed := by
  intro other hother
  rcases List.mem_or_eq_of_mem_set hother with hold | rfl
  · exact htasks other hold
  · exact htask

theorem Entered.force {task' : Force} {new : List Issued} (haimed : ∀ task ∈ tasks, task.Aimed)
    (htask : tasks[k]? = some task) (hkeeps : task'.target = task.target ∧ task'.abort = task.abort)
    (hwalk : walk' = { walk with issued := walk.issued ++ new })
    (hnew : ∀ signal ∈ new, signal.target = signal.wanted ∧ signal.wanted = task.target.seq) :
    Entered walk (.join sweep tasks) walk' (.join sweep (tasks.set k task')) := by
  have hmem : task ∈ tasks := List.mem_of_getElem? htask
  refine .forced rfl rfl hwalk rfl (.of_eq (sweepSeqs_set htask hkeeps.1))
    (fun signal hsignal => ?_) (Force.aimed_set haimed fun handle hhandle => ?_)
  · obtain ⟨htarget, hwanted⟩ := hnew signal hsignal
    exact ⟨htarget, List.mem_append_right _ (List.mem_map.mpr ⟨task, hmem, hwanted.symm⟩)⟩
  · rw [hkeeps.1]
    exact haimed task hmem handle (hkeeps.2 ▸ hhandle)

/-- What a snapshot under way holds: distinct incarnations, and for the late
roots only reported ones, for the leftovers none of those. -/
def Stage.Ready (walk : Walk) : Stage → Prop
  | snapshot _ found => (found.map seq).Nodup
  | late _ found => ∀ root ∈ found, root.seq ∈ walk.reported
  | list _ found => (found.map seq).Nodup ∧ ∀ root ∈ found, root.seq ∉ walk.reported
  | _ => True

/-- The roots of a snapshot, newest first, are strictly ordered. -/
theorem newestFirst_order {roots : List Snapshot} (hnodup : (roots.map seq).Nodup) :
    ((newestFirst roots).map seq).Pairwise (· > ·) := by
  have hsorted : (newestFirst roots).Pairwise fun first second => second.seq ≤ first.seq :=
    List.pairwise_insertionSort _ _
  have hdistinct : ((newestFirst roots).map seq).Nodup :=
    ((newestFirst_perm roots).map _).nodup_iff.mpr hnodup
  rw [List.pairwise_map]
  refine (hsorted.and (List.pairwise_map.mp hdistinct)).imp ?_
  rintro first second ⟨hle, hne⟩
  exact lt_of_le_of_ne hle (Ne.symm hne)

theorem Walk.entered_joined (htask : tasks[k]? = some task) (haimed : ∀ task ∈ tasks, task.Aimed) :
    Entered walk (.join sweep tasks) (walk.joined sweep task report)
      (.join sweep (tasks.eraseIdx k)) := by
  obtain ⟨hk, rfl⟩ := List.getElem?_eq_some_iff.mp htask
  have hperm : (sweepSeqs [] tasks).Perm
      (tasks[k].target.seq :: sweepSeqs [] (tasks.eraseIdx k)) :=
    ((List.getElem_cons_eraseIdx_perm hk).map fun task : Force => task.target.seq).symm
  have haimed' : (Stage.join sweep (tasks.eraseIdx k)).Aimed := fun other hother =>
    haimed other (List.eraseIdx_subset hother)
  cases sweep with
  | none =>
    refine ⟨?_, List.Subset.refl _, ⟨[], by simp [joined], by simp⟩, haimed'⟩
    simp only [ledger, joined, List.map_append, List.map_cons, List.map_nil]
    exact .settle hperm
  | some =>
    refine ⟨?_, List.Subset.refl _, ⟨[], by simp [joined], by simp⟩, haimed'⟩
    simp only [ledger, joined, List.map_append, List.map_cons, List.map_nil]
    exact .sweep hperm

/-- The waits of the leftovers, in the order of the listing. -/
theorem Walk.startWaits_seqs (walk : Walk) :
    walk.startWaits.map (fun task => task.target.seq) = walk.leftover.map seq := by
  unfold startWaits
  rw [List.map_map]
  conv_rhs => rw [← List.zipIdx_map_fst 0 walk.leftover, List.map_map]
  rfl

theorem Walk.inOrder_perm (waited : List (Nat × Snapshot × Bool)) :
    ((inOrder waited).map fun joined => joined.1.seq).Perm
      (waited.map fun joined => joined.2.1.seq) := by
  unfold inOrder
  rw [List.map_map]
  exact (List.perm_insertionSort _ waited).map _

/-- Replacing a wait task by a later one of the same target. -/
theorem Wait.step_target {task task' : Wait}
    (htaken : task.step s fired = some task') : task'.target = task.target := by
  unfold Wait.step at htaken
  dsimp only at htaken
  split at htaken
  all_goals try split at htaken
  all_goals try split at htaken
  all_goals cases htaken
  all_goals rfl

theorem Entered.waiting {tasks : List Wait} {task task' : Wait}
    {waited : List (Nat × Snapshot × Bool)} (htask : tasks[k]? = some task)
    (htarget : task'.target = task.target) :
    Entered walk (.waits tasks waited) walk (.waits (tasks.set k task') waited) := by
  refine .still rfl rfl rfl (.of_eq ?_) rfl trivial
  obtain ⟨hk, rfl⟩ := List.getElem?_eq_some_iff.mp htask
  simp only [Stage.owed, List.map_set, htarget]
  rw [← List.map_set, List.set_getElem_self]

theorem Entered.waited {tasks : List Wait} {task : Wait} {ended : Bool}
    {waited : List (Nat × Snapshot × Bool)} (htask : tasks[k]? = some task) :
    Entered walk (.waits tasks waited) walk
      (.waits (tasks.eraseIdx k) (waited ++ [(task.index, task.target, ended)])) := by
  refine .still rfl rfl rfl ?_ rfl trivial
  obtain ⟨hk, rfl⟩ := List.getElem?_eq_some_iff.mp htask
  simp only [Stage.owed, List.map_append, List.map_cons, List.map_nil, ← List.append_assoc]
  refine (List.perm_append_singleton _ _).trans ?_
  rw [← List.cons_append]
  exact ((List.getElem_cons_eraseIdx_perm hk).map fun task : Wait => task.target.seq).append_right _

theorem Stage.of_nextRoot (roots : List Snapshot) :
    (nextRoot roots).pending = roots.map seq ∧
      (nextRoot roots).climbing = roots.map seq ∧
      (nextRoot roots).leg = .rooting ∧ (nextRoot roots).owed = [] ∧
      (nextRoot roots).Aimed := by
  cases roots with
  | nil => exact ⟨rfl, rfl, rfl, rfl, trivial⟩
  | cons => exact ⟨List.append_nil _, rfl, rfl, rfl, trivial⟩

theorem Stage.aimed_of_plain (hplain : ladder.acts = false) :
    (Stage.ladder root rest ladder).Aimed := by
  cases ladder <;> trivial

/-- No root comes late when the roots found were reported. -/
theorem Walk.lateRoots_eq_nil {found : List Snapshot}
    (hready : ∀ root ∈ found, root.seq ∈ walk.reported) : walk.lateRoots found = [] := by
  unfold lateRoots
  rw [List.filter_eq_nil_iff.mpr fun root hroot => by simpa using hready root hroot]
  rfl

/-- A walk's step that does not cut it short enters its ledger. -/
theorem Walked.entered {input : WalkInput} (hbalanced : (walk.ledger stage).Balanced)
    (haimed : stage.Aimed) (hready : stage.Ready walk) (hcut : stage' ≠ .cutShort)
    (hwalked : Walked walk s stage input s' walk' stage') : Entered walk stage walk' stage' := by
  -- A signal on the entry that was found goes to the root of the ladder.
  have hissues {root : Snapshot} {rest : List Snapshot} {ladder ladder' : Ladder} {signal : Signal}
      {entry : Entry ActorId} (hentry : s.idEntry root.id root.seq = some entry)
      (haims : (Stage.ladder root rest ladder').Aimed) :
      Entered walk (.ladder root rest ladder) (walk.issue signal entry.seq root.seq)
        (.ladder root rest ladder') :=
    @Entered.rung _ _ _ _ _ _ [⟨signal, entry.seq, root.seq⟩] rfl
      (by simp [Shared.seq_of_idEntry hentry]) haims
  cases hwalked with
  | enter | foldStore =>
    exact ⟨.idle (.refl _) (.inl rfl) (.refl _), List.Subset.refl _, ⟨[], by simp, by simp⟩,
      trivial⟩
  | board =>
    obtain ⟨hpending, hclimbing, hleg, howed, haims⟩ := Stage.of_nextRoot (newestFirst _)
    have hempty : walk.reported = [] := (hbalanced.empty rfl).1
    refine ⟨?_, by simp [sighted, hempty, Stage.listing], ⟨[], by simp, by simp⟩, haims⟩
    simp only [ledger, hpending, hclimbing, hleg, howed]
    exact .take rfl (newestFirst_order hready)
  | rung _ hplain =>
    exact @Entered.rung _ _ _ _ _ _ [] (by simp) (by simp) (Stage.aimed_of_plain hplain)
  | stop hfound | kill hfound => exact hissues hfound (Shared.seq_of_idEntry hfound)
  | abort hfound => exact hissues hfound trivial
  | ask => exact @Entered.rung _ _ _ _ _ _ [] (by simp) (by simp) trivial
  | raise htaken =>
    exact @Entered.rung _ _ _ _ _ _ [] (by simp) (by simp) ((Raiser.step_seq htaken).trans haimed)
  | report => exact .reported
  | cutLadder => exact .cut
  | launched => exact @Entered.forced _ _ _ _ [] rfl rfl (by simp) rfl (.refl _) (by simp) haimed
  | spawn =>
    exact @Entered.forced _ _ _ _ [] rfl rfl (by simp) rfl (sweepSeqs_spawned rfl) (by simp)
      (Force.aimed_append haimed nofun)
  | @sight entry _ target _ _ hfound =>
    have hseq : entry.seq = target.snapshot.seq := Shared.seq_of_idEntry hfound
    refine @Entered.forced _ _ _ _ [⟨.kill, entry.seq, target.snapshot.seq⟩] rfl rfl rfl rfl
      (.refl _) ?_ ⟨hseq, haimed⟩
    simp [hseq, Stage.forced, sweepSeqs]
  | press htaken =>
    exact @Entered.forced _ _ _ _ [] rfl rfl (by simp) rfl (.refl _) (by simp)
      ⟨(Raiser.step_seq htaken).trans haimed.1, haimed.2⟩
  | accept =>
    refine @Entered.forced _ _ _ _ [] rfl rfl (by simp) rfl (sweepSeqs_spawned rfl) (by simp)
      (Force.aimed_append haimed.2 fun handle hhandle => ?_)
    simp only at hhandle
    split at hhandle <;> cases hhandle
    exact haimed.1
  | refuse => exact @Entered.forced _ _ _ _ [] rfl rfl (by simp) rfl (.refl _) (by simp) haimed.2
  | fetch hown =>
    exact @Entered.forced _ _ _ _ [] rfl rfl (by simp) rfl (sweepSeqs_spawned rfl) (by simp)
      (Force.aimed_append haimed hown)
  | force hfound htaken =>
    exact @Entered.force _ _ _ _ _ _ _ [] haimed hfound (Force.step_target htaken) (by simp)
      (by simp)
  | @forceAbort _ _ task _ handle _ _ _ hfound htaken hheld =>
    refine @Entered.force _ _ _ _ _ _ _ [⟨.abort, handle, task.target.seq⟩] haimed hfound
      (Force.step_target htaken) rfl ?_
    simpa using haimed task (List.mem_of_getElem? hfound) handle hheld
  | forceFails hfound =>
    exact @Entered.force _ _ _ _ _ _ _ [] haimed hfound ⟨rfl, rfl⟩ (by simp) (by simp)
  | join hfound => exact entered_joined hfound haimed
  | late hsome => exact absurd (lateRoots_eq_nil hready) hsome
  | @list shard found =>
    refine .idle rfl rfl (.refl _) (.inl rfl) (.refl _) (by simp [Stage.listing]) ?_ trivial
    simp only [List.mem_map, List.mem_filter]
    rintro _ ⟨entry, ⟨hmem, hkeep⟩, rfl⟩
    refine ⟨rfl, .inr (.inr ?_)⟩
    simp only [Stage.listing, List.map_append, List.mem_append]
    refine .inr (List.mem_map.mpr ⟨_, mem_snapshots.mpr ⟨entry, hmem, ?_, ?_, rfl⟩, rfl⟩)
    · simp_all
    · simp_all
  | @listed _ found =>
    have hnone : walk.leftover = [] := by
      simpa [ledger] using hbalanced.listed (by simp [ledger, Stage.leg])
    have howed : (Stage.waits ({ walk with leftover := found } : Walk).startWaits []).owed =
        found.map seq := by
      simpa [Stage.owed] using startWaits_seqs { walk with leftover := found }
    refine ⟨?_, by simp [sighted, Stage.listing, hnone], ⟨[], by simp, by simp⟩, trivial⟩
    simp only [ledger, howed]
    exact .list rfl hready.1 (by simpa using hready.2)
  | wait hfound htaken => exact .waiting hfound (Wait.step_target htaken)
  | waitFails hfound => exact .waiting hfound rfl
  | waited hfound => exact .waited hfound
  | @sort waited =>
    exact .still rfl rfl rfl (by simpa [Stage.owed] using inOrder_perm waited) rfl trivial
  | ended =>
    refine ⟨?_, List.Subset.refl _, ⟨[], by simp, by simp⟩, trivial⟩
    simp only [ledger, List.map_append, List.map_cons, List.map_nil]
    exact .sweep (.refl _)
  | straggler =>
    refine .still rfl rfl rfl ?_ rfl trivial
    simp only [Stage.owed, List.map_append, List.map_cons, List.map_nil, ← List.append_assoc,
      List.cons_append]
    exact List.perm_append_singleton _ _
  | forceOn =>
    refine .still rfl rfl rfl (.of_eq ?_) rfl (by simp [Stage.Aimed])
    simp [Stage.owed, Stage.leg, Stage.forced, sweepSeqs]
  | cut => exact absurd rfl hcut
  | _ => exact .still rfl rfl rfl (.refl _) rfl trivial

end TokioActors.System
