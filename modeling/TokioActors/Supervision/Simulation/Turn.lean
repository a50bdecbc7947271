/-
# A turn of the worklist as moves

Every route a report can take ends the turn it is handled in.
-/

import TokioActors.Supervision.Simulation.Strategy

namespace TokioActors

open SupervisionState

variable {rules : Rules} {c : Config} {ev : Report} {work : List Report} {drop : Option String}
  {child : Child} {sup : SupervisionState} {id : ActorId}

/-! ## The failure of an attempt -/

/-- Two children agree on all that decides about an end. -/
def Child.Alike (child other : Child) : Prop :=
  child.lifecycle = other.lifecycle ∧ child.restartType = other.restartType ∧
    child.origin = other.origin

theorem get_noteSubtree {other : ActorId} {entry : Child}
    (hget : (sup.noteSubtree id).registry.get other = some entry) :
    ∃ old, sup.registry.get other = some old ∧ entry.Alike old := by
  unfold SupervisionState.noteSubtree Registry.noteSubtree at hget
  rw [Registry.get_modify (by intro child; split <;> rfl)] at hget
  split at hget
  next heq =>
    subst heq
    obtain ⟨old, hold, rfl⟩ := Option.map_eq_some_iff.mp hget
    refine ⟨old, hold, ?_⟩
    split <;> exact ⟨rfl, rfl, rfl⟩
  · exact ⟨entry, hget, rfl, rfl, rfl⟩

theorem exists_get_noteSubtree (hget : sup.registry.get id = some child) : ∃ entry,
      (sup.noteSubtree id).registry.get id = some entry ∧ entry.Alike child := by
  have hlife : (sup.noteSubtree id).registry.life id = some child.lifecycle :=
    Registry.life_noteSubtree.trans (Registry.life_of_get hget)
  obtain ⟨entry, hentry, _⟩ := Registry.exists_get_of_life hlife
  obtain ⟨old, hold, hsame⟩ := get_noteSubtree hentry
  rw [hget] at hold
  cases hold
  exact ⟨entry, hentry, hsame⟩

theorem Turn.noteSubtree {id : ActorId} (hturn : Turn c ev work) :
    Turn (c.withSup (c.sup.noteSubtree id)) ev work where
  looping := hturn.looping
  unplanned := hturn.unplanned
  head := hturn.head
  delivered := hturn.delivered
  nodup := by
    change (c.sup.registry.noteSubtree c.sup.slots id).ids.Nodup
    rw [Registry.ids_noteSubtree]
    exact hturn.nodup
  fresh := by
    intro other entry hget
    obtain ⟨old, hold, hsame, _⟩ := get_noteSubtree hget
    rw [hsame]
    exact hturn.fresh other old hold

theorem chargeDue_noteSubtree : (sup.noteSubtree ev.childId).ChargeDue ev ↔ sup.ChargeDue ev := by
  refine or_congr ?_ ⟨?_, ?_⟩
  · unfold FailedFront
    rw [show (sup.noteSubtree ev.childId).registry.life ev.childId =
      sup.registry.life ev.childId from Registry.life_noteSubtree]
    rfl
  · rintro ⟨hidle, entry, hget, hdue, hends⟩
    obtain ⟨old, hold, hlife, htype, horigin⟩ := get_noteSubtree hget
    rw [hlife, horigin] at hends
    rw [htype] at hdue
    exact ⟨hidle, old, hold, hdue, hends⟩
  · rintro ⟨hidle, old, hold, hdue, hends⟩
    obtain ⟨entry, hget, hlife, htype, horigin⟩ := exists_get_noteSubtree hold
    rw [← hlife, ← horigin] at hends
    rw [← htype] at hdue
    exact ⟨hidle, entry, hget, hdue, hends⟩

theorem chainFrontOf_own {started : Option Token} (hfront : sup.chainFrontOf id = some started) :
    ∃ chain, sup.pendingGroup = some (.restarting chain) ∧ chain.queue.head? = some id := by
  unfold chainFrontOf at hfront
  split at hfront
  next chain hpending =>
    split at hfront
    next hhead => exact ⟨chain, hpending, hhead⟩
    · cases hfront
  · cases hfront

/-- An attempt's failure is routed by the group's membership of its child. -/
theorem attemptFailureRoute_cases {front : Bool} {membership : GroupMembership} {origin : Origin} :
    (front = true ∧ attemptFailureRoute front membership origin = .chainRetry) ∨
      front = false ∧ (membership ≠ .none ∧ attemptFailureRoute front membership origin = .member ∨
        membership ≠ .queued ∧ (∀ overridden, membership ≠ .awaited overridden) ∧
          (origin = .manual ∧ attemptFailureRoute front membership origin = .removed ∨
            origin ≠ .manual ∧ attemptFailureRoute front membership origin = .evaluate)) := by
  unfold attemptFailureRoute
  cases front with
  | true => exact .inl ⟨rfl, rfl⟩
  | false =>
    refine .inr ⟨rfl, ?_⟩
    cases membership with
    | awaited | queued => exact .inl ⟨by simp, rfl⟩
    | released | none =>
      refine .inr ⟨by simp, by simp, ?_⟩
      by_cases hmanual : origin = .manual <;> simp [hmanual]

theorem failedFront_iff {sup : SupervisionState} {id : ActorId} {p n : Token}
    (hlife : sup.registry.life id = some (.restarting p n)) :
    sup.FailedFront id n ↔ (sup.chainFrontOf id == some (some n)) = true := by
  rw [beq_iff_eq]
  constructor
  · rintro ⟨chain, q, hpending, hhead, hstarted, _⟩
    unfold chainFrontOf
    rw [hpending]
    simp [hhead, hstarted]
  · intro hfront
    obtain ⟨chain, hpending, hhead⟩ := chainFrontOf_own hfront
    refine ⟨chain, p, hpending, hhead, ?_, hlife⟩
    unfold chainFrontOf at hfront
    rw [hpending] at hfront
    simpa [hhead] using hfront

/-- How a turn handles its report: it decides the end, it completes a manual stop
whose caller went away, or it decides nothing, as the end is closed or waits
behind a group that does not hold it. -/
inductive TurnCase (c : Config) (ev : Report) (work : List Report) (d : Config) : Prop
  | judged (opens : c.sup.Open ev.childId ev.incarnation) (seen : SupervisionState)
      (same : seen = c.sup ∨ seen = c.sup.noteSubtree ev.childId)
      (judged : Judged (c.withSup seen) ev work d)
  | classified (kind : ManualStop)
      (stopping : c.sup.registry.life ev.childId = some (.stopping ev.incarnation kind))
      (registry : d.sup.registry = (c.sup.classifyManualCompletion ev.childId ev.incarnation kind
        ev.reason).registry)
      (moves : ∀ rules, Moves rules c d)
  | left (waits : c.sup.Open ev.childId ev.incarnation →
        c.sup.pendingGroup ≠ none ∧ c.sup.Unplanned ev.childId ∧
          ¬ c.sup.AskedFor ev.childId ev.incarnation)
      (unstopped : ∀ kind, c.sup.registry.life ev.childId ≠ some (.stopping ev.incarnation kind))
      (moves : ∀ rules : Rules, (rules.kept → ¬ c.sup.MovedPast ev) → Moves rules c d)

theorem turn_routeAttempt {p : Token} (hturn : Turn c ev work)
    (hget : c.sup.registry.get ev.childId = some child)
    (hlife : child.lifecycle = .restarting p ev.incarnation) :
    let routed := c.sup.routeAttempt ev child.origin
    TurnCase c ev work
      (c.after (routed.1.handleRouted ev work drop routed.2.1 routed.2.2)) := by
  intro routed
  have hentry := (Registry.life_of_get hget).trans (congrArg some hlife)
  obtain ⟨noted, hnoted, hsame, _, horigin⟩ := exists_get_noteSubtree hget
  have hturn' := @Turn.noteSubtree c ev work ev.childId hturn
  have hopen : reportClass noted.lifecycle ev.incarnation ≠ .stale := by
    rw [hsame, hlife]
    simp [reportClass]
  have hfront := @failedFront_iff (c.sup.noteSubtree ev.childId) ev.childId p ev.incarnation
    (Registry.life_noteSubtree.trans hentry)
  have hroute := @attemptFailureRoute_cases
    (c.sup.chainFrontOf ev.childId == some (some ev.incarnation))
    (c.sup.groupMembership ev.childId) child.origin
  have hjudged {d : Config} (h : Judged (c.withSup (c.sup.noteSubtree ev.childId)) ev work d) :
      TurnCase c ev work d :=
    .judged ⟨_, hentry, by simp [reportClass]⟩ _ (.inr rfl) h
  change TurnCase c ev work (c.after ((c.sup.routeAttempt ev child.origin).1.handleRouted ev work
    drop (c.sup.routeAttempt ev child.origin).2.1 (c.sup.routeAttempt ev child.origin).2.2))
  unfold routeAttempt
  dsimp only
  rcases hroute with ⟨hown, hroute⟩ | ⟨hown, ⟨hmember, hroute⟩ | ⟨hqueued, hawaited, hroute⟩⟩
  · -- The chain's own attempt for its front failed.
    rw [hroute]
    obtain ⟨chain, hpending, hhead⟩ := chainFrontOf_own (beq_iff_eq.mp hown)
    have hdue : (c.sup.noteSubtree ev.childId).ChargeDue ev := .inl (hfront.mpr hown)
    unfold handleRouted
    dsimp only
    have hcharged {granted : Bool}
        (hdecided : (c.sup.budget.checkAndRecord c.sup.now).2 = granted) :
        ((c.sup.noteSubtree ev.childId).transition ev.childId (.down ev.incarnation .none)).charge
            ev.childId ev.incarnation =
          ((c.sup.noteSubtree ev.childId).closed ev (c.sup.budget.checkAndRecord c.sup.now).1
            [.charged ev.childId ev.incarnation c.sup.now granted], granted) := by
      subst hdecided
      rfl
    cases hdecided : (c.sup.budget.checkAndRecord c.sup.now).2 with
    | true =>
      rw [hcharged hdecided]
      exact hjudged (judged_retryGroup hturn' hnoted hopen hpending hhead
        (.retried true hdue hdecided))
    | false =>
      rw [hcharged hdecided]
      exact hjudged (judged_exhausted hturn' (.retried false hdue hdecided) hdecided)
  · rw [hroute]
    refine hjudged (judged_member hturn' hnoted hopen ?_)
    rintro (hfailed | ⟨hidle, _⟩)
    · exact absurd (hfront.mp hfailed) (Bool.eq_false_iff.mp hown)
    · change c.sup.pendingGroup = none at hidle
      exact hmember (by simp [groupMembership, hidle])
  · rcases hroute with ⟨hmanual, hroute⟩ | ⟨hother, hroute⟩
    · rw [hroute]
      have hundue : ¬ (c.sup.noteSubtree ev.childId).ChargeDue ev := by
        rintro (hfailed | ⟨_, entry, hentry', _, hrun | hdown | ⟨_, _, hnotManual⟩⟩)
        · exact absurd (hfront.mp hfailed) (Bool.eq_false_iff.mp hown)
        all_goals
          rw [hnoted] at hentry'
          cases hentry'
        · rw [hsame, hlife] at hrun
          cases hrun
        · rw [hsame, hlife] at hdown
          cases hdown
        · exact hnotManual (horigin.trans hmanual)
      exact hjudged (.of_alone (.spared hundue) (fun h => absurd h hundue) fun rules =>
        moves_deliverNow hturn.unplanned hturn.out_eq rfl rfl rfl rfl)
    · rw [hroute]
      cases hpending : c.sup.pendingGroup with
      | none =>
        refine hjudged (judged_evaluateReport hturn' hnoted hopen hpending
          (.inr (.inr ⟨p, ?_, ?_⟩)))
        · exact hsame.trans hlife
        · rw [horigin]
          exact hother
      | some phase =>
        have hunplanned : c.sup.Unplanned ev.childId := ⟨hqueued, hawaited⟩
        obtain ⟨hsnapshot, horder⟩ := unplanned_iff.mp hunplanned phase _ hpending hentry
        refine .left (fun _ => ⟨by simp [hpending], hunplanned, ?_⟩) (by simp [hentry])
          fun rules _ => ?_
        · rintro ⟨entry, _, hentry', _, hmanual⟩
          rw [hget] at hentry'
          cases hentry'
          exact hother hmanual
        refine .head (.subtree ev.childId) (moves_queueTrigger hturn' hnoted hopen hpending ?_
          (fun h => (hsnapshot h).1) ?_)
        · intro kind hstopping
          rw [hsame, hlife] at hstopping
          cases hstopping
        · rintro chain rfl
          exact horder rfl

/-! ## The end of an occupant -/

theorem settleBarrier_record {n : Token} {target : ChildLifecycle} :
    (sup.transition id target).settleBarrier id n =
      ((sup.settleBarrier id n).1.transition id target, (sup.settleBarrier id n).2) := by
  unfold settleBarrier transition
  dsimp only
  split
  · split <;> rfl
  · rfl

theorem settleBarrier_cases {sup : SupervisionState} {id : ActorId} {n : Token} :
    (sup.settleBarrier id n).2 = true ∨
      ((sup.settleBarrier id n) = (sup, false) ∧ ∀ phase, sup.pendingGroup = some phase →
        phase.awaiting.lookup id ≠ some n) := by
  unfold settleBarrier
  split
  next group hpending =>
    split
    · exact .inl rfl
    next hawaited =>
      refine .inr ⟨rfl, ?_⟩
      intro phase hphase
      rw [hpending] at hphase
      cases hphase
      exact hawaited
  next hpending =>
    refine .inr ⟨rfl, ?_⟩
    intro phase hphase
    cases phase with
    | stopping group => exact absurd hphase (hpending group)
    | restarting => simp [GroupPhase.awaiting]

theorem turn_routeEnd (hturn : Turn c ev work)
    (hget : c.sup.registry.get ev.childId = some child)
    (hopen : reportClass child.lifecycle ev.incarnation ≠ .stale)
    (hends : child.lifecycle = .running ev.incarnation ∨
      child.lifecycle = .down ev.incarnation .evaluate) :
    let routed := c.sup.routeEnd ev
    TurnCase c ev work
      (c.after (routed.1.handleRouted ev work drop routed.2.1 routed.2.2)) := by
  intro routed
  have hlife := Registry.life_of_get hget
  have hunstopped : ∀ kind, child.lifecycle ≠ .stopping ev.incarnation kind := by
    rcases hends with h | h <;> simp [h]
  have hjudged {d : Config} (h : Judged c ev work d) : TurnCase c ev work d :=
    .judged ⟨_, hlife, hopen⟩ c.sup (.inl rfl) h
  change TurnCase c ev work (c.after ((c.sup.routeEnd ev).1.handleRouted ev work drop
    (c.sup.routeEnd ev).2.1 (c.sup.routeEnd ev).2.2))
  unfold routeEnd
  cases hpending : c.sup.pendingGroup with
  | none =>
    exact hjudged (judged_evaluateReport hturn hget hopen hpending
      (hends.imp_right fun h => .inl h))
  | some phase =>
    have hundue : ¬ c.sup.ChargeDue ev := by
      rintro (⟨_, p, _, _, _, hrestarting⟩ | ⟨hidle, _⟩)
      · rw [hlife] at hrestarting
        rcases hends with h | h <;> simp [h] at hrestarting
      · rw [hpending] at hidle
        cases hidle
    dsimp only
    rcases @settleBarrier_cases c.sup ev.childId ev.incarnation with
      hsettled | ⟨hsame, hunawaited⟩
    · rw [if_pos hsettled]
      have hmember := @judged_member c ev work drop child
        (phase.overrides.lookup ev.childId == some ev.incarnation || c.sup.pruned ev.childId)
        false hturn hget hopen hundue
      simp only [settleBarrier_record, hsettled, if_true] at hmember
      exact hjudged hmember
    · rw [hsame]
      dsimp only
      rw [if_neg (by simp)]
      split
      · have hmember := @judged_member c ev work drop child (c.sup.pruned ev.childId)
          (c.sup.chainFrontOf ev.childId).isSome hturn hget hopen hundue
        simp only [settleBarrier_record, hsame] at hmember
        exact hjudged hmember
      next hqueued =>
        have hunplanned : c.sup.Unplanned ev.childId := by
          rw [unplanned_iff]
          intro other life hother hsame
          rw [hlife] at hsame
          cases hsame
          refine ⟨fun h => ?_, fun hnone hmem => hqueued ?_⟩
          · rw [heldToken_of_open hopen] at h
            exact absurd h (hunawaited other hother)
          · simp [groupMembership, hother, hlife, hnone, hmem]
        refine .left (fun _ => ⟨by simp [hpending], hunplanned, ?_⟩)
          (by simpa [hlife] using hunstopped)
          fun rules _ => moves_queueTrigger hturn hget hopen hpending hunstopped
            (fun h => absurd h (hunawaited phase hpending)) ?_
        · rintro ⟨entry, p, hentry, hattempt, _⟩
          rw [hget] at hentry
          cases hentry
          rcases hends with h | h <;> rw [h] at hattempt <;> cases hattempt
        · rintro chain rfl
          exact (unplanned_iff.mp hunplanned _ _ hpending hlife).2 rfl

/-! ## A report -/

/-- One turn of the worklist. -/
theorem turn_handleReport (hturn : Turn c ev work) :
    TurnCase c ev work (c.after (c.sup.handleReport ev work drop)) := by
  unfold handleReport
  cases hsnapshot : c.sup.snapshotOf ev with
  | some =>
    have hclosed := (not_open_of_snapshotOf hsnapshot).1
    exact .left (fun h => absurd h hclosed)
      (fun kind hlife => hclosed ⟨_, hlife, by simp [reportClass]⟩)
      fun rules _ => moves_deliverSnapshot hturn hsnapshot
  | none =>
    cases hget : c.sup.registry.get ev.childId with
    | none =>
      have hlife : c.sup.registry.life ev.childId = none := Registry.life_eq_none_iff.mpr hget
      have hmanual : c.sup.uncommittedManual ev = none := by
        unfold uncommittedManual
        rw [hlife]
      have hroute : c.sup.routeReport ev = (c.sup, .evaluate, {}) := by
        unfold routeReport
        rw [hget]
      have hclosed : ¬ c.sup.Open ev.childId ev.incarnation := by simp [Open, hlife]
      simp only [hmanual, hlife, hroute]
      exact .left (fun h => absurd h hclosed) (by simp [hlife])
        fun rules _ => moves_evaluateGone hturn hget
    | some child =>
      have hlife := Registry.life_of_get hget
      cases hmanual : c.sup.uncommittedManual ev with
      | some kind =>
        have hstopping : child.lifecycle = .stopping ev.incarnation kind := by
          unfold uncommittedManual at hmanual
          rw [hlife] at hmanual
          cases hentry : child.lifecycle with
          | stopping =>
            rw [hentry] at hmanual
            dsimp only at hmanual
            split at hmanual
            next heq =>
              cases hmanual
              rw [heq]
            · cases hmanual
          | running | restarting | down => rw [hentry] at hmanual; cases hmanual
        have hclassify (rules : Rules) : Moves rules c (c.withSup
            (c.sup.classifyManualCompletion ev.childId ev.incarnation kind ev.reason)) :=
          moves_classifyManualCompletion (fun _ => hturn.unplanned) hget (.inl hstopping)
            (by rw [hturn.looping]; simp)
        dsimp only
        refine .classified kind (hlife.trans (congrArg some hstopping)) (by split <;> rfl)
          fun rules => ?_
        split
        next message _ =>
          refine (hclassify rules).trans ?_
          rw [← hturn.head]
          exact @moves_halt rules (c.withSup (c.sup.classifyManualCompletion ev.childId
            ev.incarnation kind ev.reason)) (.failure (.panic message)) hturn.looping
            hturn.delivered
        · have hafter : c.after (c.sup.classifyManualCompletion ev.childId ev.incarnation kind
              ev.reason, .loop (ev :: work)) =
              c.withSup (c.sup.classifyManualCompletion ev.childId ev.incarnation kind
                ev.reason) := by
            simp only [Config.after, Config.withSup, ← hturn.head, hturn.delivered,
              hturn.unplanned]
          rw [hafter]
          exact hclassify rules
      | none =>
        have hunstopped : ∀ kind, child.lifecycle ≠ .stopping ev.incarnation kind := by
          intro kind hstopping
          unfold uncommittedManual at hmanual
          rw [hlife, hstopping] at hmanual
          simp at hmanual
        simp only [hlife]
        by_cases hstale : reportClass child.lifecycle ev.incarnation = .stale
        · have hunrecorded : c.sup.pendingManualEvents.lookup
              (ev.childId, ev.incarnation) = none := by
            unfold snapshotOf at hsnapshot
            simpa [hlife, hstale] using hsnapshot
          have hafter : c.after (c.sup, .loop work) = { c with work := work } := by
            simp only [Config.after, hturn.delivered, hturn.unplanned]
          rw [if_pos (by simpa using hstale), hafter]
          have hpast : c.sup.MovedPast ev := ⟨_, hlife, hstale, hunrecorded⟩
          refine .left (fun h => ?_) (by simpa [hlife] using hunstopped) fun rules hkept =>
            .single (.drop ev work hturn.head hpast fun h => hkept h hpast)
          obtain ⟨life, hsame, hopen⟩ := h
          rw [hlife] at hsame
          cases hsame
          exact absurd hstale hopen
        · rw [if_neg (by simpa using hstale)]
          unfold routeReport
          rw [hget]
          dsimp only
          by_cases hattempt : child.lifecycle.isRestarting = true ∧
              child.lifecycle.heldToken = ev.incarnation
          · rw [if_pos hattempt]
            cases hentry : child.lifecycle with
            | restarting p n =>
              rw [hentry] at hattempt
              have hn : n = ev.incarnation := hattempt.2
              subst hn
              exact turn_routeAttempt hturn hget hentry
            | running | stopping | down => simp [hentry] at hattempt
          · rw [if_neg hattempt]
            refine turn_routeEnd hturn hget hstale ?_
            cases hentry : child.lifecycle <;> simp_all [reportClass]

theorem moves_handleReport (hturn : Turn c ev work) (hloud : ¬ rules.still)
    (hkept : rules.kept → ¬ c.sup.MovedPast ev) :
    Moves rules c (c.after (c.sup.handleReport ev work drop)) := by
  cases @turn_handleReport c ev work drop hturn with
  | judged hopens seen hsame hjudged =>
    obtain ⟨event, budget, obs, hsubject, hjudgement, hmoves⟩ := hjudged.decided
    have hclose : Move rules (c.withSup seen) ((c.withSup seen).decided ev work event budget obs) :=
      .close ev work event budget obs hturn.looping hturn.unplanned hturn.head ?_ hjudgement
        hsubject hloud
    · rcases hsame with rfl | rfl
      · exact .head hclose (hmoves rules)
      · exact .head (.subtree ev.childId) (.head hclose (hmoves rules))
    · rcases hsame with rfl | rfl
      · exact hopens
      · obtain ⟨life, hlife, hopen⟩ := hopens
        exact ⟨life, Registry.life_noteSubtree.trans hlife, hopen⟩
  | classified _ _ _ hmoves => exact hmoves rules
  | left _ _ hmoves => exact hmoves rules hkept

end TokioActors
