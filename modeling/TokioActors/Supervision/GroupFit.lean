/-
# Pending groups along a run

Every move keeps the pending group and the ledger fit for each other, in runs
whose calls stay out of the window before a layout and restart no child that the
group keeps down.
-/

import TokioActors.Supervision.Layout

namespace TokioActors

open SupervisionState Registry

variable {rules : Rules} {c d : Config}

/-- The pending group fits the ledger, and so does what it is made from. -/
structure GroupFit (c : Config) : Prop where
  closed : SnapshotsClosed c
  specs : SpecsFit c
  laid : PlanLaid c
  fits : ∀ phase, c.sup.pendingGroup = some phase → PhaseFits c.sup phase

section Entry

variable {sup : SupervisionState} {phase : GroupPhase} {id other : ActorId} {n : Token}
  {life : ChildLifecycle} {type : RestartType} {origin : Origin} {pending : DownPending}

theorem entry_initiateRestart (hentry : sup.registry.entry id = some (type, .down n pending))
    (hfresh : n < sup.nextIncarnation) :
    (sup.initiateRestart id origin).registry.entry other =
      if other = id then some (type, .restarting n sup.nextIncarnation)
      else sup.registry.entry other := by
  obtain ⟨child, hget, htype, hdown⟩ := exists_get_of_entry hentry
  rw [initiateRestart_eq hget hdown hfresh, entry, get_begin]
  split
  · dsimp only
    rw [hget, ← htype]
    rfl
  · rfl

theorem pendingGroup_initiateRestart_chain
    (hentry : sup.registry.entry id = some (type, .down n pending))
    (hfresh : n < sup.nextIncarnation) (hfactory : id ∈ sup.restartFns) :
    (sup.initiateRestart id .chain).pendingGroup =
      sup.pendingGroup.map (GroupPhase.recordStarted id sup.nextIncarnation) := by
  obtain ⟨child, hget, htype, hdown⟩ := exists_get_of_entry hentry
  rw [initiateRestart_eq hget hdown hfresh]
  exact if_pos ⟨hfactory, rfl⟩

theorem pendingGroup_initiateRestart_other (horigin : origin ≠ .chain) :
    (sup.initiateRestart id origin).pendingGroup = sup.pendingGroup := by
  rcases @initiateRestart_cases sup id origin with hsame | ⟨child, n, pending, _, _, _, hbegin⟩
  · rw [hsame]
  · rw [hbegin]
    exact if_neg fun hchain => horigin hchain.2

theorem PhaseFits.begin_ (hfits : PhaseFits sup phase)
    (hentry : sup.registry.entry id = some (type, .down n pending))
    (hfresh : n < sup.nextIncarnation) (hunlisted : id ∉ phase.order)
    (hunkept : phase.overrides.lookup id = none) :
    PhaseFits (sup.initiateRestart id origin) phase := by
  have hgrows : sup.nextIncarnation ≤ (sup.initiateRestart id origin).nextIncarnation := by
    rw [nextIncarnation_initiateRestart]
    exact Nat.le_succ _
  refine hfits.change id ids_initiateRestart hgrows (fun other hne => ?_) ?_
  · rw [entry_initiateRestart hentry hfresh, if_neg hne]
  · rw [entry_initiateRestart hentry hfresh, if_pos rfl]
    have hbefore := hfits.fits id
    rw [hentry] at hbefore
    exact hbefore.begun hgrows (Nat.le_refl _) hunlisted hunkept

theorem PhaseFits.chainBegin {chain : RestartChain} {front : ActorId} {rest : List ActorId}
    (hfits : PhaseFits sup (.restarting chain)) (hqueue : chain.queue = front :: rest)
    (hentry : sup.registry.entry front = some (type, .down n pending))
    (hfresh : n < sup.nextIncarnation) :
    PhaseFits (sup.initiateRestart front .chain)
      (.restarting { chain with started := chain.started.insert front sup.nextIncarnation }) := by
  have hgrows : sup.nextIncarnation ≤ (sup.initiateRestart front .chain).nextIncarnation := by
    rw [nextIncarnation_initiateRestart]
    exact Nat.le_succ _
  have hmem : front ∈ (GroupPhase.restarting chain).order := by
    change front ∈ chain.queue
    rw [hqueue]
    exact List.mem_cons_self
  refine ⟨by rw [ids_initiateRestart]; exact hfits.sorted, fun other => ?_⟩
  rw [entry_initiateRestart hentry hfresh]
  have hbefore := hfits.fits other
  split
  next heq =>
    subst heq
    rw [hentry] at hbefore
    constructor
    · intro _
      obtain ⟨htype, _⟩ := hbefore.holds_of_listed hmem
      refine ⟨type, _, rfl, htype, .inr (.inr ⟨?_, Finmap.lookup_insert _, .inr ⟨n, rfl⟩⟩)⟩
      change chain.queue.head? = some other
      rw [hqueue]
      rfl
    · intro m hover
      exact absurd hmem (hbefore.released m hover).1
    · exact fun _ _ _ _ _ => .inl hmem
    · exact fun _ => rfl
    · exact fun m hm => Nat.lt_of_lt_of_le (hbefore.drawn m hm) hgrows
  next hne =>
    refine hbefore.congr hgrows Iff.rfl (fun h => h) rfl rfl ?_ ?_
    · exact Finmap.lookup_insert_of_ne _ hne
    · rintro (hstarted | hscope)
      · left
        change ((chain.started.insert front _).lookup other).isSome = true at hstarted
        rwa [Finmap.lookup_insert_of_ne _ hne] at hstarted
      · exact .inr hscope

theorem groupMembership_listed (hpending : sup.pendingGroup = some phase)
    (hlife : sup.registry.life id = some life) (hunawaited : phase.awaiting.lookup id = none)
    (hmem : id ∈ phase.order) : sup.groupMembership id = .queued := by
  unfold groupMembership
  rw [hpending, hlife]
  simp [hunawaited, hmem]

/-- The group does not wait for a running child it has nothing to do with. -/
theorem GroupFit.unawaited_of_running (hfit : GroupFit c)
    (hpending : c.sup.pendingGroup = some phase)
    (hrunning : c.sup.registry.life id = some (.running n)) (hunplanned : c.sup.Unplanned id) :
    phase.awaiting.lookup id ≠ some n := by
  intro hawaited
  have hread := unplanned_iff.mp hunplanned phase _ hpending hrunning
  have hclosed := hfit.closed id n (hread.1 hawaited).1
  exact hclosed.2 ⟨_, hrunning, by simp [reportClass, ChildLifecycle.occupant]⟩

/-- A child that runs, or is bounced, apart from the group is not released by it. -/
theorem GroupFit.unkept_of_bounced (hfit : GroupFit c)
    (hpending : c.sup.pendingGroup = some phase)
    (hlife : c.sup.registry.life id = some life)
    (hstopped : life = .stopping n .bounce ∨ life = .running n ∧ c.sup.Unplanned id) :
    phase.overrides.lookup id = none := by
  by_contra hsome
  obtain ⟨m, hover⟩ := Option.ne_none_iff_exists'.mp hsome
  obtain ⟨type, hentry⟩ := exists_entry_of_life hlife
  have hfits := (hfit.fits phase hpending).fits id
  rw [hentry] at hfits
  obtain ⟨hheld, hkept⟩ := hfits.held_of_released hover
  rcases hstopped with rfl | ⟨rfl, hunplanned⟩
  · rcases hkept with hstopping | ⟨k, pending, hrests, _⟩ | ⟨hrunning, _⟩
    · cases hstopping
    · cases hrests
    · cases hrunning
  · rcases hkept with hstopping | ⟨k, pending, hrests, _⟩ | ⟨_, hawaited⟩
    · cases hstopping
    · cases hrests
    · have hn : n = m := hheld
      subst hn
      exact hfit.unawaited_of_running hpending hlife hunplanned hawaited

end Entry

/-- A cancelled attempt leaves its entry at rest, if the entry still holds it. -/
theorem recordCancelled_cases {sup : SupervisionState} {id : ActorId} {n : Token} :
    Sys.recordCancelled sup id n = sup.note (.cancelled id n) ∨
      ∃ p, sup.registry.life id = some (.restarting p n) ∧
        Sys.recordCancelled sup id n =
          (sup.transition id (.down n .none)).note (.cancelled id n) := by
  unfold Sys.recordCancelled
  split
  next p next hlife =>
    by_cases hnext : next = n
    · subst hnext
      exact .inr ⟨p, hlife, by rw [if_pos rfl]⟩
    · exact .inl (by rw [if_neg hnext])
  · exact .inl rfl

/-- The final collection records an end and settles the barrier for it. -/
theorem PhaseFits.collected {sup : SupervisionState} {id : ActorId} {n : Token}
    (hfits : ∀ phase, sup.pendingGroup = some phase → PhaseFits sup phase) :
    ∀ phase, (Sys.recordCollectedEnd sup id n).pendingGroup = some phase →
      PhaseFits (Sys.recordCollectedEnd sup id n) phase := by
  -- First the entry goes to rest, then the barrier is settled.
  have hsettle (recorded : SupervisionState)
      (hrecorded : ∀ phase, recorded.pendingGroup = some phase → PhaseFits recorded phase)
      (hrests : ∀ life, recorded.registry.life id = some life → life.heldToken = n → life.AtRest) :
      ∀ phase, (recorded.settleBarrier id n).1.pendingGroup = some phase →
        PhaseFits (recorded.settleBarrier id n).1 phase := by
    intro phase
    unfold settleBarrier
    split
    next group hpending =>
      split
      next hawaited =>
        intro hphase
        cases hphase
        exact ((hrecorded _ hpending).settle hawaited hrests).carry rfl (Nat.le_refl _)
      next hawaited => exact hrecorded phase
    next hother => exact hrecorded phase
  unfold Sys.recordCollectedEnd
  dsimp only
  split
  next hheld =>
    obtain ⟨life, hlife, hsame⟩ := Option.map_eq_some_iff.mp hheld
    obtain ⟨type, hentry⟩ := exists_entry_of_life hlife
    have hdown := @life_transition_down sup.registry id life n .none hlife hsame
    refine hsettle _ (fun phase hphase => ?_) fun other hother _ => ?_
    · have hbefore := (hfits phase hphase).fits id
      rw [hentry] at hbefore
      refine (hfits phase hphase).change id ids_transition (Nat.le_refl _)
        (fun other hne => entry_transition_ne hne) ?_
      change Fits _ phase id ((sup.registry.transition id _).entry id)
      rw [entry_transition_self hentry (isLegal_down_iff.mpr hsame)]
      exact hbefore.rest hsame.symm ⟨n, .none, rfl, by simp⟩
    · have hread : some (.down n .none) = some other := hdown.symm.trans hother
      cases hread
      exact ⟨n, .none, rfl, by simp⟩
  next hheld =>
    refine hsettle _ (fun phase hphase => (hfits phase hphase).carry rfl (Nat.le_refl _))
      fun life hlife hsame => ?_
    exact absurd (by rw [show sup.registry.life id = some life from hlife, Option.map_some, hsame])
      hheld

theorem Move.phaseFits (hheeded : rules.heeded) (hmove : Move rules c d)
    (hsound : Sound c) (hfit : GroupFit c) :
    ∀ phase, d.sup.pendingGroup = some phase → PhaseFits d.sup phase := by
  have hgrows := hmove.grows.2
  have hsame (hgroup : d.sup.pendingGroup = c.sup.pendingGroup)
      (hregistry : d.sup.registry = c.sup.registry) :
      ∀ phase, d.sup.pendingGroup = some phase → PhaseFits d.sup phase :=
    fun phase hphase => (hfit.fits phase (hgroup.symm.trans hphase)).carry hregistry hgrows
  have hnone (hgroup : d.sup.pendingGroup = none) :
      ∀ phase, d.sup.pendingGroup = some phase → PhaseFits d.sup phase := by
    intro phase hphase
    rw [hgroup] at hphase
    cases hphase
  -- One entry moves on the incarnation it holds.
  have hmoved {id : ActorId} {life target : ChildLifecycle}
      (hlife : c.sup.registry.life id = some life) (hlegal : isLegal life target = true)
      (hregistry : d.sup.registry = c.sup.registry.transition id target)
      (hgroup : d.sup.pendingGroup = c.sup.pendingGroup)
      (hfits : ∀ phase type, c.sup.pendingGroup = some phase →
        Fits c.sup.nextIncarnation phase id (some (type, life)) →
          Fits c.sup.nextIncarnation phase id (some (type, target))) :
      ∀ phase, d.sup.pendingGroup = some phase → PhaseFits d.sup phase := by
    intro phase hphase
    have hpending := hgroup.symm.trans hphase
    obtain ⟨type, hentry⟩ := exists_entry_of_life hlife
    have hbefore := (hfit.fits phase hpending).fits id
    rw [hentry] at hbefore
    refine (hfit.fits phase hpending).change id (by rw [hregistry, ids_transition]) hgrows
      (fun other hne => by rw [hregistry, entry_transition_ne hne]) ?_
    rw [hregistry, entry_transition_self hentry hlegal]
    exact (hfits phase type hpending hbefore).mono hgrows
  have hrested {id : ActorId} {n : Token} {life : ChildLifecycle} {pending : DownPending}
      (hlife : c.sup.registry.life id = some life) (hheld : life.heldToken = n)
      (hrests : pending ≠ .evaluate)
      (hregistry : d.sup.registry = c.sup.registry.transition id (.down n pending))
      (hgroup : d.sup.pendingGroup = c.sup.pendingGroup) :
      ∀ phase, d.sup.pendingGroup = some phase → PhaseFits d.sup phase :=
    hmoved hlife (isLegal_down_iff.mpr hheld) hregistry hgroup fun _ _ _ hbefore =>
      hbefore.rest hheld.symm ⟨n, pending, rfl, hrests⟩
  cases hmove with
  | plane hplane =>
    obtain ⟨_, _, _, _, _, _, rfl, _⟩ := hplane.frame.same
    exact hsame rfl rfl
  | group hgroup => exact hgroup.phaseFits hsound.nodup hsound.fresh hfit.fits
  | spawn id name restartType shutdown habsent =>
    exact fun phase hphase => (hfit.fits phase hphase).spawn habsent
  | subtree =>
    exact fun phase hphase => (hfit.fits phase hphase).frame ids_noteSubtree hgrows
      fun _ => entry_noteSubtree
  | commit id n kind life hcalm hentry hmoves hplanned hbounced =>
    have hheld : life.heldToken = n := by
      rcases hmoves with rfl | ⟨rfl, _⟩ <;> rfl
    have hlegal : isLegal life (.stopping n kind) = true := by
      rcases hmoves with rfl | ⟨rfl, rfl⟩ <;> simp [isLegal]
    refine hmoved hentry hlegal rfl rfl fun phase type hpending hbefore => ?_
    refine hbefore.turn hheld.symm (fun hmem hholds => ?_) fun hover _ => ?_
    · rcases hholds with hawaited | ⟨_, k, pending, hrests, _⟩ | hstarted
      · exact .inl (hawaited.trans (congrArg some hheld))
      · rcases hmoves with rfl | ⟨rfl, _⟩ <;> cases hrests
      · exact absurd (groupMembership_listed hpending hentry hstarted.unawaited hmem) hplanned
    · cases kind with
      | terminate => exact ⟨hheld.symm, .inl (by rw [hheld])⟩
      | bounce =>
        rcases hmoves with hrunning | ⟨_, hkind⟩
        · rw [hfit.unkept_of_bounced hpending hentry (.inr ⟨hrunning, hbounced rfl⟩)] at hover
          cases hover
        · cases hkind
  | crash id n life reason hcalm hentry hstopped =>
    have hheld : life.heldToken = n := by
      rcases hstopped with rfl | ⟨rfl, _⟩ <;> rfl
    refine hmoved hentry (isLegal_down_iff.mpr hheld) rfl rfl fun phase type hpending hbefore => ?_
    refine hbefore.turn hheld.symm (fun hmem hholds => ?_) fun hover _ => ?_
    · rcases hholds with hawaited | ⟨_, k, pending, hrests, _⟩ | ⟨_, _, hup⟩
      · exact .inl (hawaited.trans (congrArg some hheld))
      · rcases hstopped with rfl | ⟨rfl, _⟩ <;> cases hrests
      · rcases hstopped with rfl | ⟨_, hunplanned⟩
        · rcases hup with hrunning | ⟨p, hrestarting⟩
          · cases hrunning
          · cases hrestarting
        · exact absurd hmem ((hfit.fits phase hpending).unlisted hpending hunplanned)
    · rw [hfit.unkept_of_bounced hpending hentry hstopped] at hover
      cases hover
  | record id n child pending reason action hcalm hentry hstopped hrests =>
    refine hrested (life_of_get hentry) ?_ hrests rfl rfl
    rcases hstopped with hrunning | ⟨kind, hstopping⟩
    · rw [hrunning]
      rfl
    · rw [hstopping]
      rfl
  | rebound id n child reason hcalm hentry hstopped hunplanned =>
    have hheld : child.lifecycle.heldToken = n := by
      rcases hstopped with hstopping | ⟨hrunning, _⟩
      · rw [hstopping]
        rfl
      · rw [hrunning]
        rfl
    have hlife := life_of_get hentry
    have htyped := entry_of_get hentry
    have hfresh : n < c.sup.nextIncarnation := hheld ▸ hsound.fresh id _ hlife
    intro phase hphase
    rw [Config.withSup, pendingGroup_initiateRestart_other (by simp)] at hphase
    have hbefore := hfit.fits phase hphase
    have hunkept := hfit.unkept_of_bounced hphase hlife hstopped
    have hunlisted : id ∉ phase.order := by
      intro hmem
      unfold inRestartSet at hunplanned
      rw [show c.sup.pendingGroup = some phase from hphase] at hunplanned
      simp [hmem, hunkept] at hunplanned
    have hrest : PhaseFits ((c.sup.transition id (.down n .snapshot)).keepSnapshot id n
        ⟨id, child.name, reason, .restartInitiated⟩) phase := by
      have hself := hbefore.fits id
      rw [htyped] at hself
      refine hbefore.change id ids_transition (Nat.le_refl _)
        (fun other hne => entry_transition_ne hne) ?_
      change Fits _ phase id ((c.sup.registry.transition id _).entry id)
      rw [entry_transition_self htyped (isLegal_down_iff.mpr hheld)]
      exact hself.rest hheld.symm ⟨n, .snapshot, rfl, by simp⟩
    exact hrest.begin_ (entry_transition_self htyped (isLegal_down_iff.mpr hheld)) hfresh
      hunlisted hunkept
  | dismiss _ _ _ _ hentry howes | absorbSnapshot _ _ _ _ _ hentry howes =>
    exact hrested (life_of_get hentry) (by rw [howes]; rfl) (by simp) rfl rfl
  | release phase id life hcalm hpending hentry hkept =>
    intro other hother
    obtain ⟨middle, hmiddle, rfl⟩ := Option.map_eq_some_iff.mp hother
    obtain ⟨old, hold, rfl⟩ := Option.map_eq_some_iff.mp hmiddle
    rw [hpending] at hold
    cases hold
    obtain ⟨type, htyped⟩ := exists_entry_of_life hentry
    rw [hentry]
    exact ((hfit.fits phase hpending).release htyped hkept).carry rfl (Nat.le_refl _)
  | restart id n pending hcalm hentry hunplanned hheed =>
    intro phase hphase
    rw [Config.withSup, pendingGroup_initiateRestart_other (by simp)] at hphase
    have hbefore := hfit.fits phase hphase
    obtain ⟨type, htyped⟩ := exists_entry_of_life hentry
    have hunlisted : id ∉ phase.order :=
      hbefore.unlisted hphase ⟨by rw [hunplanned]; simp, by rw [hunplanned]; simp⟩
    refine hbefore.begin_ htyped (hsound.fresh id _ hentry) hunlisted ?_
    by_contra hsome
    obtain ⟨m, hover⟩ := Option.ne_none_iff_exists'.mp hsome
    have hself := hbefore.fits id
    rw [htyped] at hself
    have hheld := (hself.held_of_released hover).1
    exact hheed hheeded phase _ hphase hentry (by rw [hheld]; exact hover)
  | prune =>
    intro phase hphase
    obtain ⟨old, hold, rfl⟩ := Option.map_eq_some_iff.mp hphase
    exact (hfit.fits old hold).remove
  | «begin» id n hlooping hunplanned hpending =>
    exact hnone ((pendingGroup_initiateRestart_other (by simp)).trans hpending)
  | chainBegin chain front rest n owed hlooping hunplanned hpending hqueue hentry =>
    obtain ⟨type, htyped⟩ := exists_entry_of_life hentry
    have hfresh := hsound.fresh front _ hentry
    have hfactory : front ∈ c.sup.restartFns :=
      hfit.specs.factory (by rw [hlooping]; simp) hentry
    intro phase hphase
    rw [Config.withSup, pendingGroup_initiateRestart_chain htyped hfresh hfactory,
      hpending] at hphase
    cases hphase
    exact (hfit.fits _ hpending).chainBegin hqueue htyped hfresh
  | complete | drainDeaths | teardown => exact hnone rfl
  | install plan hplanned hlies =>
    intro phase hphase
    cases hphase
    exact (phaseFits_install (hfit.laid plan hplanned hlies).2.2).carry rfl (Nat.le_refl _)
  | reinstall plan chain hpending hfront habsorbed hpresent hrests =>
    intro phase hphase
    cases hphase
    exact (phaseFits_reinstall (hfit.fits _ hpending) hpending hsound.nodup hsound.fresh habsorbed
      hrests).carry rfl (Nat.le_refl _)
  | cancel task =>
    rcases @recordCancelled_cases (c.sup.dropAttempt task)
        task.childId task.incarnation with hkept | ⟨p, hlife, hdown⟩
    · exact hsame (by rw [hkept]; rfl) (by rw [hkept]; rfl)
    · exact @hrested task.childId task.incarnation _ .none hlife rfl (by simp) (by rw [hdown]; rfl)
        (by rw [hdown]; rfl)
  | adopt task hcalm hfound haccepts =>
    obtain ⟨p, hlife⟩ : ∃ p, c.sup.registry.life task.childId =
        some (.restarting p task.incarnation) := by
      unfold Sys.accepts at haccepts
      split at haccepts
      next p next hsome =>
        have hnext : next = task.incarnation := by simpa using haccepts
        exact ⟨p, by rw [hsome, hnext]⟩
      · cases haccepts
    obtain ⟨type, htyped⟩ := exists_entry_of_life hlife
    intro phase hphase
    have hbefore := hfit.fits phase hphase
    have hself := hbefore.fits task.childId
    rw [htyped] at hself
    have hafter : Fits c.sup.nextIncarnation phase task.childId
        (some (type, .running task.incarnation)) := by
      refine hself.turn rfl (fun _ hholds => ?_) fun _ hkept => ?_
      · rcases hholds with hawaited | ⟨_, k, pending, hrests, _⟩ | ⟨hhead, hstarted, _⟩
        · exact .inl hawaited
        · cases hrests
        · exact .inr (.inr ⟨hhead, hstarted, .inl rfl⟩)
      · obtain ⟨_, hstopping | ⟨k, pending, hrests, _⟩ | ⟨hrunning, _⟩⟩ := hkept
        · cases hstopping
        · cases hrests
        · cases hrunning
    refine hbefore.change task.childId (ids_noteSubtree.trans ids_transition)
      hgrows (fun other hne => entry_noteSubtree.trans
        (entry_transition_ne hne)) ?_
    have hentry : (Sys.recordAdopted (c.sup.dropAttempt task)
        task.childId task.incarnation).registry.entry task.childId =
        some (type, .running task.incarnation) :=
      entry_noteSubtree.trans
        (entry_transition_self htyped (by simp [isLegal]))
    rw [Config.withSup, hentry]
    exact hafter.mono hgrows
  | close ev work event budget obs hlooping hunplanned hhead hopens =>
    obtain ⟨life, hlife, hopen⟩ := hopens
    exact hrested hlife (heldToken_of_open hopen) (by simp) rfl rfl
  | queue ev work phase life hhead hpending hentry hopens hunstopped hunawaited hunqueued =>
    have hheld := heldToken_of_open hopens
    refine hmoved hentry (isLegal_down_iff.mpr hheld) rfl rfl fun other type hother hbefore => ?_
    rw [hpending] at hother
    cases hother
    have hunrested : ¬ life.AtRest := fun hrests =>
      not_open_of_atRest hentry hrests ⟨life, hentry, hopens⟩
    refine hbefore.turn hheld.symm (fun hmem hholds => ?_) fun _ hkept => ?_
    · rcases hholds with hawaited | ⟨_, hrests⟩ | hstarted
      · exact .inl (hawaited.trans (congrArg some hheld))
      · exact absurd hrests hunrested
      · cases phase with
        | stopping =>
          exact absurd ((Finmap.lookup_empty ev.childId).symm.trans hstarted.2.1) (by simp)
        | restarting chain => exact absurd hmem (hunqueued chain rfl)
    · obtain ⟨_, hstopping | hrests | ⟨_, hawaited⟩⟩ := hkept
      · exact absurd (hheld ▸ hstopping) (hunstopped .terminate)
      · exact absurd hrests hunrested
      · rw [hheld] at hawaited
        exact absurd ⟨life, hentry, hopens⟩ (hfit.closed _ _ (hunawaited hawaited)).2
  | snapshot ev =>
    by_cases hmarked : c.sup.registry.life ev.childId = some (.down ev.incarnation .snapshot)
    · exact hrested hmarked rfl (by simp) (if_pos hmarked) rfl
    · exact hsame rfl (if_neg hmarked)
  | absorb id n queued work event hlooping hcalm hentry htaken =>
    exact @hrested id n _ .none hentry rfl (by simp) rfl rfl
  | collect => exact PhaseFits.collected hfit.fits
  | discard | discardLost =>
    exact PhaseFits.collected fun phase hphase => (hfit.fits phase hphase).carry rfl (Nat.le_refl _)
  | _ => exact hsame rfl rfl

theorem Move.groupFit (hquiet : rules.quiet) (hheeded : rules.heeded) (hmove : Move rules c d)
    (hsound : Sound c) (hfit : GroupFit c) : GroupFit d where
  closed := hmove.snapshotsClosed hsound hfit.closed
  specs := hfit.specs.step hmove
  laid := hmove.planLaid hquiet hfit.laid
  fits := hmove.phaseFits hheeded hsound hfit

variable {strategy : RestartStrategy} {maxRestarts restartWindow : Nat} {s : Sys}

/-- In every run whose calls stay out of the window before a layout and restart no
child the group keeps down, the pending group fits the ledger. -/
theorem groupFit_of_reaches (hquiet : rules.quiet) (hheeded : rules.heeded)
    (hreach : Sys.Reaches rules.Allows strategy maxRestarts restartWindow s) :
    GroupFit s.config := by
  have hstart : GroupFit (Sys.init strategy maxRestarts restartWindow).config := by
    refine ⟨fun id n hsome => ?_, specsFit_init, fun plan hplan => ?_, fun phase hphase => ?_⟩
    · change ((∅ : Finmap fun _ : ActorId × Token => ChildEvent).lookup (id, n)).isSome = true
        at hsome
      rw [Finmap.lookup_empty] at hsome
      cases hsome
    · cases hplan
    · cases hphase
  exact hreach.books hstart fun c d hsound hfit hmove =>
    hmove.groupFit hquiet hheeded hsound hfit

/-! ## Orderly runs -/

/-- A step that neither disturbs a plan before its layout nor restarts a child that
the pending group keeps down. -/
def Sys.Orderly (s : Sys) (action : Action) : Prop := s.Undisturbed action ∧ s.Heeded action

def Rules.orderly : Rules := ⟨True, True, False, False⟩

theorem Rules.orderly_allows {action : Action} (horderly : s.Orderly action) :
    Rules.orderly.Allows s action :=
  ⟨fun _ => horderly.1, fun _ => horderly.2, False.elim, False.elim⟩

theorem Sys.Reaches.orderly
    (hreach : Sys.Reaches Sys.Orderly strategy maxRestarts restartWindow s) :
    Sys.Reaches Rules.orderly.Allows strategy maxRestarts restartWindow s :=
  Machine.Reaches.mono (fun _ _ => Rules.orderly_allows) hreach

theorem Sys.Reaches.groupFit
    (hreach : Sys.Reaches Sys.Orderly strategy maxRestarts restartWindow s) : GroupFit s.config :=
  groupFit_of_reaches trivial trivial hreach.orderly

instance (sup : SupervisionState) (id : ActorId) : Decidable (sup.Unkept id) :=
  decidable_of_iff
    ((match sup.pendingGroup, sup.registry.life id with
      | some phase, some life => phase.overrides.lookup id != some life.heldToken
      | _, _ => true) = true) (by
    unfold Unkept
    cases sup.pendingGroup with
    | none => simp
    | some => cases sup.registry.life id <;> simp)

instance (s : Sys) (action : Action) : Decidable (s.Undisturbed action) := by
  unfold Sys.Undisturbed
  split <;> infer_instance

instance (s : Sys) (action : Action) : Decidable (s.Heeded action) := by
  unfold Sys.Heeded
  split <;> infer_instance

instance (s : Sys) (action : Action) : Decidable (s.Orderly action) := by
  unfold Sys.Orderly
  infer_instance

end TokioActors
