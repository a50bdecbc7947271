/-
# Laying a plan out

A plan that lies over the ledger is laid out as a group that fits it: the first
plan of a group, and every retry. Between its decision and its layout a plan waits
for the deliveries of what its members owed; as long as no manual call comes in
between, it still lies over the ledger when it is laid out.
-/

import TokioActors.Supervision.Members

namespace TokioActors

open SupervisionState Registry

/-! ## Laying a plan out -/

section LayOut

variable {commit : List Committed} {overrides : TokenMap} {scope : GroupScope}
  {sup : SupervisionState} {id : ActorId} {n : Token} {m : Committed}

theorem order_layOut : (layOut commit overrides scope).order = restartIds commit := by
  unfold layOut
  split <;> rfl

theorem overrides_layOut : (layOut commit overrides scope).overrides = overrides := by
  unfold layOut
  split <;> rfl

theorem awaiting_layOut : (layOut commit overrides scope).awaiting = awaitingOf commit := by
  unfold layOut
  split
  next hbarrier => exact hbarrier.symm
  next hbarrier => rfl

theorem started_layOut : (layOut commit overrides scope).started = ∅ := by
  unfold layOut
  split <;> rfl

theorem scope_layOut : (layOut commit overrides scope).scope = scope := by
  unfold layOut
  split <;> rfl

theorem exists_held_of_awaitingOf (hawaited : (awaitingOf commit).lookup id = some n) :
    ∃ m ∈ commit, m.action.held = true ∧ m.id = id ∧ m.token = n := by
  rw [awaitingOf, Finmap.dlookup_list_toFinmap] at hawaited
  obtain ⟨m, hm, hsame⟩ := List.mem_map.mp (List.of_mem_dlookup hawaited)
  cases hsame
  exact ⟨m, (List.mem_filter.mp hm).1, (List.mem_filter.mp hm).2, rfl, rfl⟩

section

variable (hnodup : (commit.map Committed.id).Nodup)

include hnodup

theorem eq_of_member_id {k : Committed} (hm : m ∈ commit)
    (hk : k ∈ commit) (hid : m.id = k.id) : m = k :=
  List.inj_on_of_nodup_map hnodup hm hk hid

theorem awaitingOf_held (hm : m ∈ commit)
    (hheld : m.action.held = true) : (awaitingOf commit).lookup m.id = some m.token := by
  have hkey : (awaitingOf commit).lookup m.id ≠ none := by
    rw [awaitingOf, Finmap.dlookup_list_toFinmap]
    intro hnone
    refine List.dlookup_eq_none.mp hnone ?_
    refine List.mem_keys_of_mem (s := ⟨m.id, m.token⟩) (List.mem_map.mpr ⟨m, ?_, rfl⟩)
    exact List.mem_filter.mpr ⟨hm, hheld⟩
  obtain ⟨token, hsome⟩ := Option.ne_none_iff_exists'.mp hkey
  obtain ⟨k, hk, _, hid, rfl⟩ := exists_held_of_awaitingOf hsome
  rw [hsome, eq_of_member_id hnodup hk hm hid]

theorem awaitingOf_free (hm : m ∈ commit)
    (hfree : m.action.held = false) : (awaitingOf commit).lookup m.id = none := by
  by_contra hsome
  obtain ⟨token, htoken⟩ := Option.ne_none_iff_exists'.mp hsome
  obtain ⟨k, hk, hheld, hid, _⟩ := exists_held_of_awaitingOf htoken
  rw [eq_of_member_id hnodup hk hm hid, hfree] at hheld
  cases hheld

/-- A plan over the ledger, laid out, is a group that fits it. -/
theorem phaseFits_layOut (hsorted : (restartIds commit).Sublist sup.registry.ids)
    (hmember : ∀ m ∈ commit, m.action.restarts = true → ∃ type life,
      sup.registry.entry m.id = some (type, life) ∧ type ≠ .temporary ∧
        (m.action.held = true ∧ life.heldToken = m.token ∨ m.action.held = false ∧ life.AtRest))
    (hreleased : ∀ id n, overrides.lookup id = some n → id ∉ restartIds commit ∧ ∃ type life,
      sup.registry.entry id = some (type, life) ∧ life.KeptDown n none)
    (hawaited : ∀ m ∈ commit, m.action.held = true → ∀ type life,
      sup.registry.entry m.id = some (type, life) → life.heldToken = m.token →
        type ≠ .temporary → m.action.restarts = true ∨ overrides.lookup m.id = some m.token)
    (hscope : ∀ id, id ∈ scope.restarted ∨ id ∈ scope.outside →
      (sup.registry.entry id).isSome = true)
    (hdrawn : ∀ m ∈ commit, m.token < sup.nextIncarnation) :
    PhaseFits sup (layOut commit overrides scope) := by
  refine ⟨by rw [order_layOut]; exact hsorted, fun id => ?_⟩
  constructor
  · rw [order_layOut, mem_restartIds_iff]
    rintro ⟨m, hm, hrestarts, rfl⟩
    obtain ⟨type, life, hentry, htype, hheld | hfree⟩ := hmember m hm hrestarts
    · refine ⟨type, life, hentry, htype, .inl ?_⟩
      rw [awaiting_layOut, awaitingOf_held hnodup hm hheld.1, hheld.2]
    · refine ⟨type, life, hentry, htype, .inr (.inl ⟨?_, hfree.2⟩)⟩
      rw [awaiting_layOut, awaitingOf_free hnodup hm hfree.1]
  · intro n hover
    rw [overrides_layOut] at hover
    obtain ⟨hunlisted, type, life, hentry, hkept⟩ := hreleased id n hover
    rw [order_layOut]
    exact ⟨hunlisted, type, life, hentry, hkept.of_unawaited⟩
  · intro type life hentry hsome htype
    rw [awaiting_layOut] at hsome
    obtain ⟨m, hm, hheld, rfl, htoken⟩ := exists_held_of_awaitingOf hsome
    rw [order_layOut, overrides_layOut, mem_restartIds_iff, ← htoken]
    rcases hawaited m hm hheld type life hentry htoken.symm htype with hrestarts | hover
    · exact .inl ⟨m, hm, hrestarts, rfl⟩
    · exact .inr hover
  · unfold GroupPhase.Names
    rw [started_layOut, scope_layOut, Finmap.lookup_empty]
    rintro (hstarted | hnamed)
    · cases hstarted
    · exact hscope id hnamed
  · intro n hsome
    rw [awaiting_layOut] at hsome
    obtain ⟨m, hm, _, _, rfl⟩ := exists_held_of_awaitingOf hsome
    exact hdrawn m hm

end

end LayOut

variable {sup : SupervisionState} {commit : List Committed}

theorem phaseFits_install {failed : ActorId} (hlaid : sup.Laid commit ∅) :
    PhaseFits sup (layOut commit ∅ ⟨∅, sup.firstPlanOutside failed⟩) := by
  refine phaseFits_layOut hlaid.nodup hlaid.order (fun m hm hrestarts => ?_) (fun id n hover => ?_)
    (fun m hm hheld type life hentry htoken htype => ?_) (fun id hscope => ?_) hlaid.drawn
  · obtain ⟨child, hget, htype, _, hholds⟩ := hlaid.member m hm hrestarts
    exact ⟨_, _, entry_of_get hget, htype, hholds⟩
  · rw [Finmap.lookup_empty] at hover
    cases hover
  · obtain ⟨child, hget, rfl, rfl⟩ := exists_get_of_entry hentry
    exact hlaid.awaited m hm hheld child hget htoken htype
  · rcases hscope with h | h
    · cases h
    · have hmem : id ∈ sup.registry.ids := by
        unfold firstPlanOutside at h
        split at h
        · exact (List.takeWhile_sublist _).subset (List.mem_toFinset.mp h)
        · cases h
      cases hentry : sup.registry.entry id with
      | none =>
        exact absurd hmem (get_eq_none_iff.mp (entry_eq_none_iff.mp hentry))
      | some => rfl

theorem phaseFits_reinstall {chain : RestartChain} {failed : ActorId}
    (hfits : PhaseFits sup (.restarting chain))
    (hpending : sup.pendingGroup = some (.restarting chain)) (hnodup : sup.registry.ids.Nodup)
    (hfresh : ∀ id life, sup.registry.life id = some life → life.heldToken < sup.nextIncarnation)
    (habsorbed : ∀ m ∈ (sup.planRetry failed).commit, ∀ n,
      sup.registry.life m.id ≠ some (.down n .evaluate))
    (hrests : ∀ life, sup.registry.life failed = some life → life.AtRest) :
    PhaseFits sup (layOut (sup.planRetry failed).commit chain.overrides chain.scope) := by
  have hunique : ((sup.planRetry failed).commit.map Committed.id).Nodup := by
    rw [planRetry_ids]
    exact hnodup.sublist commitIds_sublist
  have hreleased {id : ActorId} : id ∈ sup.releasedIds ↔ ∃ child,
      sup.registry.get id = some child ∧
        chain.overrides.lookup id = some child.lifecycle.heldToken := by
    rw [mem_releasedIds_iff]
    constructor
    · rintro ⟨phase, child, hphase, hget, hover⟩
      rw [hpending] at hphase
      cases hphase
      exact ⟨child, hget, hover⟩
    · rintro ⟨child, hget, hover⟩
      exact ⟨_, child, hpending, hget, hover⟩
  refine phaseFits_layOut hunique ?_ (fun m hm hrestarts => ?_) (fun id n hover => ?_)
    (fun m hm hheld type life hentry htoken htype => ?_) (fun id hscope => ?_) fun m hm => ?_
  · refine restartIds_sublist.trans ?_
    rw [planRetry_ids]
    exact commitIds_sublist
  · obtain ⟨child, hget, htoken, hheld, hiff⟩ := planRetry_member hnodup hm
    refine ⟨_, _, entry_of_get hget, (hiff.mp hrestarts).1, ?_⟩
    cases hcase : m.action.held with
    | true => exact .inl ⟨rfl, htoken.symm⟩
    | false =>
      refine .inr ⟨rfl, ?_⟩
      rw [hcase] at hheld
      by_cases hfailed : m.id = failed
      · exact hrests _ (by rw [← hfailed]; exact life_of_get hget)
      · have hdown : child.lifecycle.isDown = true := by simpa [hfailed] using hheld
        obtain ⟨k, pending, hlife⟩ := ChildLifecycle.isDown_iff.mp hdown
        refine ⟨k, pending, hlife, ?_⟩
        rintro rfl
        exact habsorbed m hm k (by rw [life_of_get hget, hlife])
  · obtain ⟨_, type, life, hentry, hkept⟩ := (hfits.fits id).released n hover
    refine ⟨fun hmem => ?_, type, life, hentry, ?_⟩
    · obtain ⟨m, hm, hrestarts, rfl⟩ := mem_restartIds_iff.mp hmem
      obtain ⟨child, hget, _, _, hiff⟩ := planRetry_member hnodup hm
      obtain ⟨same, hsame, _, rfl⟩ := exists_get_of_entry hentry
      exact (hiff.mp hrestarts).2 (hreleased.mpr ⟨same, hsame, by rw [hkept.1]; exact hover⟩)
    · have hnone : (GroupPhase.restarting chain).awaiting.lookup id = none :=
        Finmap.lookup_empty id
      rwa [hnone] at hkept
  · obtain ⟨child, hget, _, _, hiff⟩ := planRetry_member hnodup hm
    obtain ⟨same, hsame, rfl, rfl⟩ := exists_get_of_entry hentry
    rw [hget] at hsame
    cases hsame
    by_cases hout : m.id ∈ sup.releasedIds
    · obtain ⟨other, hother, hover⟩ := hreleased.mp hout
      rw [hget] at hother
      cases hother
      exact .inr (by rw [hover, htoken])
    · exact .inl (hiff.mpr ⟨htype, hout⟩)
  · exact (hfits.fits id).named (.inr hscope)
  · obtain ⟨child, hget, htoken, _⟩ := planRetry_member hnodup hm
    rw [htoken]
    exact hfresh _ _ (life_of_get hget)

/-! ## A plan between its decision and its layout -/

variable {rules : Rules} {c d : Config} {next : SupervisionState}

/-- A plan that waits for its layout still lies over the ledger. -/
def PlanLaid (c : Config) : Prop :=
  ∀ plan, c.plan = some plan → plan.laid = true →
    c.stage = .looping ∧ c.sup.pendingGroup = none ∧ c.sup.Laid plan.commit ∅

/-- A plan lies over a ledger in which no entry changed and new children hold new
tokens. -/
theorem SupervisionState.Laid.carry (hlaid : sup.Laid commit ∅)
    (hids : sup.registry.ids.Sublist next.registry.ids)
    (hbound : sup.nextIncarnation ≤ next.nextIncarnation)
    (hkept : ∀ id entry, sup.registry.entry id = some entry → next.registry.entry id = some entry)
    (hnew : ∀ id type life, next.registry.entry id = some (type, life) →
      sup.registry.entry id = some (type, life) ∨ sup.nextIncarnation ≤ life.heldToken) :
    next.Laid commit ∅ where
  nodup := hlaid.nodup
  order := hlaid.order.trans hids
  member := by
    intro m hm hrestarts
    obtain ⟨child, hget, htype, _, hholds⟩ := hlaid.member m hm hrestarts
    obtain ⟨same, hsame, hsameType, hsameLife⟩ :=
      exists_get_of_entry (hkept _ _ (entry_of_get hget))
    refine ⟨same, hsame, by rw [hsameType]; exact htype, by simp, ?_⟩
    rw [hsameLife]
    exact hholds
  awaited := by
    intro m hm hheld child hget htoken htype
    rcases hnew _ _ _ (entry_of_get hget) with hentry | hlater
    · obtain ⟨old, hold, holdType, holdLife⟩ := exists_get_of_entry hentry
      exact hlaid.awaited m hm hheld old hold (by rw [holdLife]; exact htoken)
        (by rw [holdType]; exact htype)
    · rw [htoken] at hlater
      exact absurd (hlaid.drawn m hm) (Nat.not_lt.mpr hlater)
  drawn := fun m hm => Nat.lt_of_lt_of_le (hlaid.drawn m hm) hbound

theorem SupervisionState.Laid.same (hlaid : sup.Laid commit ∅)
    (hids : next.registry.ids = sup.registry.ids)
    (hbound : sup.nextIncarnation ≤ next.nextIncarnation)
    (hentries : ∀ id, next.registry.entry id = sup.registry.entry id) : next.Laid commit ∅ := by
  refine hlaid.carry (by rw [hids]) hbound (fun id entry hentry => ?_) fun id type life hentry => ?_
  · rw [hentries, hentry]
  · rw [hentries] at hentry
    exact .inl hentry

/-- While no call disturbs it, a plan stays over the ledger until it is laid out. -/
theorem Move.planLaid (hquiet : rules.quiet) (hmove : Move rules c d) (hlaid : PlanLaid c) :
    PlanLaid d := by
  intro plan hplan hisLaid
  have hgrows := hmove.grows.2
  have hsame (hstage : d.stage = c.stage) (hgroup : d.sup.pendingGroup = c.sup.pendingGroup)
      (hregistry : d.sup.registry = c.sup.registry) (hkept : c.plan = some plan) :
      d.stage = .looping ∧ d.sup.pendingGroup = none ∧ d.sup.Laid plan.commit ∅ := by
    obtain ⟨hlooping, hidle, hlies⟩ := hlaid plan hkept hisLaid
    refine ⟨hstage.trans hlooping, hgroup.trans hidle, hlies.same ?_ hgrows ?_⟩
    · rw [hregistry]
    · intro id
      rw [hregistry]
  have hnone {motive : Prop} (hkept : c.plan = some plan) (hcalm : c.plan = none) : motive := by
    rw [hcalm] at hkept
    cases hkept
  have hunlaid {motive : Prop} (hkept : c.plan = some plan) (hcalm : c.Unlaid) : motive := by
    have hfalse := hcalm plan hkept
    rw [hisLaid] at hfalse
    cases hfalse
  have hstaged {motive : Prop} (hkept : c.plan = some plan) (hstage : c.stage ≠ .looping) :
      motive := absurd (hlaid plan hkept hisLaid).1 hstage
  have hgrouped {motive : Prop} {phase : GroupPhase} (hkept : c.plan = some plan)
      (hpending : c.sup.pendingGroup = some phase) : motive := by
    have hidle := (hlaid plan hkept hisLaid).2.1
    rw [hpending] at hidle
    cases hidle
  cases hmove with
  | plane hplane =>
    obtain ⟨_, _, _, _, _, _, rfl, _⟩ := hplane.frame.same
    exact hsame rfl rfl rfl hplan
  | group hgroup =>
    cases hgroup with
    | keep | leaveGone =>
      obtain ⟨hlooping, hidle, hlies⟩ := hlaid plan hplan hisLaid
      refine ⟨hlooping, ?_, hlies.same rfl hgrows fun _ => rfl⟩
      change c.sup.pendingGroup.map _ = none
      rw [hidle]
      rfl
    | stopPop _ _ _ hpending | settle _ _ _ hpending | awaitAdopted _ _ _ hpending
    | chainGone _ _ _ hpending | stopAct _ _ _ _ hpending | chainFresh _ _ _ _ hpending =>
      exact hgrouped hplan hpending
    | finish _ hpending | foreign _ _ hpending => exact hgrouped hplan hpending
  | spawn id name restartType shutdown habsent =>
    obtain ⟨hlooping, hidle, hlies⟩ := hlaid plan hplan hisLaid
    refine ⟨hlooping, hidle, hlies.carry ?_ hgrows (fun other entry hentry => ?_)
      fun other type life hentry => ?_⟩
    · change (c.sup.registry.map Child.id).Sublist (List.map Child.id (c.sup.registry ++ _))
      rw [List.map_append]
      exact List.sublist_append_left _ _
    · have hne : other ≠ id := by
        rintro rfl
        rw [entry_eq_none_iff.mpr habsent] at hentry
        cases hentry
      exact (entry_append habsent).trans (by rw [if_neg hne]; exact hentry)
    · have hread := (entry_append habsent).symm.trans hentry
      split at hread
      · cases hread
        exact .inr (Nat.le_refl _)
      · exact .inl hread
  | subtree =>
    obtain ⟨hlooping, hidle, hlies⟩ := hlaid plan hplan hisLaid
    exact ⟨hlooping, hidle, hlies.same ids_noteSubtree hgrows fun _ =>
      entry_noteSubtree⟩
  | lay other hplanned hlooping hidle hcurrent hlies =>
    cases hplan
    exact ⟨hlooping, hidle, hlies⟩
  | decide other hfresh =>
    cases hplan
    rw [hfresh] at hisLaid
    cases hisLaid
  | terminated _ hcalm | commit _ _ _ _ hcalm | crash _ _ _ _ hcalm =>
    exact hnone hplan (hcalm hquiet)
  | record _ _ _ _ _ _ hcalm | rebound _ _ _ _ hcalm => exact hnone hplan (hcalm hquiet)
  | dismiss _ _ _ hcalm | release _ _ _ hcalm | restart _ _ _ hcalm =>
      exact hnone hplan (hcalm hquiet)
  | prune id hcalm => exact hunlaid hplan (hcalm hquiet)
  | «begin» _ _ _ hunplanned | chainBegin _ _ _ _ _ _ hunplanned | close _ _ _ _ _ _ hunplanned =>
    exact hnone hplan hunplanned
  | complete chain hlooping hunplanned => exact hnone hplan hunplanned
  | cancel _ hcalm | adopt _ hcalm | reorder _ hcalm | snapshot _ _ _ hcalm
  | absorb _ _ _ _ _ _ hcalm | absorbSnapshot _ _ _ _ hcalm | retitle _ _ _ _ hcalm =>
    exact hunlaid hplan hcalm
  | queue ev work phase life hhead hpending => exact hgrouped hplan hpending
  | enter hstarting => exact hstaged hplan (by rw [hstarting]; simp)
  | gather hended => exact hstaged hplan (by rw [hended]; simp)
  | collect ev work name hover => exact hstaged hplan hover.2
  | drainRestarts hgathered => exact hstaged hplan (by rw [hgathered]; simp)
  | drainDeaths hbefore => exact hstaged hplan (by rw [hbefore]; simp)
  | discard _ htorn | discardLost _ _ htorn => exact hstaged hplan (by rw [htorn]; simp)
  | install | endLoop | teardown | abort => cases hplan
  | reinstall => cases hplan
  | _ => exact hsame rfl rfl rfl hplan

end TokioActors
