/-
# The tokens of a child

Every incarnation of a child runs under a token of its own. The record shows the
tokens in the order they were drawn for the child, by its spawns and by the
attempts to restart it. The ledger entry of a child always holds the last of
them, so the token it holds never goes back and moves on exactly when a new
incarnation begins, whatever was deleted and spawned again under the id.
-/

import TokioActors.Supervision.Specs

namespace TokioActors

open SupervisionState

variable {rules : Rules} {c d : Config} {id : ActorId}

/-! ## The tokens drawn for a child -/

def Obs.drawsFor (id : ActorId) : Obs → Option Token
  | .spawned other n => if other = id then some n else none
  | .began other _ n _ => if other = id then some n else none
  | _ => none

def drawnFor (id : ActorId) (log : List Obs) : List Token := log.filterMap (Obs.drawsFor id)

theorem Obs.drawsFor_of_begins {obs : Obs} (hobs : obs.begins = none) : obs.drawsFor id = none := by
  cases obs <;> first | rfl | cases hobs

theorem drawnFor_append_of_begins {obs log : List Obs} (hobs : ∀ o ∈ obs, o.begins = none) :
    drawnFor id (obs ++ log) = drawnFor id log := by
  unfold drawnFor
  rw [List.filterMap_append, List.filterMap_eq_nil_iff.mpr, List.nil_append]
  intro o ho
  exact Obs.drawsFor_of_begins (hobs o ho)

/-! ## What a move draws -/

/-- The entry of the child is gone or holds what it held. -/
def HoldsStill (c d : Config) (id : ActorId) : Prop :=
  ∀ life, d.sup.registry.life id = some life →
    ∃ before, c.sup.registry.life id = some before ∧ before.heldToken = life.heldToken

/-- What a move draws: nothing, or the next token for one child. -/
inductive Draws (c d : Config) : Prop
  | nothing (log : ∀ id, drawnFor id d.sup.log = drawnFor id c.sup.log)
      (counter : c.sup.nextIncarnation ≤ d.sup.nextIncarnation) (held : ∀ id, HoldsStill c d id)
  | next (id : ActorId)
      (log : drawnFor id d.sup.log = c.sup.nextIncarnation :: drawnFor id c.sup.log)
      (others : ∀ other, other ≠ id → drawnFor other d.sup.log = drawnFor other c.sup.log)
      (counter : d.sup.nextIncarnation = c.sup.nextIncarnation + 1)
      (entry : ∀ life, d.sup.registry.life id = some life →
        life.heldToken = c.sup.nextIncarnation)
      (held : ∀ other, other ≠ id → HoldsStill c d other)

theorem EntryChange.holdsStill (hentry : EntryChange c d id)
    (hcounter : d.sup.nextIncarnation = c.sup.nextIncarnation) : HoldsStill c d id := by
  intro life hlife
  cases hentry with
  | same hsame => exact ⟨life, hsame.symm.trans hlife, rfl⟩
  | removed hgone =>
    rw [hgone] at hlife
    cases hlife
  | spawned _ hdrawn | begun _ _ _ _ _ hdrawn =>
    rw [hcounter] at hdrawn
    exact absurd hdrawn (Nat.ne_of_lt (Nat.lt_succ_self _))
  | committed n kind before hbefore hmoves hentry =>
    rw [hentry] at hlife
    cases hlife
    refine ⟨before, hbefore, ?_⟩
    rcases hmoves with rfl | ⟨rfl, _⟩ <;> rfl
  | adopted p n hbefore hgone hentry =>
    rw [hentry] at hlife
    cases hlife
    exact ⟨_, hbefore, rfl⟩
  | downed n pending before hbefore hheld hdowning hopens hentry =>
    rw [hentry] at hlife
    cases hlife
    exact ⟨before, hbefore, hheld⟩

theorem Draws.of_entries (hentries : ∀ id, EntryChange c d id) (obs : List Obs)
    (hlog : d.sup.log = obs ++ c.sup.log) (hobs : ∀ o ∈ obs, o.begins = none)
    (hcounter : d.sup.nextIncarnation = c.sup.nextIncarnation) : Draws c d := by
  refine .nothing (fun id => ?_) (Nat.le_of_eq hcounter.symm)
    fun id => (hentries id).holdsStill hcounter
  rw [hlog, drawnFor_append_of_begins hobs]

theorem Draws.of_initiate (sup : SupervisionState) (obs : List Obs) {other : ActorId}
    {origin : Origin} (hlog : sup.log = obs ++ c.sup.log)
    (hobs : ∀ o ∈ obs, o.begins = none) (hcounter : sup.nextIncarnation = c.sup.nextIncarnation)
    (hheld : ∀ id life, sup.registry.life id = some life →
      ∃ before, c.sup.registry.life id = some before ∧ before.heldToken = life.heldToken)
    (hfactory : other ∈ sup.restartFns) (hsup : d.sup = sup.initiateRestart other origin) :
    Draws c d := by
  have hdrawn (id : ActorId) : drawnFor id sup.log = drawnFor id c.sup.log := by
    rw [hlog, drawnFor_append_of_begins hobs]
  rcases @initiateRestart_cases sup other origin with
    hnone | ⟨child, n, pending, hget, hdown, _, hbegin⟩
  · rw [hnone] at hsup
    refine .nothing (fun id => ?_) (by rw [hsup, ← hcounter]; exact Nat.le_succ _)
      fun id life hlife => ?_
    · rw [hsup]
      exact hdrawn id
    · rw [hsup] at hlife
      exact hheld id life hlife
  · rw [hbegin] at hsup
    have hrecord : d.sup.log =
        .began other (.down n pending) sup.nextIncarnation origin :: sup.log := by
      rw [hsup]
      exact if_pos hfactory
    have hentry (id : ActorId) : d.sup.registry.life id =
        if id = other then (sup.registry.life other).map
          fun _ => .restarting n sup.nextIncarnation
        else sup.registry.life id := by
      rw [hsup, life_begin]
    refine .next other ?_ (fun id hne => ?_) (by rw [hsup, ← hcounter]; rfl) (fun life hlife => ?_)
      fun id hne life hlife => ?_
    · rw [hrecord, ← hcounter, ← hdrawn other]
      simp [drawnFor, Obs.drawsFor]
    · rw [hrecord, ← hdrawn id]
      simp [drawnFor, Obs.drawsFor, Ne.symm hne]
    · rw [hentry, if_pos rfl] at hlife
      obtain ⟨_, _, rfl⟩ := Option.map_eq_some_iff.mp hlife
      exact hcounter
    · rw [hentry, if_neg hne] at hlife
      exact hheld id life hlife

/-- Every move draws in one of the ways above. -/
theorem Move.draws (hmove : Move rules c d) (hfit : SpecsFit c) : Draws c d := by
  have hentries : ∀ id, EntryChange c d id := fun id => hmove.entry
  have hself : ∀ id life, c.sup.registry.life id = some life →
      ∃ before, c.sup.registry.life id = some before ∧ before.heldToken = life.heldToken :=
    fun id life hlife => ⟨life, hlife, rfl⟩
  have hsame (hlog : d.sup.log = c.sup.log)
      (hcounter : d.sup.nextIncarnation = c.sup.nextIncarnation) : Draws c d :=
    .of_entries hentries [] hlog (by simp) hcounter
  have hnoted (obs : Obs) (hlog : d.sup.log = obs :: c.sup.log) (hobs : obs.begins = none)
      (hcounter : d.sup.nextIncarnation = c.sup.nextIncarnation) : Draws c d :=
    .of_entries hentries [obs] hlog (by simpa using hobs) hcounter
  have hup (hlooping : c.stage = .looping) : c.stage ≠ .down := by
    rw [hlooping]
    simp
  cases hmove with
  | plane hplane =>
    obtain ⟨⟨_, _, _, _, _, obs, rfl, hobs⟩, hcounter, _, _⟩ := hplane.frame
    refine .nothing (fun id => ?_) hcounter hself
    exact drawnFor_append_of_begins fun o ho => (Obs.neutral_of_plane (hobs o ho)).1
  | group hgroup =>
    obtain ⟨group, slots, obs, rfl, hobs⟩ := hgroup.frame
    exact .of_entries hentries obs rfl (fun o ho => (Obs.neutral_of_group (hobs o ho)).1) rfl
  | spawn other name restartType shutdown habsent =>
    have hentry (id : ActorId) : (c.sup.spawnChildInternal other name restartType
        shutdown).registry.life id =
        if id = other then some (.running c.sup.nextIncarnation)
        else c.sup.registry.life id := by
      change (Registry.get (c.sup.registry ++ [_]) id).map _ = _
      rw [Registry.get_append]
      by_cases heq : id = other
      · subst heq
        rw [habsent]
        simp
      · dsimp only
        rw [if_neg (Ne.symm heq), Option.or_none, if_neg heq]
        rfl
    refine .next other ?_ (fun id hne => ?_) rfl (fun life hlife => ?_)
      fun id hne life hlife => ?_
    · change drawnFor other (.spawned other _ :: c.sup.log) = _
      simp [drawnFor, Obs.drawsFor]
    · change drawnFor id (.spawned other _ :: c.sup.log) = _
      simp [drawnFor, Obs.drawsFor, Ne.symm hne]
    · rw [hentry, if_pos rfl] at hlife
      cases hlife
      rfl
    · rw [hentry, if_neg hne] at hlife
      exact hself id life hlife
  | rebound other n child reason hquiet hentry hstopped hunplanned hup =>
    have hlife := Registry.life_of_get hentry
    have hheld : child.lifecycle.heldToken = n := by
      rcases hstopped with h | ⟨h, _⟩ <;> rw [h] <;> rfl
    refine .of_initiate ((c.sup.transition other (.down n .snapshot)).keepSnapshot other n
        ⟨other, child.name, reason, .restartInitiated⟩) [] rfl (by simp) rfl
          (fun id life hdown => ?_) (hfit.factory hup hlife) rfl
    change (c.sup.registry.transition other (.down n .snapshot)).life id = _ at hdown
    rw [Registry.life_transition] at hdown
    split at hdown
    next heq =>
      subst heq
      rw [hlife, Option.map_some, Registry.moved, if_pos (isLegal_down_iff.mpr hheld)] at hdown
      cases hdown
      exact ⟨_, hlife, hheld⟩
    · exact hself id life hdown
  | restart other n pending hquiet hentry hunplanned hheeded hup =>
    exact .of_initiate c.sup [] rfl (by simp) rfl hself (hfit.factory hup hentry) rfl
  | «begin» _ _ hlooping _ _ hentry | chainBegin _ _ _ _ _ hlooping _ _ _ hentry =>
    exact .of_initiate c.sup [] rfl (by simp) rfl hself (hfit.factory (hup hlooping) hentry) rfl
  | takeLost => exact .of_entries hentries [_, _] rfl (by simp [Obs.begins]) rfl
  | cancel task =>
    exact hnoted _ (by rw [frame_recordCancelled]) rfl (by rw [frame_recordCancelled])
  | close ev work event budget obs hlooping hunplanned hhead hopens hjudged =>
    exact .of_entries hentries obs rfl (fun o ho => (hjudged.neutral o ho).1) rfl
  | collect | discard =>
    exact hsame (by rw [frame_recordCollectedEnd]) (by rw [frame_recordCollectedEnd])
  | discardLost task panic =>
    exact hnoted _ (by rw [frame_recordCollectedEnd]) rfl (by rw [frame_recordCollectedEnd])
  | subtree | commit | crash | rewrite | decide | install | adoptStale | drop | snapshot
  | retitle | reorder | owe | enter | gather | drainRestarts | drainDeaths | teardown
  | refuse | kill | abort | lay | queue | absorb | record | dismiss | absorbSnapshot =>
    exact hsame rfl rfl
  | _ => exact hnoted _ rfl rfl rfl

/-! ## The last token -/

/-- The entry of a child holds the last token that was drawn for it. -/
structure Tokened (c : Config) : Prop where
  specs : SpecsFit c
  ordered : ∀ id, (drawnFor id c.sup.log).Pairwise (· > ·)
  drawn : ∀ id, ∀ n ∈ drawnFor id c.sup.log, n < c.sup.nextIncarnation
  last : ∀ id life, c.sup.registry.life id = some life →
    (drawnFor id c.sup.log).head? = some life.heldToken

theorem Tokened.step (htokened : Tokened c) (hmove : Move rules c d) : Tokened d := by
  have hlast {other : ActorId} (hheld : HoldsStill c d other)
      (hlog : drawnFor other d.sup.log = drawnFor other c.sup.log) {life : ChildLifecycle}
      (hlife : d.sup.registry.life other = some life) :
      (drawnFor other d.sup.log).head? = some life.heldToken := by
    obtain ⟨before, hbefore, hsame⟩ := hheld life hlife
    rw [hlog, ← hsame]
    exact htokened.last other before hbefore
  cases hmove.draws htokened.specs with
  | nothing hlog hcounter hheld =>
    refine ⟨htokened.specs.step hmove, fun id => ?_, fun id n hn => ?_, fun id life hlife => ?_⟩
    · rw [hlog]
      exact htokened.ordered id
    · rw [hlog] at hn
      exact Nat.lt_of_lt_of_le (htokened.drawn id n hn) hcounter
    · exact hlast (hheld id) (hlog id) hlife
  | next id hlog hothers hcounter hentry hheld =>
    refine ⟨htokened.specs.step hmove, fun other => ?_, fun other n hn => ?_,
      fun other life hlife => ?_⟩
    · by_cases heq : other = id
      · subst heq
        rw [hlog]
        exact .cons (htokened.drawn other) (htokened.ordered other)
      · rw [hothers other heq]
        exact htokened.ordered other
    · rw [hcounter]
      by_cases heq : other = id
      · subst heq
        rw [hlog] at hn
        rcases List.mem_cons.mp hn with rfl | hold
        · exact Nat.lt_succ_self _
        · exact Nat.lt_succ_of_lt (htokened.drawn other n hold)
      · rw [hothers other heq] at hn
        exact Nat.lt_succ_of_lt (htokened.drawn other n hn)
    · by_cases heq : other = id
      · subst heq
        rw [hlog, hentry life hlife]
        rfl
      · exact hlast (hheld other heq) (hothers other heq) hlife

variable {strategy : RestartStrategy} {maxRestarts restartWindow : Nat} {s t : Sys}

theorem tokened_of_reaches
    (hreach : Sys.Reaches rules.Allows strategy maxRestarts restartWindow s) :
    Tokened s.config := by
  refine hreach.books ⟨specsFit_init, fun id => .nil, fun id n hn => ?_, fun id life hlife => ?_⟩
    fun c d _ htokened hmove => htokened.step hmove
  · cases hn
  · cases hlife

/-- Between two moments of a run, the entry of a child moves on exactly when a
token is drawn for the child, and then holds the last one. -/
theorem held_between {since : List Obs} (hbefore : Tokened c) (hafter : Tokened d)
    (hlog : d.sup.log = since ++ c.sup.log) {before after : ChildLifecycle}
    (hold : c.sup.registry.life id = some before) (hnew : d.sup.registry.life id = some after) :
    before.heldToken ≤ after.heldToken ∧
      (before.heldToken < after.heldToken ↔
        ∃ obs ∈ since, obs.drawsFor id = some after.heldToken) := by
  have hdrawn : drawnFor id d.sup.log = drawnFor id since ++ drawnFor id c.sup.log := by
    rw [hlog]
    exact List.filterMap_append
  have hlast := hafter.last id after hnew
  have hordered := hafter.ordered id
  rw [hdrawn] at hlast hordered
  have hfirst : before.heldToken ∈ drawnFor id c.sup.log :=
    List.mem_of_mem_head? (hbefore.last id before hold)
  cases hnext : drawnFor id since with
  | nil =>
    rw [hnext, List.nil_append, hbefore.last id before hold] at hlast
    have hsame : before.heldToken = after.heldToken := Option.some.inj hlast
    refine ⟨Nat.le_of_eq hsame, fun hlt => absurd hsame (Nat.ne_of_lt hlt), ?_⟩
    rintro ⟨obs, hobs, hdraws⟩
    have hmem : after.heldToken ∈ drawnFor id since :=
      List.mem_filterMap.mpr ⟨obs, hobs, hdraws⟩
    rw [hnext] at hmem
    cases hmem
  | cons n =>
    rw [hnext, List.cons_append] at hlast hordered
    have hn : n = after.heldToken := Option.some.inj hlast
    have hlt : before.heldToken < after.heldToken := by
      rw [← hn]
      exact (List.pairwise_cons.mp hordered).1 _ (List.mem_append_right _ hfirst)
    refine ⟨Nat.le_of_lt hlt, fun _ => ?_, fun _ => hlt⟩
    have hmem : after.heldToken ∈ drawnFor id since := by
      rw [hnext, hn]
      exact List.mem_cons_self
    obtain ⟨obs, hobs, hdraws⟩ := List.mem_filterMap.mp hmem
    exact ⟨obs, hobs, hdraws⟩

end TokioActors
