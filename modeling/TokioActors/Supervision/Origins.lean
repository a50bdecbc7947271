/-
# Who began an attempt

An attempt that a `restart_child` began stays one for as long as it is in the
ledger, and no chain takes it for its own.
-/

import TokioActors.Supervision.Runs

namespace TokioActors

open SupervisionState

variable {rules : Rules} {c d : Config} {sup : SupervisionState} {id other : ActorId} {n : Token}

/-! ## The ledger -/

namespace Registry

variable {registry : Registry}

/-- What attempt there is under the token, a call began it. -/
def ByCall (registry : Registry) (id : ActorId) (n : Token) : Prop :=
  ∀ child p, registry.get id = some child → child.lifecycle = .restarting p n →
    child.origin = .manual

theorem ByCall.transition {target : ChildLifecycle} (hcall : registry.ByCall id n)
    (htarget : target.isRestarting = false) : (registry.transition other target).ByCall id n := by
  intro child p hget hattempt
  rw [get_transition] at hget
  split at hget
  next heq =>
    subst heq
    obtain ⟨old, hold, rfl⟩ := Option.map_eq_some_iff.mp hget
    dsimp only [moved] at hattempt
    split at hattempt
    · rw [hattempt] at htarget
      cases htarget
    · exact hcall old p hold hattempt
  · exact hcall child p hget hattempt

theorem ByCall.noteSubtree {slots : Token → Slot} (hcall : registry.ByCall id n) :
    (registry.noteSubtree slots other).ByCall id n := by
  intro child p hget hattempt
  rw [Registry.noteSubtree, get_modify (by intro child; split <;> rfl)] at hget
  split at hget
  next heq =>
    subst heq
    obtain ⟨old, hold, rfl⟩ := Option.map_eq_some_iff.mp hget
    split at hattempt
    next hpublished =>
      rw [if_pos hpublished]
      exact hcall old p hold hattempt
    next hpublished =>
      rw [if_neg hpublished]
      exact hcall old p hold hattempt
  · exact hcall child p hget hattempt

end Registry

theorem byCall_initiateRestart {origin : Origin} (hdrawn : n < sup.nextIncarnation)
    (hcall : sup.registry.ByCall id n) :
    (sup.initiateRestart other origin).registry.ByCall id n := by
  rcases @initiateRestart_cases sup other origin with hsame | ⟨_, m, pending, _, _, _, hbegin⟩
  · rw [hsame]
    exact hcall
  · rw [hbegin]
    intro child p hget hattempt
    rw [get_begin] at hget
    split at hget
    · obtain ⟨old, _, rfl⟩ := Option.map_eq_some_iff.mp hget
      cases hattempt
      exact absurd hdrawn (Nat.lt_irrefl _)
    · exact hcall child p hget hattempt

/-- A move begins an attempt under a new token only. -/
theorem Move.byCall (hmove : Move rules c d) (hdrawn : n < c.sup.nextIncarnation)
    (hcall : c.sup.registry.ByCall id n) : d.sup.registry.ByCall id n := by
  have hcollected {sup : SupervisionState} {other : ActorId} {m : Token}
      (hsame : sup.registry = c.sup.registry) :
      (Sys.recordCollectedEnd sup other m).registry.ByCall id n := by
    rw [registry_recordCollectedEnd, hsame]
    split
    · exact hcall.transition rfl
    · exact hcall
  cases hmove with
  | plane hplane =>
    obtain ⟨_, _, _, _, _, _, rfl, _⟩ := hplane.frame.same
    exact hcall
  | group hgroup =>
    obtain ⟨_, _, _, rfl, _⟩ := hgroup.frame
    exact hcall
  | spawn other name restartType shutdown habsent =>
    intro child p hget hattempt
    change Registry.get (c.sup.registry ++ [_]) id = some child at hget
    rw [Registry.get_append, Option.or_eq_some_iff] at hget
    rcases hget with hget | ⟨_, hget⟩
    · exact hcall child p hget hattempt
    · split at hget <;> cases hget
      cases hattempt
  | subtree => exact hcall.noteSubtree
  | commit | crash | record | dismiss | close | queue | absorb | absorbSnapshot =>
    exact hcall.transition rfl
  | rebound other m child =>
    exact @byCall_initiateRestart ((c.sup.transition other (.down m .snapshot)).keepSnapshot other m
      _) id other n .bounce hdrawn (hcall.transition rfl)
  | restart | «begin» | chainBegin => exact byCall_initiateRestart hdrawn hcall
  | prune other =>
    intro child p hget hattempt
    change (c.sup.registry.remove other).get id = some child at hget
    rw [Registry.get_remove] at hget
    split at hget
    · cases hget
    · exact hcall child p hget hattempt
  | cancel =>
    dsimp only [Config.withSup]
    unfold Sys.recordCancelled
    split
    · split
      · exact hcall.transition rfl
      · exact hcall
    · exact hcall
  | adopt => exact (hcall.transition rfl).noteSubtree
  | snapshot ev =>
    change Registry.ByCall (ite _ _ _) id n
    split
    · exact hcall.transition rfl
    · exact hcall
  | collect | discard | discardLost => exact hcollected rfl
  | _ => exact hcall

/-! ## The chain -/

/-- No pending chain started the incarnation. -/
def SupervisionState.Unstarted (sup : SupervisionState) (id : ActorId) (n : Token) : Prop :=
  ∀ chain, sup.pendingGroup = some (.restarting chain) → chain.started.lookup id ≠ some n

namespace SupervisionState.Unstarted

variable {next : SupervisionState}

theorem map {f : GroupPhase → GroupPhase} (hnone : sup.Unstarted id n)
    (hgroup : next.pendingGroup = sup.pendingGroup.map f)
    (hf : ∀ phase chain, f phase = .restarting chain → chain.started.lookup id = some n →
      ∃ old, phase = .restarting old ∧ old.started.lookup id = some n) : next.Unstarted id n := by
  intro chain hchain hstarted
  rw [hgroup] at hchain
  obtain ⟨phase, hphase, hnext⟩ := Option.map_eq_some_iff.mp hchain
  obtain ⟨old, rfl, hold⟩ := hf phase chain hnext hstarted
  exact hnone old hphase hold

theorem initiateRestart {origin : Origin} (hnone : sup.Unstarted id n)
    (hapart : n ≠ sup.nextIncarnation) : (sup.initiateRestart other origin).Unstarted id n := by
  rcases @initiateRestart_cases sup other origin with hsame | ⟨_, m, pending, _, _, _, hbegin⟩
  · rw [hsame]
    exact hnone
  · rw [hbegin]
    unfold «begin»
    dsimp only
    split
    · refine hnone.map rfl fun phase chain hchain hstarted => ?_
      cases phase with
      | stopping => cases hchain
      | restarting old =>
        cases hchain
        refine ⟨old, rfl, ?_⟩
        by_cases heq : id = other
        · rw [heq, Finmap.lookup_insert] at hstarted
          exact absurd (Option.some.inj hstarted).symm hapart
        · rwa [Finmap.lookup_insert_of_ne _ heq] at hstarted
    · exact hnone

theorem layOut {commit : List Committed} {overrides : TokenMap} {scope : GroupScope}
    (hgroup : next.pendingGroup = some (layOut commit overrides scope)) : next.Unstarted id n := by
  intro chain hchain
  rw [hgroup] at hchain
  unfold TokioActors.layOut at hchain
  split at hchain <;> cases hchain
  rw [Finmap.lookup_empty]
  simp

end SupervisionState.Unstarted

theorem GroupMove.unstarted {next : SupervisionState} (hmove : GroupMove sup next)
    (hnone : sup.Unstarted id n) : next.Unstarted id n := by
  intro chain hchain
  cases hmove with
  | stopPop | stopAct | settle | awaitAdopted => cases hchain
  | finish =>
    cases hchain
    rw [Finmap.lookup_empty]
    simp
  | chainGone old front rest hpending | chainFresh old front rest m hpending =>
    cases hchain
    exact hnone old hpending
  | foreign => exact hnone chain hchain
  | keep =>
    refine hnone.map rfl (fun phase chain hchain hstarted => ?_) chain hchain
    cases phase <;> split at hchain <;> cases hchain <;>
      exact ⟨_, rfl, hstarted⟩
  | leaveGone =>
    refine hnone.map rfl (fun phase chain hchain hstarted => ?_) chain hchain
    cases phase <;> cases hchain
    exact ⟨_, rfl, hstarted⟩

/-- A chain starts an incarnation under a new token only. -/
theorem Move.unstarted (hmove : Move rules c d)
    (hapart : n < c.sup.nextIncarnation ∨ d.sup.nextIncarnation ≤ n)
    (hnone : c.sup.Unstarted id n) : d.sup.Unstarted id n := by
  have hcollected {sup : SupervisionState} {other : ActorId} {m : Token}
      (hsame : sup.pendingGroup = c.sup.pendingGroup) :
      (Sys.recordCollectedEnd sup other m).Unstarted id n := by
    intro chain hchain
    refine hnone chain (hsame.symm.trans ?_)
    unfold Sys.recordCollectedEnd settleBarrier at hchain
    dsimp only at hchain
    split at hchain <;> split at hchain <;> (try split at hchain) <;> first
      | exact hchain
      | cases hchain
  have hnew (hbegins : d.sup.nextIncarnation = c.sup.nextIncarnation + 1) :
      n ≠ c.sup.nextIncarnation := by
    rcases hapart with hlt | hle
    · exact hlt.ne
    · rw [hbegins] at hle
      exact (Nat.lt_of_succ_le hle).ne'
  have hcounter {sup : SupervisionState} {other : ActorId} {origin : Origin} :
      (sup.initiateRestart other origin).nextIncarnation = sup.nextIncarnation + 1 := by
    rw [frame_initiateRestart]
  cases hmove with
  | plane hplane =>
    obtain ⟨_, _, _, _, _, _, rfl, _⟩ := hplane.frame.same
    exact hnone
  | group hgroup => exact hgroup.unstarted hnone
  | rebound other m child =>
    refine Unstarted.initiateRestart hnone (hnew ?_)
    exact hcounter
  | restart | «begin» | chainBegin => exact hnone.initiateRestart (hnew hcounter)
  | release phase other life _ _ hentry =>
    refine hnone.map (Option.map_map _ _ _) fun phase chain hchain hstarted => ?_
    cases phase <;> simp only [Function.comp_apply, hentry] at hchain <;> cases hchain
    exact ⟨_, rfl, hstarted⟩
  | prune other =>
    refine hnone.map rfl fun phase chain hchain hstarted => ?_
    cases phase with
    | stopping => cases hchain
    | restarting old =>
      cases hchain
      refine ⟨old, rfl, ?_⟩
      by_cases heq : id = other
      · rw [heq, Finmap.lookup_erase] at hstarted
        cases hstarted
      · rwa [Finmap.lookup_erase_ne heq] at hstarted
  | complete | drainDeaths | teardown =>
    intro chain hchain
    cases hchain
  | install | reinstall => exact .layOut rfl
  | cancel =>
    rw [frame_recordCancelled]
    exact hnone
  | collect | discard | discardLost => exact hcollected rfl
  | _ => exact hnone

/-! ## Along a run -/

variable {s t : Sys} {strategy : RestartStrategy} {maxRestarts restartWindow : Nat}

theorem Sys.Reaches.unstarted
    (hreach : Sys.Reaches Machine.always strategy maxRestarts restartWindow s) :
    ∀ n, s.sup.nextIncarnation ≤ n → s.sup.Unstarted id n := by
  refine @Sys.Reaches.books Rules.free s strategy maxRestarts restartWindow
    (fun c => ∀ n, c.sup.nextIncarnation ≤ n → c.sup.Unstarted id n) ?_ ?_ hreach.free
  · intro n _ chain hchain
    cases hchain
  · intro c d _ hnone hmove n hn
    exact hmove.unstarted (.inr hn) (hnone n (hmove.grows.2.trans hn))

/-- What a `restart_child` begins is an attempt of a call, and no chain's. -/
theorem restartChild_begins (hsound : Sound s.config)
    (hnone : s.sup.Unstarted id s.sup.nextIncarnation)
    (hstep : s.step (.call (.restartChild id)) = some t) :
    t.sup.registry.ByCall id s.sup.nextIncarnation ∧ t.sup.Unstarted id s.sup.nextIncarnation := by
  have hfresh : s.sup.registry.ByCall id s.sup.nextIncarnation := by
    intro child p hget hattempt
    have hlt := hsound.fresh id _ (Registry.life_of_get hget)
    rw [hattempt] at hlt
    exact absurd hlt (Nat.lt_irrefl _)
  have hsup : t.sup = s.sup ∨ t.sup = { s.sup with nextIncarnation := s.sup.nextIncarnation + 1 } ∨
      t.sup = s.sup.initiateRestart id .manual := by
    simp only [Sys.step, Sys.callStep] at hstep
    split at hstep
    · cases hcall : s.call <;> rw [hcall] at hstep <;> cases hstep
      split
      · exact .inl rfl
      · unfold restartChild
        dsimp only
        split
        · exact .inr (.inr rfl)
        · exact .inr (.inl rfl)
    · cases hstep
  rcases hsup with h | h | h <;> rw [h]
  · exact ⟨hfresh, hnone⟩
  · exact ⟨hfresh, hnone⟩
  · rcases @initiateRestart_cases s.sup id .manual with hsame | ⟨_, m, pending, _, _, _, hbegin⟩
    · rw [hsame]
      exact ⟨hfresh, hnone⟩
    · rw [hbegin]
      constructor
      · intro child p hget _
        rw [get_begin, if_pos rfl] at hget
        obtain ⟨old, _, rfl⟩ := Option.map_eq_some_iff.mp hget
        rfl
      · intro chain hchain
        unfold «begin» at hchain
        dsimp only at hchain
        rw [if_neg (by simp)] at hchain
        exact hnone chain hchain

/-- An attempt that a `restart_child` began is one for as long as it is in the ledger. -/
theorem Moves.byCall (hmoves : Moves rules c d) (hdrawn : n < c.sup.nextIncarnation)
    (hcall : c.sup.registry.ByCall id n ∧ c.sup.Unstarted id n) :
    d.sup.registry.ByCall id n ∧ d.sup.Unstarted id n := by
  induction hmoves with
  | refl => exact hcall
  | tail hbefore hlast ih =>
    have hstill := Nat.lt_of_lt_of_le hdrawn (Moves.grows hbefore).2
    exact ⟨hlast.byCall hstill ih.1, hlast.unstarted (.inl hstill) ih.2⟩

end TokioActors
