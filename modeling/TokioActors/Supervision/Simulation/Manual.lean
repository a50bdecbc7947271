/-
# The manual calls as moves

The classification of a completed manual stop, the effects of a commit and the
two calls that answer at once are sequences of moves.
-/

import TokioActors.Supervision.Simulation.Group

namespace TokioActors

open SupervisionState ChildLifecycle Registry

variable {rules : Rules} {c : Config} {id : ActorId}
variable {sup next : SupervisionState} {child : Child} {reason : StopReason}

/-! ## Unplanned children -/

/-- A child the group neither waits for nor restarts, read off the group. -/
theorem unplanned_iff : sup.Unplanned id ↔
    ∀ phase life, sup.pendingGroup = some phase → sup.registry.life id = some life →
      (phase.awaiting.lookup id = some life.heldToken →
        (sup.pendingManualEvents.lookup (id, life.heldToken)).isSome ∧ id ∉ phase.order) ∧
      (phase.awaiting.lookup id = none → id ∉ phase.order) := by
  unfold Unplanned groupMembership
  cases hpending : sup.pendingGroup with
  | none => simp
  | some phase =>
    cases hlife : sup.registry.life id with
    | none =>
      simp only [Option.some.injEq, Option.map_none, reduceCtorEq, false_implies,
        implies_true, iff_true]
      cases phase.awaiting.lookup id with
      | none => simp [releasedIn]
      | some => simp
    | some life =>
      simp only [Option.some.injEq, Option.map_some, Option.isSome_some, true_and]
      cases hawaited : phase.awaiting.lookup id with
      | none =>
        by_cases horder : id ∈ phase.order
        · simp [horder, hawaited]
        · by_cases hreleased : releasedIn phase.overrides id (some life) = true <;>
            simp [horder, hreleased, hawaited]
      | some awaited =>
        by_cases hheld : life.heldToken = awaited
        · subst hheld
          cases hevent : sup.pendingManualEvents.lookup (id, life.heldToken) with
          | none => simp [hevent, hawaited]
          | some =>
            by_cases horder : id ∈ phase.order
            · simp [horder, hevent, hawaited]
            · by_cases hreleased : releasedIn phase.overrides id (some life) = true <;>
                simp [horder, hreleased, hevent, hawaited]
        · have hne : awaited ≠ life.heldToken := Ne.symm hheld
          simp [hheld, hne, hawaited]

/-- A child stays unplanned while its entry holds the same incarnation and no
snapshot is lost. -/
theorem SupervisionState.Unplanned.of_same (hunplanned : sup.Unplanned id)
    (hgroup : next.pendingGroup = sup.pendingGroup)
    (hheld : ∀ life, next.registry.life id = some life → ∃ old,
      sup.registry.life id = some old ∧ old.heldToken = life.heldToken)
    (hkept : ∀ n, (sup.pendingManualEvents.lookup (id, n)).isSome →
      (next.pendingManualEvents.lookup (id, n)).isSome) : next.Unplanned id := by
  rw [unplanned_iff] at hunplanned ⊢
  intro phase life hphase hlife
  obtain ⟨old, hold, hsame⟩ := hheld life hlife
  obtain ⟨hawaited, hnone⟩ := hunplanned phase old (hgroup ▸ hphase) hold
  rw [hsame] at hawaited
  exact ⟨fun h => ⟨hkept _ (hawaited h).1, (hawaited h).2⟩, hnone⟩

/-! ## The classification of a completed stop -/

theorem lookup_insert_isSome {key other : ActorId × Token} {event : ChildEvent}
    {events : Finmap fun _ : ActorId × Token => ChildEvent} (hsome : (events.lookup other).isSome) :
    ((events.insert key event).lookup other).isSome := by
  by_cases heq : other = key
  · subst heq
    simp
  · rwa [Finmap.lookup_insert_of_ne _ heq]

/-- The decisions of a completed manual stop. -/
theorem classifyManual_cases {kind : ManualStop} {reason : StopReason} {restartType : RestartType}
    {pool inRestartSet : Bool} :
    (kind = .bounce ∧ reason.isFailure = true ∧
        classifyManual kind reason restartType pool inRestartSet =
          ⟨none, .evaluate, false, false⟩) ∨
      classifyManual kind reason restartType pool inRestartSet =
        ⟨some .restartInitiated, .snapshot, false, false⟩ ∨
      classifyManual kind reason restartType pool inRestartSet =
        ⟨some .removed, if pool || restartType == .temporary then .none else .snapshot,
          pool || restartType == .temporary, false⟩ ∨
      (kind = .bounce ∧ inRestartSet = false ∧
        classifyManual kind reason restartType pool inRestartSet =
          ⟨some .restartInitiated, .snapshot, false, true⟩) := by
  unfold classifyManual
  split
  next hcrash => exact .inl ⟨hcrash.1, hcrash.2, rfl⟩
  · split
    · exact .inr (.inl rfl)
    next hset =>
      have hset' : inRestartSet = false := by simpa using hset
      cases kind with
      | terminate => exact .inr (.inr (.inl rfl))
      | bounce =>
        dsimp only
        split
        · exact .inr (.inr (.inl rfl))
        · split
          · exact .inr (.inr (.inr ⟨rfl, hset', rfl⟩))
          · exact .inr (.inr (.inl rfl))

/-- How the entry of a completed manual stop may stand. -/
def StoppedBy (sup : SupervisionState) (id : ActorId) (life : ChildLifecycle) (n : Token)
    (kind : ManualStop) : Prop :=
  life = .stopping n kind ∨ life = .running n ∧ (kind = .bounce → sup.Unplanned id)

/-- The spec of a child goes after its end was recorded. -/
theorem move_prune {life : ChildLifecycle} {n : Token} {event : ChildEvent}
    (hquiet : rules.quiet → c.plan = none) :
    Move rules (c.withSup ((c.sup.transition id life).keepSnapshot id n event))
      (c.withSup ((c.sup.keepSnapshot id n event).removeSpec id)) := by
  have hprune := @Move.prune rules (c.withSup ((c.sup.transition id life).keepSnapshot id n event))
    id fun h => Config.unlaid_of_none (hquiet h)
  exact congrArg c.withSup (@removeSpec_transition (c.sup.keepSnapshot id n event) id life) ▸ hprune

theorem moves_classifyManualCompletion {n : Token} {kind : ManualStop} {reason : StopReason}
    {child : Child} (hquiet : rules.quiet → c.plan = none)
    (hget : c.sup.registry.get id = some child)
    (hstopped : StoppedBy c.sup id child.lifecycle n kind) (hruns : c.stage ≠ .down) :
    Moves rules c (c.withSup (c.sup.classifyManualCompletion id n kind reason)) := by
  have hup : child.lifecycle = .running n ∨ ∃ kind, child.lifecycle = .stopping n kind := by
    rcases hstopped with h | h
    · exact .inr ⟨kind, h⟩
    · exact .inl h.1
  have hbounced (hkind : kind = .bounce) : child.lifecycle = .stopping n .bounce ∨
      child.lifecycle = .running n ∧ c.sup.Unplanned id := by
    subst hkind
    exact hstopped.imp_right fun h => ⟨h.1, h.2 rfl⟩
  have hrecord (pending : DownPending) (hrests : pending ≠ .evaluate) (action : SupervisionAction) :
      Move rules c _ := .record id n child pending reason action hquiet hget hup hrests
  unfold classifyManualCompletion
  rw [hget]
  dsimp only
  rcases @classifyManual_cases kind reason child.restartType c.sup.pool (c.sup.inRestartSet id)
    with ⟨hkind, _, hcrash⟩ | hmember | hdown | ⟨hkind, hset, hrebound⟩
  · rw [hcrash]
    exact .single (.crash id n child.lifecycle reason hquiet (life_of_get hget)
      (hbounced hkind))
  · rw [hmember]
    exact .single (hrecord .snapshot (by simp) .restartInitiated)
  · rw [hdown]
    -- A stop that leaves its child down keeps a snapshot, and may remove the spec.
    cases c.sup.pool || child.restartType == .temporary with
    | false => exact .single (hrecord .snapshot (by simp) .removed)
    | true => exact .head (hrecord .none (by simp) .removed) (.single (move_prune hquiet))
  · rw [hrebound]
    exact .single (.rebound id n child reason hquiet hget (hbounced hkind) hset hruns)

/-! ## The effects of a commit -/

/-- An effect that only commands the child's slot. -/
def CommitEffect.commands : CommitEffect → Bool
  | .raiseFirst => true
  | .writeOrder => true
  | .reask => true
  | .reaskOnce => true
  | _ => false

theorem moves_updateCtl {f : Slot → Slot} :
    ∃ slots, c.sup.updateCtl id f = { c.sup with slots := slots } ∧
      Moves rules c (c.withSup { c.sup with slots := slots }) := by
  unfold updateCtl
  cases c.sup.registry.get id with
  | none => exact ⟨c.sup.slots, rfl, .refl⟩
  | some child => exact ⟨_, rfl, .command child.ctl f⟩

theorem moves_commands {policy : Shutdown} {n : Token} {kind : ManualStop} {raised : Bool}
    {effects rest : List CommitEffect} (heffects : ∀ effect ∈ effects, effect.commands = true) :
    ∃ slots raised', Moves rules c (c.withSup { c.sup with slots := slots }) ∧
      runEffects id policy n kind c.sup raised (effects ++ rest) =
        runEffects id policy n kind { c.sup with slots := slots } raised' rest := by
  induction effects generalizing c raised with
  | nil => exact ⟨c.sup.slots, raised, .refl, rfl⟩
  | cons effect effects ih =>
    have hrest : ∀ effect ∈ effects, effect.commands = true :=
      fun other hother => heffects other (List.mem_cons_of_mem _ hother)
    -- One command, then the others from the slots it left.
    have hone (f : Slot → Slot) (raised' : Bool)
        (hrun : runEffects id policy n kind c.sup raised (effect :: (effects ++ rest)) =
          runEffects id policy n kind (c.sup.updateCtl id f) raised' (effects ++ rest)) :
        ∃ slots raised', Moves rules c (c.withSup { c.sup with slots := slots }) ∧
          runEffects id policy n kind c.sup raised (effect :: (effects ++ rest)) =
            runEffects id policy n kind { c.sup with slots := slots } raised' rest := by
      obtain ⟨slots, hslots, hmoves⟩ := @moves_updateCtl rules c id f
      obtain ⟨slots', raised'', hmoves', hrun'⟩ :=
        @ih (c.withSup { c.sup with slots := slots }) raised' hrest
      refine ⟨slots', raised'', hmoves.trans hmoves', ?_⟩
      rw [hrun, hslots]
      exact hrun'
    have hcommands := heffects effect List.mem_cons_self
    cases effect with
    | raiseFirst | writeOrder | reask | reaskOnce => exact hone _ _ rfl
    | _ => cases hcommands

theorem joinAsk_commands {f : ManualFacts} {shared : Bool} :
    ∀ effect ∈ joinAsk f shared, effect.commands = true := by
  unfold joinAsk
  intro effect heffect
  split at heffect
  · cases heffect
  · split at heffect
    · split at heffect
      · cases heffect
      · rw [List.mem_singleton.mp heffect]
        rfl
    · rw [List.mem_singleton.mp heffect]
      rfl

/-- The effect that ends a commit: the call answers, or waits. -/
def CommitEffect.ends : CommitEffect → Bool
  | .join | .answer _ => true
  | _ => false

variable {policy : Shutdown} {n : Token} {kind : ManualStop} {raised : Bool}
  {effects rest : List CommitEffect} {last : CommitEffect} {overridden : Bool}

abbrev EffectMoves (rules : Rules) (c : Config) (id : ActorId) (policy : Shutdown) (n : Token)
    (kind : ManualStop) (raised : Bool) (effects : List CommitEffect) : Prop :=
  Moves rules c (c.withSup (runEffects id policy n kind c.sup raised effects).1)

theorem effectMoves_last (hlast : last.ends = true) :
    EffectMoves rules c id policy n kind raised [last] := by
  cases last with
  | join | answer => exact .refl
  | _ => cases hlast

theorem effectMoves_commands (heffects : ∀ effect ∈ effects, effect.commands = true)
    (hrest : ∀ slots raised, EffectMoves rules (c.withSup { c.sup with slots := slots }) id policy n
      kind raised rest) :
    EffectMoves rules c id policy n kind raised (effects ++ rest) := by
  obtain ⟨slots, raised', hmoves, hrun⟩ :=
    @moves_commands rules c id policy n kind raised effects rest heffects
  unfold EffectMoves
  rw [hrun]
  exact hmoves.trans (hrest slots raised')

/-- The child may be kept down by an override of the group it is outside of. -/
def SupervisionState.Keepable (sup : SupervisionState) (id : ActorId) : Prop :=
  sup.Unplanned id ∧ ∃ life, sup.registry.life id = some life ∧ life.KeptDown life.heldToken none

/-- A stop outside the group records its override, when it is in the group's
scope. -/
theorem effectMoves_recordIf {f : ManualFacts} {specKept : Bool} (hlast : last.ends = true)
    (hkeeps : specKept = true → c.sup.Keepable id) :
    EffectMoves rules c id policy n kind raised (recordIf f specKept ++ [last]) := by
  unfold recordIf
  split
  next hrecord =>
    rw [Bool.and_eq_true] at hrecord
    obtain ⟨hunplanned, life, hlife, hdown⟩ := hkeeps hrecord.2
    exact .head (.group (.keep id life hunplanned hlife hdown))
      (@effectMoves_last rules (c.withSup (c.sup.recordOverride id)) id policy n kind raised last
        hlast)
  · exact effectMoves_last hlast

/-- A stop of a member takes it out of the restart set, and commands its slot. -/
theorem effectMoves_release {phase : GroupPhase} {life : ChildLifecycle}
    (hquiet : rules.quiet → c.plan = none) (hpending : c.sup.pendingGroup = some phase)
    (hlife : c.sup.registry.life id = some life)
    (hdown : life.KeptDown life.heldToken (phase.awaiting.lookup id))
    (hrest : EffectMoves rules (c.withSup ((c.sup.recordOverride id).leaveRestartSet id)) id policy
      n
      kind raised rest) :
    EffectMoves rules c id policy n kind raised (.recordOverride :: .leaveRestartOrder :: rest) :=
  .head (.release phase id life hquiet hpending hlife hdown) hrest

/-! ## `terminate_child` -/

theorem manualFacts_of_get (hget : sup.registry.get id = some child) :
    (sup.manualFacts id).life = some child.lifecycle ∧
      (sup.manualFacts id).membership = sup.groupMembership id ∧
      (sup.manualFacts id).prunable = (sup.pool || child.restartType == .temporary) ∧
      (sup.manualFacts id).task = (sup.slots child.ctl).taskState := by
  unfold manualFacts ManualFacts.prunable
  rw [hget]
  exact ⟨rfl, rfl, rfl, rfl⟩

/-- What the rules ask of a manual stop. -/
structure StopRules (rules : Rules) (c : Config) : Prop where
  quiet : rules.quiet → c.plan = none
  up : c.stage ≠ .down

theorem unplanned_of_none (hnone : sup.groupMembership id = .none) :
    sup.Unplanned id := by
  unfold Unplanned
  rw [hnone]
  exact ⟨by simp, by simp⟩

theorem life_transition_stopping {registry : Registry} {life : ChildLifecycle}
    (hlife : registry.life id = some life)
    (hmoves : life = .running n ∨ life = .stopping n .bounce ∧ kind = .terminate) :
    (registry.transition id (.stopping n kind)).life id = some (.stopping n kind) := by
  have hlegal : isLegal life (.stopping n kind) = true := by
    rcases hmoves with rfl | ⟨rfl, rfl⟩ <;> simp [isLegal]
  rw [life_transition, if_pos rfl, hlife, Option.map_some, moved, if_pos hlegal]

theorem unplanned_transition {life target : ChildLifecycle}
    (hunplanned : sup.Unplanned id) (hlife : sup.registry.life id = some life)
    (hheld : target.heldToken = life.heldToken) : (sup.transition id target).Unplanned id := by
  refine hunplanned.of_same rfl ?_ fun _ h => h
  intro other hother
  refine ⟨life, hlife, ?_⟩
  have hmoved : (sup.registry.transition id target).life id = some other := hother
  rw [life_transition, if_pos rfl, hlife, Option.map_some] at hmoved
  cases hmoved
  unfold moved
  split
  · exact hheld.symm
  · rfl

theorem keptDown_stopping {awaited : Option Token} :
    (stopping n .terminate).KeptDown n awaited :=
  ⟨rfl, .inl rfl⟩

/-- A stop left the entry down with a snapshot, and the group as it was. -/
structure LeftDown (sup next : SupervisionState) (id : ActorId) (n : Token) : Prop where
  registry : next.registry = sup.registry.transition id (.down n .snapshot)
  group : next.pendingGroup = sup.pendingGroup
  events : ∀ m, (sup.pendingManualEvents.lookup (id, m)).isSome →
    (next.pendingManualEvents.lookup (id, m)).isSome

theorem LeftDown.life {life : ChildLifecycle}
    (hleft : LeftDown sup next id n) (hlife : sup.registry.life id = some life)
    (hheld : life.heldToken = n) : next.registry.life id = some (.down n .snapshot) := by
  rw [hleft.registry]
  exact life_transition_down hlife hheld

theorem LeftDown.keepable {life : ChildLifecycle}
    (hleft : LeftDown sup next id n) (hlife : sup.registry.life id = some life)
    (hheld : life.heldToken = n) (hunplanned : sup.Unplanned id) : next.Keepable id := by
  have hdown := hleft.life hlife hheld
  refine ⟨hunplanned.of_same hleft.group ?_ hleft.events, _, hdown, rfl,
    .inr (.inl ⟨n, .snapshot, rfl, by simp⟩)⟩
  intro other hother
  rw [hdown] at hother
  cases hother
  exact ⟨life, hlife, hheld⟩

/-- What the classification of a terminate leaves of a child whose spec is kept. -/
theorem leftDown_classify (hget : sup.registry.get id = some child)
    (hkept : (sup.pool || child.restartType == .temporary) = false) :
    LeftDown sup (sup.classifyManualCompletion id n .terminate reason) id n := by
  unfold classifyManualCompletion
  rw [hget]
  dsimp only
  rcases @classifyManual_cases .terminate reason child.restartType sup.pool (sup.inRestartSet id)
    with ⟨hkind, _⟩ | hmember | hdown | ⟨hkind, _, _⟩
  · cases hkind
  · rw [hmember]
    exact ⟨rfl, rfl, fun _ h => lookup_insert_isSome h⟩
  · rw [hdown, hkept]
    exact ⟨rfl, rfl, fun _ h => lookup_insert_isSome h⟩
  · cases hkind

theorem finishManualStop_running (hlife : sup.registry.life id = some (.running n)) :
    sup.finishManualStop id n kind reason = sup.classifyManualCompletion id n kind reason := by
  rw [finishManualStop, hlife]
  simp

theorem moves_dismissOwedEvaluation (hquiet : rules.quiet → c.plan = none)
    (hget : c.sup.registry.get id = some child) (howes : child.lifecycle = .down n .evaluate) :
    Moves rules c (c.withSup (c.sup.dismissOwedEvaluation id)) ∧
      ((c.sup.pool || child.restartType == .temporary) = true ∧
          (c.sup.dismissOwedEvaluation id).registry.get id = none ∨
        (c.sup.pool || child.restartType == .temporary) = false ∧
          LeftDown c.sup (c.sup.dismissOwedEvaluation id) id n) := by
  have hdismiss : Move rules c _ := .dismiss id n child hquiet hget howes
  unfold dismissOwedEvaluation
  rw [hget]
  dsimp only
  rw [howes]
  dsimp only
  cases c.sup.pool || child.restartType == .temporary with
  | false => exact ⟨.single hdismiss, .inr ⟨rfl, rfl, rfl, fun _ h => lookup_insert_isSome h⟩⟩
  | true =>
    have hgone : (c.sup.registry.remove id).get id = none := by
      rw [get_remove, if_pos rfl]
    exact ⟨.head hdismiss (.single (move_prune hquiet)), .inl ⟨rfl, hgone⟩⟩

/-- A released snapshot no longer announces a restart. -/
theorem moves_rewriteRestartSnapshot :
    Moves rules c (c.withSup (c.sup.rewriteRestartSnapshot id)) := by
  unfold rewriteRestartSnapshot
  split
  next life hlife =>
    unfold rewriteSnapshot
    cases hfound : c.sup.pendingManualEvents.lookup (id, life.heldToken) with
    | none => exact .refl
    | some event =>
      dsimp only
      split
      · exact .single (.rewrite id life.heldToken event .removed hfound)
      · exact .refl
  · exact .refl

/-! ## The membership a manual call reads -/

theorem awaited_spec (hmember : sup.groupMembership id = .awaited overridden) :
    ∃ phase life, sup.pendingGroup = some phase ∧ sup.registry.life id = some life ∧
      phase.awaiting.lookup id = some life.heldToken := by
  unfold groupMembership at hmember
  split at hmember
  · cases hmember
  next phase hpending =>
    dsimp only at hmember
    split at hmember
    next awaited hlookup =>
      split at hmember
      · cases hmember
      next hheld =>
        obtain ⟨life, hlife, hsame⟩ := Option.map_eq_some_iff.mp (not_not.mp hheld)
        exact ⟨phase, life, hpending, hlife, by rw [hlookup, hsame]⟩
    · split_ifs at hmember

theorem queued_spec (hmember : sup.groupMembership id = .queued) :
    ∃ phase, sup.pendingGroup = some phase ∧ id ∈ phase.order := by
  unfold groupMembership at hmember
  split at hmember
  · cases hmember
  next phase hpending =>
    refine ⟨phase, hpending, by_contra fun horder => ?_⟩
    simp only [horder, and_false, if_false] at hmember
    split at hmember <;> split_ifs at hmember

/-! ## The commit of a terminate -/

/-- What a commit does: its move and its effects, with the slot it acts on. -/
def runCommit (sup : SupervisionState) (id : ActorId) (policy : Shutdown) (n : Token)
    (kind : ManualStop) (commit : Commit) : SupervisionState × StopProgress :=
  runEffects id policy n kind (sup.applyMove id commit.moveTo) false commit.effects

abbrev TerminateMoves (rules : Rules) (c : Config) (id : ActorId) (policy : Shutdown)
    (life : ChildLifecycle) (f : ManualFacts) : Prop :=
  Moves rules c (c.withSup
    (runCommit c.sup id policy (life.occupant.getD 0) .terminate (terminateCommit life f)).1)

variable {f : ManualFacts} {child : Child}

/-- The entry moves to a terminate, and the effects follow. -/
theorem effectMoves_commit {life : ChildLifecycle} {target : ManualStop}
    (hquiet : rules.quiet → c.plan = none) (hlife : c.sup.registry.life id = some life)
    (hmoves : life = .running n ∨ life = .stopping n .bounce ∧ target = .terminate)
    (hplanned : c.sup.groupMembership id ≠ .queued)
    (hbounced : target = .bounce → c.sup.Unplanned id)
    (hrest : EffectMoves rules (c.withSup (c.sup.transition id (.stopping n target))) id policy n
      kind raised effects) :
    Moves rules c (c.withSup
      (runEffects id policy n kind (c.sup.transition id (.stopping n target)) raised effects).1) :=
  .head (.commit id n target life hquiet hlife hmoves hplanned hbounced) hrest

theorem moves_terminate_none (hrules : StopRules rules c)
    (hget : c.sup.registry.get id = some child) (hmember : c.sup.groupMembership id = .none)
    (hnone : f.membership = .none)
    (hprunable : f.prunable = (c.sup.pool || child.restartType == .temporary)) :
    TerminateMoves rules c id policy child.lifecycle f := by
  have hlife := life_of_get hget
  have hunplanned := unplanned_of_none hmember
  -- A child that is up: its slot is commanded and the override kept.
  have hup {d : Config} {n : Token} {effects : List CommitEffect}
      (hcommands : ∀ effect ∈ effects, effect.commands = true) (hunplanned : d.sup.Unplanned id)
      (hlife : d.sup.registry.life id = some (.stopping n .terminate)) :
      EffectMoves rules d id policy n .terminate false (effects ++ (recordIf f true ++ [.join])) :=
    effectMoves_commands hcommands fun _ _ => effectMoves_recordIf rfl fun _ =>
      ⟨hunplanned, _, hlife, keptDown_stopping⟩
  have hmove {n : Token} {life : ChildLifecycle} (hlife : c.sup.registry.life id = some life)
      (hmoves : life = .running n ∨ life = .stopping n .bounce ∧ ManualStop.terminate = .terminate)
      {effects : List CommitEffect} (heffects : ∀ effect ∈ effects, effect.commands = true) :
      Moves rules c (c.withSup (runEffects id policy n .terminate
        (c.sup.transition id (.stopping n .terminate)) false
        (effects ++ (recordIf f true ++ [.join]))).1) := by
    refine effectMoves_commit hrules.quiet hlife hmoves (by simp [hmember]) (by simp) ?_
    refine hup heffects (unplanned_transition hunplanned hlife ?_)
      (life_transition_stopping hlife hmoves)
    rcases hmoves with rfl | ⟨rfl, _⟩ <;> rfl
  unfold TerminateMoves terminateCommit
  cases hentry : child.lifecycle with
  | restarting => exact .refl
  | running n =>
    simp only [isRestarting_running, Bool.false_eq_true, if_false, hnone]
    rw [hentry] at hlife
    cases f.task with
    | ended =>
      have hclassify := @moves_classifyManualCompletion rules c id n .terminate
        (c.sup.ctlSlot id).endReason child hrules.quiet hget (.inr ⟨hentry, by simp⟩) hrules.up
      rw [← finishManualStop_running hlife] at hclassify
      refine hclassify.trans (@effectMoves_recordIf rules (c.withSup _) id policy n .terminate
        false (.answer .ok) f (!f.prunable) rfl fun hkept => ?_)
      rw [hprunable, Bool.not_eq_true'] at hkept
      rw [finishManualStop_running hlife]
      exact (leftDown_classify hget hkept).keepable hlife rfl hunplanned
    | live =>
      exact @hmove n _ hlife (.inl rfl) [.raiseFirst, .writeOrder] (by simp [CommitEffect.commands])
    | runnerLost =>
      exact @hmove n _ hlife (.inl rfl) [.writeOrder] (by simp [CommitEffect.commands])
  | stopping n inFlight =>
    simp only [isRestarting_stopping, Bool.false_eq_true, if_false, hnone]
    rw [hentry] at hlife
    cases inFlight with
    | bounce => exact @hmove n _ hlife (.inr ⟨rfl, rfl⟩) _ joinAsk_commands
    | terminate => exact hup joinAsk_commands hunplanned hlife
  | down n pending =>
    rw [hentry] at hlife
    have hrest (hpending : pending ≠ .evaluate) : EffectMoves rules c id policy 0 .terminate false
        (recordIf f true ++ [.answer .ok]) :=
      effectMoves_recordIf rfl fun _ =>
        ⟨hunplanned, _, hlife, rfl, .inr (.inl ⟨n, pending, rfl, hpending⟩)⟩
    simp only [isRestarting_down, Bool.false_eq_true, if_false, hnone]
    cases pending with
    | none | snapshot => exact hrest (by simp)
    | evaluate =>
      obtain ⟨hmoves, hcase⟩ := moves_dismissOwedEvaluation hrules.quiet hget hentry
      refine hmoves.trans (@effectMoves_recordIf rules (c.withSup (c.sup.dismissOwedEvaluation
        id)) id policy 0 .terminate false (.answer .ok) f (!f.prunable) rfl fun hkept => ?_)
      rw [hprunable, Bool.not_eq_true'] at hkept
      rcases hcase with ⟨hprune, _⟩ | ⟨_, hleft⟩
      · cases hkept.symm.trans hprune
      · exact hleft.keepable hlife rfl hunplanned

theorem moves_terminate_awaited (hrules : StopRules rules c)
    (hget : c.sup.registry.get id = some child)
    (hmember : c.sup.groupMembership id = .awaited overridden)
    (haw : f.membership = .awaited overridden) :
    TerminateMoves rules c id policy child.lifecycle f := by
  have hlife := life_of_get hget
  obtain ⟨phase, held, hpending, hheld, hawaited⟩ := awaited_spec hmember
  rw [hlife] at hheld
  obtain rfl := Option.some.inj hheld
  have hjoin (d : Config) (n : Token) (effects : List CommitEffect)
      (hcommands : ∀ effect ∈ effects, effect.commands = true) :
      EffectMoves rules d id policy n .terminate false (effects ++ [.join]) :=
    effectMoves_commands hcommands fun _ _ => effectMoves_last rfl
  unfold TerminateMoves terminateCommit
  cases hentry : child.lifecycle with
  | restarting => exact .refl
  | down =>
    simp only [isRestarting_down, Bool.false_eq_true, if_false, haw]
    exact .refl
  | running n =>
    simp only [isRestarting_running, Bool.false_eq_true, if_false, haw]
    rw [hentry] at hlife hawaited
    refine effectMoves_release hrules.quiet hpending hlife ⟨rfl, .inr (.inr ⟨rfl, hawaited⟩)⟩
      (hjoin _ n _ ?_)
    cases f.task <;> cases f.hasOrder <;>
      first
      | exact joinAsk_commands
      | simp [CommitEffect.commands]
  | stopping n inFlight =>
    simp only [isRestarting_stopping, Bool.false_eq_true, if_false, haw]
    rw [hentry] at hlife
    -- The bounce in progress becomes a terminate before the member is released.
    have hrest (d : Config) (hquiet : rules.quiet → d.plan = none)
        (hphase : d.sup.pendingGroup = some phase)
        (hstopping : d.sup.registry.life id = some (.stopping n .terminate)) :
        EffectMoves rules d id policy n .terminate false
          (.recordOverride :: .leaveRestartOrder :: (joinAsk f true ++ [.join])) :=
      effectMoves_release hquiet hphase hstopping keptDown_stopping
        (hjoin _ n _ joinAsk_commands)
    cases inFlight with
    | bounce =>
      exact effectMoves_commit hrules.quiet hlife (.inr ⟨rfl, rfl⟩) (by simp [hmember]) (by simp)
        (hrest _ hrules.quiet hpending (life_transition_stopping hlife (.inr ⟨rfl, rfl⟩)))
    | terminate => exact hrest c hrules.quiet hpending hlife

theorem moves_terminate_queued (hrules : StopRules rules c)
    (hget : c.sup.registry.get id = some child) (hmember : c.sup.groupMembership id = .queued)
    (hqueued : f.membership = .queued) :
    TerminateMoves rules c id policy child.lifecycle f := by
  have hlife := life_of_get hget
  obtain ⟨phase, hpending, _⟩ := queued_spec hmember
  unfold TerminateMoves terminateCommit
  cases hentry : child.lifecycle with
  | restarting => exact .refl
  | running =>
    simp only [isRestarting_running, Bool.false_eq_true, if_false, hqueued]
    exact .refl
  | stopping =>
    simp only [isRestarting_stopping, Bool.false_eq_true, if_false, hqueued]
    exact .refl
  | down n pending =>
    simp only [isRestarting_down, Bool.false_eq_true, if_false, hqueued]
    rw [hentry] at hlife
    -- The release of a down member.
    have hrelease (d : Config) (hquiet : rules.quiet → d.plan = none)
        (hphase : d.sup.pendingGroup = some phase) {pending : DownPending}
        (hdown : d.sup.registry.life id = some (.down n pending)) (hrests : pending ≠ .evaluate) :
        Moves rules d (d.withSup ((d.sup.recordOverride id).leaveRestartSet id)) :=
      .single (.release phase id _ hquiet hphase hdown
        ⟨rfl, .inr (.inl ⟨n, pending, rfl, hrests⟩)⟩)
    cases pending with
    | none => exact hrelease c hrules.quiet hpending hlife (by simp)
    | snapshot =>
      exact (hrelease c hrules.quiet hpending hlife (by simp)).trans
        moves_rewriteRestartSnapshot
    | evaluate =>
      obtain ⟨hmoves, ⟨_, hgone⟩ | ⟨_, hleft⟩⟩ :=
        moves_dismissOwedEvaluation hrules.quiet hget hentry
      · have hsame : (c.sup.dismissOwedEvaluation id).recordOverride id =
            c.sup.dismissOwedEvaluation id := by
          unfold recordOverride onGroup
          rw [life_eq_none_iff.mpr hgone]
          dsimp only
          rw [Option.map_id']
        have hleave : Move rules (c.withSup (c.sup.dismissOwedEvaluation id)) _ :=
          .group (.leaveGone id hgone)
        rw [← hsame] at hleave
        exact hmoves.tail (hsame ▸ hleave)
      · exact hmoves.trans (hrelease (c.withSup (c.sup.dismissOwedEvaluation id)) hrules.quiet
          (hleft.group.trans hpending) (hleft.life hlife rfl) (by simp))

theorem moves_terminate_released (hreleased : f.membership = .released) :
    TerminateMoves rules c id policy child.lifecycle f := by
  unfold TerminateMoves terminateCommit
  cases child.lifecycle with
  | restarting => exact .refl
  | running =>
    simp only [isRestarting_running, Bool.false_eq_true, if_false, hreleased]
    exact .refl
  | down =>
    simp only [isRestarting_down, Bool.false_eq_true, if_false, hreleased]
    exact .refl
  | stopping n inFlight =>
    simp only [isRestarting_stopping, Bool.false_eq_true, if_false, hreleased]
    cases inFlight with
    | bounce => exact .refl
    | terminate => exact effectMoves_commands joinAsk_commands fun _ _ => effectMoves_last rfl

/-- The commit of a terminate, whatever the group has to do with the child. -/
theorem moves_terminate (hrules : StopRules rules c) (hget : c.sup.registry.get id = some child) :
    TerminateMoves rules c id policy child.lifecycle (c.sup.manualFacts id) := by
  obtain ⟨_, hfacts, hprunable, _⟩ := manualFacts_of_get hget
  cases hmember : c.sup.groupMembership id with
  | none => exact moves_terminate_none hrules hget hmember (hfacts.trans hmember) hprunable
  | awaited => exact moves_terminate_awaited hrules hget hmember (hfacts.trans hmember)
  | queued => exact moves_terminate_queued hrules hget hmember (hfacts.trans hmember)
  | released => exact moves_terminate_released (hfacts.trans hmember)

/-! ## The commit of a bounce -/

/-- The entry of a bounce that is waited for. -/
def Joins (sup : SupervisionState) (id : ActorId) (n : Token) (kind : ManualStop) : Prop :=
  kind = .bounce → ∃ inFlight, sup.registry.life id = some (.stopping n inFlight)

/-- What a manual stop leaves, up to its wait or its answer: the moves it made and
the entry it waits for. -/
structure StopSpec (rules : Rules) (c : Config) (id : ActorId) (kind : ManualStop)
    (r : SupervisionState × StopProgress) : Prop where
  moves : Moves rules c (c.withSup r.1)
  joins : ∀ n, r.2 = .joining n → Joins r.1 id n kind

theorem StopSpec.answered {reply : ManualReply} (hmoves : Moves rules c (c.withSup sup)) :
    StopSpec rules c id kind (sup, .answered reply) :=
  ⟨hmoves, fun _ hjoin => by cases hjoin⟩

theorem none_of_stopRoute_bounce (hroute : stopRoute f = .bounce) : f.membership = .none := by
  cases hmember : f.membership with
  | none => rfl
  | awaited overridden =>
    cases overridden <;> simp only [stopRoute, hmember] at hroute <;> split_ifs at hroute
  | _ =>
    simp only [stopRoute, hmember] at hroute
    split_ifs at hroute

theorem spec_bounce (hrules : StopRules rules c) (hget : c.sup.registry.get id = some child)
    (hroute : stopRoute (c.sup.manualFacts id) = .bounce) :
    StopSpec rules c id .bounce
      (runCommit c.sup id policy (child.lifecycle.occupant.getD 0) .bounce
        (bounceCommit child.lifecycle (c.sup.manualFacts id))) := by
  obtain ⟨_, hfacts, _⟩ := manualFacts_of_get hget
  have hlife := life_of_get hget
  have hmember : c.sup.groupMembership id = .none :=
    hfacts.symm.trans (none_of_stopRoute_bounce hroute)
  have hunplanned := unplanned_of_none hmember
  -- The slot is commanded, and the entry is waited for as it stands.
  have hjoin {d : Config} {n : Token} {inFlight : ManualStop} {effects : List CommitEffect}
      (heffects : ∀ effect ∈ effects, effect.commands = true)
      (hstopping : d.sup.registry.life id = some (.stopping n inFlight)) :
      StopSpec rules d id .bounce
        (runEffects id policy n .bounce d.sup false (effects ++ [.join])) := by
    obtain ⟨slots, raised, hmoves, hrun⟩ :=
      @moves_commands rules d id policy n .bounce false effects [.join] heffects
    rw [hrun]
    refine ⟨hmoves, fun m hm _ => ⟨inFlight, ?_⟩⟩
    cases hm
    exact hstopping
  generalize c.sup.manualFacts id = f
  unfold bounceCommit
  cases hentry : child.lifecycle with
  | restarting => exact .answered .refl
  | running n =>
    rw [hentry] at hlife
    have hmove {effects : List CommitEffect}
        (heffects : ∀ effect ∈ effects, effect.commands = true) :
        StopSpec rules c id .bounce
          (runEffects id policy n .bounce (c.sup.transition id (.stopping n .bounce)) false
            (effects ++ [.join])) := by
      have hspec := @hjoin (c.withSup (c.sup.transition id (.stopping n .bounce))) n .bounce
        effects heffects (life_transition_stopping hlife (.inl rfl))
      exact ⟨.head (.commit id n .bounce _ hrules.quiet hlife (.inl rfl) (by simp [hmember])
        fun _ => hunplanned) hspec.moves, hspec.joins⟩
    dsimp only
    cases f.task with
    | live => exact @hmove [.raiseFirst, .writeOrder] (by simp [CommitEffect.commands])
    | runnerLost => exact @hmove [.writeOrder] (by simp [CommitEffect.commands])
    | ended =>
      have hclassify := @moves_classifyManualCompletion rules c id n .bounce
        (c.sup.ctlSlot id).endReason child hrules.quiet hget
        (.inr ⟨hentry, fun _ => hunplanned⟩) hrules.up
      rw [← finishManualStop_running hlife] at hclassify
      exact .answered hclassify
  | stopping n inFlight =>
    rw [hentry] at hlife
    dsimp only
    have hcommands : ∀ effect ∈ (if f.askPossible then [CommitEffect.reask] else []),
        effect.commands = true := by
      split <;> simp [CommitEffect.commands]
    have hsplit : (if f.askPossible then [CommitEffect.reask, .join] else [.join]) =
        (if f.askPossible then [CommitEffect.reask] else []) ++ [.join] := by
      split <;> rfl
    rw [hsplit]
    exact hjoin hcommands hlife
  | down n pending => cases pending <;> exact .answered .refl

/-! ## The calls -/

theorem manualCommit_terminate {asked : ManualStop} {life : ChildLifecycle}
    (hlife : f.life = some life) (hacts : effectiveKind asked f = .terminate) :
    manualCommit asked f = terminateCommit life f := by
  unfold manualCommit
  rw [hlife]
  cases asked with
  | terminate => rfl
  | bounce =>
    have hroute : stopRoute f = .asTerminate := by
      by_contra hother
      simp [effectiveKind, hother] at hacts
    dsimp only
    rw [hroute]

/-- A manual stop up to its wait or its answer: a `terminate_child` acts as one,
and so may a `stop_child`. -/
theorem spec_manualStopDecided {asked : ManualStop} (hrules : StopRules rules c) :
    StopSpec rules c id (c.sup.manualStopDecided id asked).2
      (c.sup.manualStopDecided id asked).1 := by
  unfold manualStopDecided
  dsimp only
  cases hget : c.sup.registry.get id with
  | none =>
    have hnone : manualCommit asked (c.sup.manualFacts id) = answer .childNotFound := by
      unfold manualCommit manualFacts
      rw [hget]
    rw [hnone]
    exact .answered .refl
  | some child =>
    obtain ⟨hlife, _⟩ := manualFacts_of_get hget
    cases hacts : effectiveKind asked (c.sup.manualFacts id) with
    | terminate =>
      rw [manualCommit_terminate hlife hacts, hlife]
      exact ⟨moves_terminate hrules hget, fun _ _ hkind => by cases hkind⟩
    | bounce =>
      cases asked with
      | terminate => simp [effectiveKind] at hacts
      | bounce =>
        unfold manualCommit
        rw [hlife]
        cases hroute : stopRoute (c.sup.manualFacts id) with
        | asTerminate => simp [effectiveKind, hroute] at hacts
        | bounce => exact spec_bounce hrules hget hroute
        | absorbed | refused => exact .answered .refl

/-- `restart_child` begins an attempt of a child that is down and that no group
plans for. -/
theorem restartChild_ok (hok : manualAnswer .restartChild (sup.manualFacts id) = .ok) :
    ∃ n pending, sup.registry.life id = some (.down n pending) ∧
      sup.groupMembership id = .none := by
  cases hget : sup.registry.get id with
  | none =>
    unfold manualAnswer manualFacts at hok
    rw [hget] at hok
    cases hok
  | some child =>
    obtain ⟨hlife, hmember, _⟩ := manualFacts_of_get hget
    have hentry := life_of_get hget
    unfold manualAnswer at hok
    rw [hlife, hmember] at hok
    dsimp only at hok
    have hnone : sup.groupMembership id = .none := by
      cases hcase : sup.groupMembership id with
      | none => rfl
      | _ => simp [hcase] at hok
    cases hdown : child.lifecycle with
    | down n pending => exact ⟨n, pending, hdown ▸ hentry, hnone⟩
    | _ =>
      rw [hdown] at hok
      dsimp only at hok
      split_ifs at hok

theorem moves_restartChild (hquiet : rules.quiet → c.plan = none)
    (hheeded : rules.heeded → c.sup.Unkept id) (hruns : c.stage ≠ .down) :
    Moves rules c (c.withSup (c.sup.restartChild id).1) := by
  unfold restartChild
  dsimp only
  split
  next hok =>
    obtain ⟨n, pending, hlife, hnone⟩ := restartChild_ok hok
    exact .single (.restart id n pending hquiet hlife hnone hheeded hruns)
  · exact .single (.plane (.env .draw rfl))

theorem moves_deleteChild (hquiet : rules.quiet → c.plan = none) :
    Moves rules c (c.withSup (c.sup.deleteChild id).1) := by
  unfold deleteChild
  dsimp only
  split
  · exact .single (.prune id fun h => Config.unlaid_of_none (hquiet h))
  · exact .refl

/-- The classification of the end a manual stop waited for. -/
theorem moves_finishManualStop (hrules : StopRules rules c) (hjoins : Joins c.sup id n kind) :
    Moves rules c (c.withSup (c.sup.finishManualStop id n kind reason)) := by
  unfold finishManualStop
  split
  next m inFlight hlife =>
    split
    next heq =>
      subst heq
      obtain ⟨child, hget, hentry⟩ := exists_get_of_life hlife
      exact moves_classifyManualCompletion hrules.quiet hget (.inl hentry) hrules.up
    · exact .refl
  next m hlife =>
    split
    next heq =>
      subst heq
      obtain ⟨child, hget, hentry⟩ := exists_get_of_life hlife
      refine moves_classifyManualCompletion hrules.quiet hget (.inr ⟨hentry, ?_⟩) hrules.up
      intro hkind
      obtain ⟨inFlight, hstopping⟩ := hjoins hkind
      rw [hlife] at hstopping
      cases hstopping
    · exact .refl
  · exact .refl

end TokioActors
