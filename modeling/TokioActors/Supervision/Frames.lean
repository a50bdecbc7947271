/-
# What a move leaves alone

A move of the planes leaves the ledger and the group, a move of the group leaves
the ledger and the planes. Each frame says which fields a move may change, and
what it may add to the record.
-/

import TokioActors.Supervision.Moves

namespace TokioActors

open SupervisionState

variable {rules : Rules} {sup next : SupervisionState}

/-- What the group's moves add to the record. -/
def Obs.ofGroup : Obs → Bool
  | .ordered _ _ => true
  | .foreignFront _ => true
  | .released _ => true
  | _ => false

/-- What the planes add to the record. -/
def Obs.ofPlane : Obs → Bool
  | .reported _ _ _ => true
  | .unresponsive _ => true
  | _ => false

theorem orders_applyQueueStep {id : ActorId} {step : QueueStep} : ∃ slots obs,
    sup.applyQueueStep id step = { sup with slots := slots, log := obs ++ sup.log } ∧
      ∀ o ∈ obs, ∃ n, o = .ordered id n := by
  have hnone : ∃ slots obs,
      sup = { sup with slots := slots, log := obs ++ sup.log } ∧
        ∀ o ∈ obs, ∃ n, o = .ordered id n :=
    ⟨sup.slots, [], rfl, by simp⟩
  unfold applyQueueStep
  cases sup.registry.get id with
  | none => exact hnone
  | some =>
    cases step with
    | order | orderUnpublished => exact ⟨_, [_], rfl, by simp⟩
    | orderAttempt ask => cases ask <;> exact ⟨_, [_], rfl, by simp⟩
    | join ask =>
      cases ask with
      | true => exact ⟨_, [], rfl, by simp⟩
      | false => exact hnone
    | pop | wait | await => exact hnone

theorem frame_applyQueueStep {id : ActorId} {step : QueueStep} : ∃ slots obs,
    sup.applyQueueStep id step = { sup with slots := slots, log := obs ++ sup.log } ∧
      ∀ o ∈ obs, o.ofGroup = true := by
  obtain ⟨slots, obs, happly, hobs⟩ := @orders_applyQueueStep sup id step
  refine ⟨slots, obs, happly, fun o ho => ?_⟩
  obtain ⟨n, rfl⟩ := hobs o ho
  rfl

/-- A move of the group changes the group, slots and the record. -/
theorem GroupMove.frame (hmove : GroupMove sup next) : ∃ group slots obs,
    next = { sup with pendingGroup := group, slots := slots, log := obs ++ sup.log } ∧
      ∀ o ∈ obs, o.ofGroup = true := by
  cases hmove with
  | stopAct group head =>
    obtain ⟨slots, obs, happly, hobs⟩ :=
      @frame_applyQueueStep sup head (stopQueueNext (sup.queueHead group head))
    exact ⟨_, slots, obs, by rw [happly]; rfl, hobs⟩
  | foreign => exact ⟨sup.pendingGroup, sup.slots, [_], rfl, by simp [Obs.ofGroup]⟩
  | leaveGone => exact ⟨_, sup.slots, [_], rfl, by simp [Obs.ofGroup]⟩
  | keep | stopPop | awaitAdopted | finish | chainGone | settle | chainFresh =>
      exact ⟨_, sup.slots, [], rfl, by simp⟩

theorem frame_initiateRestart {id : ActorId} {origin : Origin} :
    sup.initiateRestart id origin = { sup with
      registry := (sup.initiateRestart id origin).registry
      slots := (sup.initiateRestart id origin).slots
      restartSet := (sup.initiateRestart id origin).restartSet
      pendingGroup := (sup.initiateRestart id origin).pendingGroup
      nextIncarnation := sup.nextIncarnation + 1
      log := (sup.initiateRestart id origin).log } := by
  rcases @initiateRestart_cases sup id origin with hsame | ⟨child, n, pending, _, _, _, hbegin⟩
  · rw [hsame]
  · rw [hbegin]
    rfl

/-! ## The planes -/

def DeathTask.key (task : DeathTask) : ActorId × Token := (task.childId, task.incarnation)

def RestartTask.key (task : RestartTask) : ActorId × Token := (task.childId, task.incarnation)

namespace SupervisionState

def deathKeys (sup : SupervisionState) : List (ActorId × Token) := sup.deathSet.map DeathTask.key

def restartKeys (sup : SupervisionState) : List (ActorId × Token) :=
  sup.restartSet.map RestartTask.key

theorem deathKeys_updateDeath {n : Token} {f : DeathTask → DeathTask}
    (hkey : ∀ task, (f task).key = task.key) :
    (sup.updateDeath n f).deathKeys = sup.deathKeys := by
  unfold deathKeys updateDeath Keyed.update
  rw [List.map_map]
  apply List.map_congr_left
  intro task _
  simp only [Function.comp_apply]
  split
  · exact hkey task
  · rfl

theorem restartKeys_updateRestart {n : Token} {f : RestartTask → RestartTask}
    (hkey : ∀ task, (f task).key = task.key) :
    (sup.updateRestart n f).restartKeys = sup.restartKeys := by
  unfold restartKeys updateRestart Keyed.update
  rw [List.map_map]
  apply List.map_congr_left
  intro task _
  simp only [Function.comp_apply]
  split
  · exact hkey task
  · rfl

end SupervisionState

/-- Slots, what tasks have come to, the clock and the counter, and the record
change, and nothing else. -/
abbrev PlaneSame (sup next : SupervisionState) : Prop :=
  ∃ slots deathSet restartSet elapsed nextIncarnation obs,
    next = { sup with
      slots := slots
      deathSet := deathSet
      restartSet := restartSet
      now := sup.now + elapsed
      nextIncarnation := nextIncarnation
      log := obs ++ sup.log } ∧
    ∀ o ∈ obs, o.ofPlane = true

/-- What an event beside the loop changes. -/
structure PlaneFrame (sup next : SupervisionState) : Prop where
  same : PlaneSame sup next
  counter : sup.nextIncarnation ≤ next.nextIncarnation
  keys : (next.deathKeys ++ next.restartKeys).Perm (sup.deathKeys ++ sup.restartKeys)
  restarts : next.restartKeys ⊆ sup.restartKeys

theorem PlaneFrame.of_keys (hsame : PlaneSame sup next)
    (hcounter : sup.nextIncarnation ≤ next.nextIncarnation)
    (hdeaths : next.deathKeys = sup.deathKeys) (hrestarts : next.restartKeys = sup.restartKeys) :
    PlaneFrame sup next where
  same := hsame
  counter := hcounter
  keys := by rw [hdeaths, hrestarts]
  restarts := by rw [hrestarts]; exact List.Subset.refl _

theorem planeFrame_envStep {action : EnvAction} (hstep : sup.envStep action = some next) :
    PlaneFrame sup next := by
  have hslots (slots : Token → Slot) (obs : List Obs) (hobs : ∀ o ∈ obs, o.ofPlane = true) :
      PlaneFrame sup { sup with slots := slots, log := obs ++ sup.log } :=
    .of_keys ⟨slots, _, _, 0, _, obs, rfl, hobs⟩ (Nat.le_refl _) rfl rfl
  have hdeath (n : Token) (f : DeathTask → DeathTask) (hkey : ∀ task, (f task).key = task.key)
      (slots : Token → Slot) (obs : List Obs) (hobs : ∀ o ∈ obs, o.ofPlane = true) :
      PlaneFrame sup { sup.updateDeath n f with slots := slots, log := obs ++ sup.log } :=
    .of_keys ⟨slots, _, _, 0, _, obs, rfl, hobs⟩ (Nat.le_refl _) (deathKeys_updateDeath hkey) rfl
  have hrestart (n : Token) (f : RestartTask → RestartTask)
      (hkey : ∀ task, (f task).key = task.key) (slots : Token → Slot) (obs : List Obs)
      (hobs : ∀ o ∈ obs, o.ofPlane = true) :
      PlaneFrame sup { sup.updateRestart n f with slots := slots, log := obs ++ sup.log } :=
    .of_keys ⟨slots, _, _, 0, _, obs, rfl, hobs⟩ (Nat.le_refl _) rfl
      (restartKeys_updateRestart hkey)
  have hnone : ∀ o ∈ ([] : List Obs), o.ofPlane = true := by simp
  have hone (obs : Obs) (hobs : obs.ofPlane = true) : ∀ o ∈ [obs], o.ofPlane = true := by
    simpa using hobs
  cases action with
  | tick =>
    cases hstep
    exact .of_keys ⟨_, _, _, _, _, [], rfl, hnone⟩ (Nat.le_refl _) rfl rfl
  | draw =>
    cases hstep
    exact .of_keys ⟨_, _, _, 0, _, [], rfl, hnone⟩ (Nat.le_succ _) rfl rfl
  | raise | initDone | ends | subtreeEnds =>
    simp only [envStep] at hstep
    split at hstep <;> cases hstep
    exact hslots _ [] hnone
  | verdict =>
    simp only [envStep] at hstep
    split at hstep <;> cases hstep
    refine hslots _ [_] (hone _ ?_)
    rfl
  | fateRecorded =>
    simp only [envStep] at hstep
    split at hstep
    · split at hstep <;> cases hstep
      exact hslots _ [] hnone
    · cases hstep
  | taskReturns n =>
    simp only [envStep] at hstep
    split at hstep
    · split at hstep
      · split at hstep <;> cases hstep
        refine hdeath n _ ?_ _ [_] (hone _ ?_) <;> intros <;> rfl
      · cases hstep
    · cases hstep
  | taskFails n =>
    simp only [envStep] at hstep
    split at hstep
    · split at hstep <;> cases hstep
      refine hdeath n _ ?_ _ [] hnone
      intro task
      rfl
    · cases hstep
  | attemptProceeds n | attemptOrphaned n | attemptFails n =>
    simp only [envStep] at hstep
    split at hstep
    · split at hstep <;> cases hstep
      refine hrestart n _ ?_ _ [] hnone
      intro task
      rfl
    · cases hstep
  | attemptCancels n | attemptChecked n | attemptBuilds n | attemptAdopts n =>
    simp only [envStep] at hstep
    split at hstep <;> cases hstep
    refine hrestart n _ ?_ _ [] hnone
    intro task
    rfl
  | attemptEscalates n =>
    simp only [envStep] at hstep
    split at hstep
    · split at hstep
      · split at hstep <;> cases hstep
        refine hrestart n _ ?_ _ [_] (hone _ ?_) <;> intros <;> rfl
      · cases hstep
    · cases hstep
  | attemptUnbuilt n =>
    simp only [envStep] at hstep
    split at hstep <;> cases hstep
    refine hrestart n _ ?_ _ [_] (hone _ ?_) <;> intros <;> rfl
  | attemptReports n =>
    simp only [envStep] at hstep
    split at hstep
    · split at hstep <;> cases hstep
      refine hrestart n _ ?_ _ [_] (hone _ ?_) <;> intros <;> rfl
    · cases hstep

/-- A move of the planes leaves the ledger, the group and the loop's hands. -/
theorem PlaneMove.frame (hmove : PlaneMove sup next) : PlaneFrame sup next := by
  cases hmove with
  | env action henabled => exact planeFrame_envStep henabled
  | command => exact .of_keys ⟨_, _, _, 0, _, [], rfl, by simp⟩ (Nat.le_refl _) rfl rfl
  | condemn =>
    exact .of_keys ⟨_, _, _, 0, _, [_], rfl, by simp [Obs.ofPlane]⟩ (Nat.le_refl _) rfl rfl
  | replace task panic hfound =>
    have hmem := Keyed.mem_of_find hfound
    refine ⟨⟨_, _, _, 0, _, [], rfl, by simp⟩, Nat.le_refl _, ?_, List.Subset.refl _⟩
    refine List.Perm.append_right _ ?_
    unfold deathKeys lostDeathTask
    rw [List.map_append]
    exact (List.perm_append_singleton _ _).trans
      ((List.perm_cons_erase hmem).map DeathTask.key).symm
  | follow task panic hfound =>
    have hmem := Keyed.mem_of_find hfound
    have hperm := (List.perm_cons_erase hmem).map RestartTask.key
    refine ⟨⟨_, _, _, 0, _, [], rfl, by simp⟩, Nat.le_refl _, ?_, ?_⟩
    · unfold deathKeys restartKeys
      dsimp only
      rw [List.map_append, List.append_assoc]
      exact hperm.symm.append_left _
    · exact List.map_subset _ List.erase_subset

end TokioActors
