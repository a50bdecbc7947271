/-
# Snapshots are of ends that are closed

The snapshot a completed manual stop keeps is of an incarnation that the ledger
neither holds up nor owes a decision. An end that is closed stays closed, so it is
enough that each snapshot is made of an end that is closed by then.
-/

import TokioActors.Supervision.Runs

namespace TokioActors

open SupervisionState

variable {rules : Rules} {c d : Config} {id : ActorId} {n : Token}

/-- Every snapshot is of an incarnation that was drawn and whose end is closed. -/
def SnapshotsClosed (c : Config) : Prop :=
  ∀ id n, (c.sup.pendingManualEvents.lookup (id, n)).isSome = true →
    n < c.sup.nextIncarnation ∧ ¬ c.sup.Open id n

theorem not_open_of_atRest {sup : SupervisionState} {life : ChildLifecycle}
    (hlife : sup.registry.life id = some life) (hrests : life.AtRest) : ¬ sup.Open id n := by
  rintro ⟨other, hother, hopen⟩
  rw [hlife] at hother
  cases hother
  obtain ⟨m, pending, rfl, hpending⟩ := hrests
  cases pending <;> simp_all [reportClass]

theorem not_open_of_held {sup : SupervisionState} {life : ChildLifecycle}
    (hlife : sup.registry.life id = some life) (hheld : life.heldToken ≠ n) : ¬ sup.Open id n := by
  rintro ⟨other, hother, hopen⟩
  rw [hlife] at hother
  cases hother
  exact hheld (heldToken_of_open hopen)

theorem SnapshotsClosed.of_kept (hclosed : SnapshotsClosed c) (hmove : Move rules c d)
    (hkept : ∀ id n, (d.sup.pendingManualEvents.lookup (id, n)).isSome = true →
      (c.sup.pendingManualEvents.lookup (id, n)).isSome = true) : SnapshotsClosed d :=
  fun id n hsome => hmove.closed_stays (hclosed id n (hkept id n hsome))

theorem SnapshotsClosed.of_insert {event : ChildEvent} (hclosed : SnapshotsClosed c)
    (hmove : Move rules c d)
    (hevents : d.sup.pendingManualEvents = c.sup.pendingManualEvents.insert (id, n) event)
    (hdrawn : n < d.sup.nextIncarnation) (hover : ¬ d.sup.Open id n) : SnapshotsClosed d := by
  intro other m hsome
  by_cases hkey : (other, m) = (id, n)
  · cases hkey
    exact ⟨hdrawn, hover⟩
  · rw [hevents, Finmap.lookup_insert_of_ne _ hkey] at hsome
    exact hmove.closed_stays (hclosed other m hsome)

theorem events_initiateRestart {sup : SupervisionState} {origin : Origin} :
    (sup.initiateRestart id origin).pendingManualEvents = sup.pendingManualEvents := by
  rw [frame_initiateRestart]

theorem isSome_of_erase {events : Finmap fun _ : ActorId × Token => ChildEvent}
    {gone key : ActorId × Token} (hsome : ((events.erase gone).lookup key).isSome = true) :
    (events.lookup key).isSome = true := by
  by_cases hkey : key = gone
  · rw [hkey, Finmap.lookup_erase] at hsome
    cases hsome
  · rwa [Finmap.lookup_erase_ne hkey] at hsome

theorem Move.snapshotsClosed (hmove : Move rules c d) (hsound : Sound c)
    (hclosed : SnapshotsClosed c) : SnapshotsClosed d := by
  have hsame (hevents : d.sup.pendingManualEvents = c.sup.pendingManualEvents) :
      SnapshotsClosed d := hclosed.of_kept hmove fun id n hsome => by rwa [hevents] at hsome
  have herased {gone : ActorId × Token}
      (hevents : d.sup.pendingManualEvents = c.sup.pendingManualEvents.erase gone) :
      SnapshotsClosed d := hclosed.of_kept hmove fun id n hsome => by
    rw [hevents] at hsome
    exact isSome_of_erase hsome
  -- A manual stop or an absorption puts the entry down and keeps a snapshot of it.
  have hdowned {id : ActorId} {n : Token} {child : Child} {pending : DownPending}
      {event : ChildEvent}
      (hget : c.sup.registry.get id = some child) (hheld : child.lifecycle.heldToken = n)
      (hrests : pending ≠ .evaluate)
      (hregistry : d.sup.registry = c.sup.registry.transition id (.down n pending))
      (hevents : d.sup.pendingManualEvents = c.sup.pendingManualEvents.insert (id, n) event) :
      SnapshotsClosed d := by
    have hlife := Registry.life_of_get hget
    refine hclosed.of_insert hmove hevents ?_ (not_open_of_atRest ?_ ⟨n, pending, rfl, hrests⟩)
    · rw [← hheld]
      exact Nat.lt_of_lt_of_le (hsound.fresh id _ hlife) hmove.grows.2
    · rw [hregistry]
      exact life_transition_down hlife hheld
  have hstep := hmove
  cases hmove with
  | plane hplane =>
    obtain ⟨_, _, _, _, _, _, rfl, _⟩ := hplane.frame.same
    exact hsame rfl
  | group hgroup =>
    obtain ⟨_, _, _, rfl, _⟩ := hgroup.frame
    exact hsame rfl
  | record id n child pending reason action hquiet hentry hstopped hrests =>
    refine hdowned hentry ?_ hrests rfl rfl
    rcases hstopped with hrunning | ⟨kind, hstopping⟩
    · rw [hrunning]
      rfl
    · rw [hstopping]
      rfl
  | rebound id n child reason hquiet hentry hstopped =>
    have hheld : child.lifecycle.heldToken = n := by
      rcases hstopped with hstopping | ⟨hrunning, _⟩
      · rw [hstopping]
        rfl
      · rw [hrunning]
        rfl
    have hlife := Registry.life_of_get hentry
    have hfresh : n < c.sup.nextIncarnation := hheld ▸ hsound.fresh id _ hlife
    refine hclosed.of_insert hstep events_initiateRestart
      (Nat.lt_of_lt_of_le hfresh hstep.grows.2) ?_
    refine not_open_of_held
      (life_initiateRestart (life_transition_down hlife hheld) hfresh) ?_
    exact Nat.ne_of_gt hfresh
  | dismiss _ _ _ _ hentry howes | absorbSnapshot _ _ _ _ _ hentry howes =>
    exact hdowned hentry (by rw [howes]; rfl) (by simp) rfl rfl
  | rewrite id n event action hfound =>
    refine hclosed.of_kept hstep fun other m hsome => ?_
    by_cases hkey : (other, m) = (id, n)
    · rw [hkey, hfound]
      rfl
    · rwa [Config.withSup, Finmap.lookup_insert_of_ne _ hkey] at hsome
  | restart | chainBegin | «begin» => exact hsame events_initiateRestart
  | snapshot => exact herased rfl
  | cancel task => exact hsame (by rw [frame_recordCancelled])
  | absorb id n queued work event hlooping hunlaid hentry htaken =>
    exact hsame rfl
  | collect | discard | discardLost => exact herased events_recordCollectedEnd
  | _ => exact hsame rfl

end TokioActors
