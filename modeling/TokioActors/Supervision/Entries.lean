/-
# How a move changes a ledger entry

Each move changes the entry of one child at most, and in one of a few ways. An
invariant about single entries is checked against these ways instead of against
every move.
-/

import TokioActors.Supervision.Conservation

namespace TokioActors

open SupervisionState Tally Registry

variable {rules : Rules} {c d : Config} {id : ActorId}

/-- What lets an entry go down on the incarnation it holds. -/
inductive Downing (c d : Config) (n : Token) (life : ChildLifecycle) : Prop
  /-- Its attempt is over, if it was one. -/
  | settled (attempt : ∀ p, life ≠ .restarting p n)
  | reported (held : 0 < c.held n)
  | drained (gone : d.tasks n < c.tasks n)

/-- How a move changes the entry of a child. -/
inductive EntryChange (c d : Config) (id : ActorId) : Prop
  | same (same : d.sup.registry.life id = c.sup.registry.life id)
  | removed (gone : d.sup.registry.life id = none)
  | spawned (absent : c.sup.registry.life id = none)
      (drawn : d.sup.nextIncarnation = c.sup.nextIncarnation + 1)
      (entry : d.sup.registry.life id = some (.running c.sup.nextIncarnation))
  | committed (n : Token) (kind : ManualStop) (life : ChildLifecycle)
      (before : c.sup.registry.life id = some life)
      (moves : life = .running n ∨ life = .stopping n .bounce ∧ kind = .terminate)
      (entry : d.sup.registry.life id = some (.stopping n kind))
  | adopted (p n : Token) (before : c.sup.registry.life id = some (.restarting p n))
      (gone : c.sup.restartKeys.Perm ((id, n) :: d.sup.restartKeys))
      (entry : d.sup.registry.life id = some (.running n))
  | downed (n : Token) (pending : DownPending) (life : ChildLifecycle)
      (before : c.sup.registry.life id = some life) (held : life.heldToken = n)
      (downing : Downing c d n life)
      (opens : pending = .evaluate → reportClass life n ≠ .stale)
      (entry : d.sup.registry.life id = some (.down n pending))
  | begun (n : Token) (life : ChildLifecycle) (before : c.sup.registry.life id = some life)
      (held : life.heldToken = n) (settled : ∀ p, life ≠ .restarting p n)
      (drawn : d.sup.nextIncarnation = c.sup.nextIncarnation + 1)
      (entry : d.sup.registry.life id = some (.restarting n c.sup.nextIncarnation))

namespace EntryChange

variable {other : ActorId} {n : Token} {life : ChildLifecycle}

theorem of_registry (hregistry : d.sup.registry = c.sup.registry) : EntryChange c d id :=
  .same (by rw [hregistry])

theorem of_remove (hregistry : d.sup.registry = c.sup.registry.remove other) :
    EntryChange c d id := by
  by_cases heq : id = other
  · subst heq
    refine .removed ?_
    rw [hregistry, life_remove, if_pos rfl]
  · refine .same ?_
    rw [hregistry, life_remove, if_neg heq]

theorem of_down {pending : DownPending} (hlife : c.sup.registry.life other = some life)
    (hheld : life.heldToken = n) (hdowning : Downing c d n life)
    (hopens : pending = .evaluate → reportClass life n ≠ .stale)
    (hregistry : d.sup.registry = c.sup.registry.transition other (.down n pending)) :
    EntryChange c d id := by
  by_cases heq : id = other
  · subst heq
    refine .downed n pending life hlife hheld hdowning hopens ?_
    rw [hregistry, life_transition, if_pos rfl, hlife, Option.map_some, moved,
      if_pos (isLegal_down_iff.mpr hheld)]
  · refine .same ?_
    rw [hregistry, life_transition, if_neg heq]

theorem of_initiate (sup : SupervisionState) {pending : DownPending} {origin : Origin}
    (hlife : c.sup.registry.life other = some life) (hheld : life.heldToken = n)
    (hsettled : ∀ p, life ≠ .restarting p n) (hrests : pending ≠ .evaluate ∨ life = .down n pending)
    (hentry : ∀ id, sup.registry.life id =
      if id = other then some (.down n pending) else c.sup.registry.life id)
    (hcounter : sup.nextIncarnation = c.sup.nextIncarnation)
    (hsup : d.sup = sup.initiateRestart other origin) : EntryChange c d id := by
  have hdowned (hsame : d.sup.registry = sup.registry) : EntryChange c d id := by
    by_cases heq : id = other
    · subst heq
      refine .downed n pending life hlife hheld (.settled hsettled) ?_ ?_
      · intro howes
        rcases hrests with hrests | hsame
        · exact absurd howes hrests
        · subst howes
          rw [hsame]
          simp [reportClass]
      · rw [hsame, hentry, if_pos rfl]
    · refine .same ?_
      rw [hsame, hentry, if_neg heq]
  rcases @initiateRestart_cases sup other origin with
    hnone | ⟨child, m, owed, hget, hdown, _, hbegin⟩
  · rw [hnone] at hsup
    exact hdowned (by rw [hsup])
  · rw [hbegin] at hsup
    by_cases heq : id = other
    · subst heq
      have hm : m = n := by
        have hsame := life_of_get hget
        rw [show ({ sup with nextIncarnation := sup.nextIncarnation + 1 } :
          SupervisionState).registry.life id = sup.registry.life id from rfl, hentry,
          if_pos rfl, hdown] at hsame
        cases hsame
        rfl
      subst hm
      refine .begun m life hlife hheld hsettled ?_ ?_
      · rw [hsup, ← hcounter]
        rfl
      · rw [hsup, life_begin, if_pos rfl, ← hcounter]
        change (sup.registry.life id).map _ = _
        rw [hentry, if_pos rfl]
        rfl
    · refine .same ?_
      rw [hsup, life_begin, if_neg heq]
      change sup.registry.life id = _
      rw [hentry, if_neg heq]

end EntryChange

theorem held_pos_of_head {ev : Report} {work : List Report} (hhead : c.work = ev :: work) :
    0 < c.held ev.incarnation := by
  have hqueued := @reportTally_nonneg ev.incarnation c.sup.queuedTriggers
  have howed := @reportTally_nonneg ev.incarnation c.sup.owed
  have hwork := @reportTally_nonneg ev.incarnation work
  have hout := @deliveryTally_nonneg ev.incarnation c.out
  unfold Config.held
  rw [hhead, reportTally_cons, hit_self]
  omega

/-- A drained attempt works for its incarnation no more. -/
theorem tasks_lt_of_drained {task : RestartTask}
    (hfound : c.sup.restartTask task.incarnation = some task)
    (hdeath : d.sup.deathSet = c.sup.deathSet)
    (hrestart : d.sup.restartSet = c.sup.restartSet.erase task) :
    d.tasks task.incarnation < c.tasks task.incarnation := by
  have herase := tasks_eraseRestart hfound task.incarnation
  have hsame : d.tasks task.incarnation =
      tally task.incarnation ((c.sup.deathKeys ++
        (c.sup.restartSet.erase task).map RestartTask.key).map Prod.snd) := by
    unfold Config.tasks deathKeys restartKeys
    rw [hdeath, hrestart]
  rw [hit_self] at herase
  omega

theorem entry_recordCancelled {sup : SupervisionState} {other : ActorId} {n : Token}
    (hregistry : sup.registry = c.sup.registry) (hdrained : d.tasks n < c.tasks n)
    (hsup : d.sup = Sys.recordCancelled sup other n) : EntryChange c d id := by
  unfold Sys.recordCancelled at hsup
  split at hsup
  next p next hlife =>
    split at hsup
    next heq =>
      subst heq
      rw [hregistry] at hlife
      refine .of_down hlife rfl (.drained hdrained)
        (show DownPending.none = .evaluate → _ by simp) ?_
      rw [hsup, ← hregistry]
      rfl
    · exact .of_registry (by rw [hsup, ← hregistry]; rfl)
  · exact .of_registry (by rw [hsup, ← hregistry]; rfl)

theorem registry_recordCollectedEnd {sup : SupervisionState} {other : ActorId} {n : Token} :
    (Sys.recordCollectedEnd sup other n).registry =
      if (sup.registry.life other).map ChildLifecycle.heldToken = some n then
        sup.registry.transition other (.down n .none) else sup.registry := by
  unfold Sys.recordCollectedEnd settleBarrier
  dsimp only
  split <;> split <;> (try split) <;> rfl

theorem entry_recordCollectedEnd {sup : SupervisionState} {other : ActorId} {n : Token}
    (hregistry : sup.registry = c.sup.registry)
    (hdowning : ∀ life, Downing c d n life)
    (hsup : d.sup = Sys.recordCollectedEnd sup other n) : EntryChange c d id := by
  have hbarrier := congrArg SupervisionState.registry hsup
  rw [registry_recordCollectedEnd, hregistry] at hbarrier
  split at hbarrier
  next hheld =>
    obtain ⟨life, hlife, hsame⟩ := Option.map_eq_some_iff.mp hheld
    exact .of_down hlife hsame (hdowning life) (by simp) hbarrier
  · exact .of_registry hbarrier

theorem entry_recordAdopted {sup : SupervisionState} {other : ActorId} {p n : Token}
    (hregistry : sup.registry = c.sup.registry)
    (hlife : c.sup.registry.life other = some (.restarting p n))
    (hgone : c.sup.restartKeys.Perm ((other, n) :: d.sup.restartKeys))
    (hsup : d.sup = Sys.recordAdopted sup other n) : EntryChange c d id := by
  have hsame : d.sup.registry.life id =
      (c.sup.registry.transition other (.running n)).life id := by
    rw [hsup, ← hregistry]
    exact life_noteSubtree
  rw [life_transition] at hsame
  by_cases heq : id = other
  · subst heq
    rw [if_pos rfl, hlife, Option.map_some, moved,
      if_pos (isLegal_running_iff.mpr ⟨p, rfl⟩)] at hsame
    exact .adopted p n hlife hgone hsame
  · rw [if_neg heq] at hsame
    exact .same hsame

theorem accepts_spec {sup : SupervisionState} {n : Token} (haccepts : Sys.accepts sup id n = true) :
    ∃ p, sup.registry.life id = some (.restarting p n) := by
  unfold Sys.accepts at haccepts
  split at haccepts
  next p next hlife =>
    have heq : next = n := by simpa using haccepts
    exact ⟨p, by rw [hlife, heq]⟩
  · cases haccepts

/-- Every move changes an entry in one of the ways above. -/
theorem Move.entry (hmove : Move rules c d) : EntryChange c d id := by
  have hinitiated {other : ActorId} {n : Token} {pending : DownPending}
      {origin : Origin} (hlife : c.sup.registry.life other = some (.down n pending))
      (hsup : d.sup = c.sup.initiateRestart other origin) : EntryChange c d id := by
    have hheld : (ChildLifecycle.down n pending).heldToken = n := rfl
    refine .of_initiate c.sup hlife hheld (by simp) (.inr rfl) (fun entry => ?_) rfl hsup
    split
    next heq => rw [heq, hlife]
    · rfl
  cases hmove with
  | plane hplane =>
    obtain ⟨_, _, _, _, _, _, rfl, _⟩ := hplane.frame.same
    exact .of_registry rfl
  | group hgroup =>
    obtain ⟨_, _, _, rfl, _⟩ := hgroup.frame
    exact .of_registry rfl
  | spawn other name restartType shutdown habsent =>
    by_cases heq : id = other
    · subst heq
      refine .spawned (life_eq_none_iff.mpr habsent) rfl ?_
      change (get (c.sup.registry ++ [_]) id).map _ = _
      rw [get_append, habsent]
      simp
    · refine .same ?_
      change (get (c.sup.registry ++ [_]) id).map _ = _
      rw [get_append]
      dsimp only
      rw [if_neg (fun h => heq h.symm), Option.or_none]
      rfl
  | subtree => exact .same life_noteSubtree
  | terminated | rewrite | complete | decide | install | reinstall | takeDeath | takeRestart
  | takeLost | adoptStale | closeGone | drop | retitle | reorder | deliver | owe | enter
  | endLoop | gather | drainRestarts | drainDeaths | teardown | refuse | kill | abort =>
    exact .of_registry rfl
  | commit other n kind life hquiet hentry hmoves =>
    by_cases heq : id = other
    · subst heq
      refine .committed n kind life hentry hmoves ?_
      have hlegal : isLegal life (.stopping n kind) = true := by
        rcases hmoves with rfl | ⟨rfl, rfl⟩ <;> simp [isLegal]
      change (c.sup.registry.transition id _).life id = _
      rw [life_transition, if_pos rfl, hentry, Option.map_some, moved,
        if_pos hlegal]
    · refine .same ?_
      change (c.sup.registry.transition other _).life id = _
      rw [life_transition, if_neg heq]
  | crash other n life reason hquiet hentry hstopped =>
    refine .of_down hentry ?_ (.settled ?_) (fun _ => ?_) rfl
    · rcases hstopped with rfl | ⟨rfl, _⟩ <;> rfl
    · rcases hstopped with rfl | ⟨rfl, _⟩ <;> simp
    · rcases hstopped with rfl | ⟨rfl, _⟩ <;> simp [reportClass]
  | record other n child pending reason action hquiet hentry hstopped hrests =>
    refine .of_down (life_of_get hentry) ?_ (.settled ?_) (fun h => absurd h hrests) rfl
    · rcases hstopped with h | ⟨kind, h⟩ <;> rw [h] <;> rfl
    · rcases hstopped with h | ⟨kind, h⟩ <;> rw [h] <;> simp
  | rebound other n child reason hquiet hentry hstopped =>
    have hlife := life_of_get hentry
    have hheld : child.lifecycle.heldToken = n := by
      rcases hstopped with h | ⟨h, _⟩ <;> rw [h] <;> rfl
    refine .of_initiate ((c.sup.transition other (.down n .snapshot)).keepSnapshot other n
        ⟨other, child.name, reason, .restartInitiated⟩) hlife hheld ?_
      (.inl (show DownPending.snapshot ≠ .evaluate by simp)) (fun entry => ?_) rfl rfl
    · rcases hstopped with h | ⟨h, _⟩ <;> rw [h] <;> simp
    · change (c.sup.registry.transition other (.down n .snapshot)).life entry = _
      rw [life_transition]
      split
      · rw [hlife, Option.map_some, moved, if_pos (isLegal_down_iff.mpr hheld)]
      · rfl
  | dismiss _ _ _ _ hentry howes | absorbSnapshot _ _ _ _ _ hentry howes =>
    refine .of_down (life_of_get hentry) ?_ (.settled ?_)
      (show DownPending.snapshot = .evaluate → _ by simp) rfl
    · rw [howes]
      rfl
    · rw [howes]
      simp
  | release | lay => exact .of_registry rfl
  | restart _ _ _ _ hentry | «begin» _ _ _ _ _ hentry => exact hinitiated hentry rfl
  | prune => exact .of_remove rfl
  | chainBegin chain front rest n owed hlooping hplan hpending hqueue hentry =>
    exact hinitiated hentry rfl
  | cancel task hunlaid hfound =>
    refine @entry_recordCancelled c _ id (c.sup.dropAttempt task) task.childId task.incarnation rfl
      (tasks_lt_of_drained hfound ?_ ?_) rfl
    · rw [frame_recordCancelled]
    · rw [frame_recordCancelled]
  | adopt task hunlaid hfound haccepts =>
    obtain ⟨p, hlife⟩ := accepts_spec haccepts
    exact @entry_recordAdopted c _ id (c.sup.dropAttempt task) task.childId p task.incarnation rfl
      hlife
      ((List.perm_cons_erase (Keyed.mem_of_find hfound)).map RestartTask.key) rfl
  | close ev work event budget obs hlooping hunplanned hhead hopens =>
    obtain ⟨life, hlife, hopen⟩ := hopens
    exact .of_down hlife (heldToken_of_open hopen) (.reported (held_pos_of_head hhead))
      (show DownPending.none = .evaluate → _ by simp) rfl
  | queue ev work phase life hhead hpending hentry hopens =>
    exact .of_down hentry (heldToken_of_open hopens) (.reported (held_pos_of_head hhead))
      (fun _ => hopens) rfl
  | snapshot ev =>
    by_cases hlife : c.sup.registry.life ev.childId = some (.down ev.incarnation .snapshot)
    · refine .of_down hlife rfl (.settled (by simp))
        (show DownPending.none = .evaluate → _ by simp) ?_
      exact if_pos hlife
    · exact .of_registry (if_neg hlife)
  | absorb other n queued work event hlooping hunlaid hentry htaken =>
    exact .of_down hentry rfl (.settled (by simp)) (show DownPending.none = .evaluate → _ by simp)
      rfl
  | collect ev work name hover hhead =>
    exact entry_recordCollectedEnd rfl (fun _ => .reported (held_pos_of_head hhead)) rfl
  | discard task htorn hfound =>
    refine @entry_recordCollectedEnd c _ id (c.sup.dropAttempt task) task.childId task.incarnation
      rfl
      (fun _ => .drained (tasks_lt_of_drained hfound ?_ ?_)) rfl
    · rw [frame_recordCollectedEnd]
    · rw [frame_recordCollectedEnd]
  | discardLost task panic htorn hfound =>
    refine @entry_recordCollectedEnd c _ id { c.sup with
      restartSet := c.sup.restartSet.erase task
      log := .reported task.childId task.incarnation (lostAttemptReason panic) :: c.sup.log }
      task.childId task.incarnation rfl
      (fun _ => .drained (tasks_lt_of_drained hfound ?_ ?_)) rfl
    · rw [frame_recordCollectedEnd]
    · rw [frame_recordCollectedEnd]

end TokioActors
