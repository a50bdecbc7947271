/-
# Where an incarnation's end is

Every incarnation that was begun is, at every moment, in at most one place: a
task of one of the planes works for it, its report is in the loop's hands, or its
end was delivered or its attempt cancelled. The accounts of an incarnation count
its places; a move transfers one incarnation from one account to the next and
keeps every other, so no end is ever delivered twice.
-/

import TokioActors.Lib.Tally
import TokioActors.Supervision.Frames

namespace TokioActors

open SupervisionState Tally Config

namespace Obs

def begins : Obs → Option Token
  | .spawned _ n => some n
  | .began _ _ n _ => some n
  | _ => none

def takes : Obs → Option Token
  | .taken _ n => some n
  | _ => none

/-- The incarnation whose attempt an observation cancels. -/
def cancels : Obs → Option Token
  | .cancelled _ n => some n
  | _ => none

def delivers : Obs → Option Token
  | .delivered _ n _ => some n
  | _ => none

/-- An observation that touches no account. -/
def Neutral (obs : Obs) : Prop :=
  obs.begins = none ∧ obs.takes = none ∧ obs.cancels = none ∧ obs.delivers = none

theorem neutral_of_group {obs : Obs} (hobs : obs.ofGroup = true) : obs.Neutral := by
  cases obs <;> simp_all [ofGroup, Neutral, begins, takes, cancels, delivers]

theorem neutral_of_plane {obs : Obs} (hobs : obs.ofPlane = true) : obs.Neutral := by
  cases obs <;> simp_all [ofPlane, Neutral, begins, takes, cancels, delivers]

end Obs

variable {n : Token} {reading : Obs → Option Token} {obs : Obs} {log : List Obs}
  {reports : List Report} {deliveries : List Delivery} {report : Report}

def logTally (reading : Obs → Option Token) (n : Token) (log : List Obs) : ℤ :=
  tally n (log.filterMap reading)

theorem logTally_cons :
    logTally reading n (obs :: log) = tally n (reading obs).toList + logTally reading n log := by
  unfold logTally
  cases hobs : reading obs with
  | none => simp [List.filterMap_cons_none hobs]
  | some => simp [List.filterMap_cons_some hobs]

theorem logTally_of_none
    (hobs : reading obs = none) : logTally reading n (obs :: log) = logTally reading n log := by
  rw [logTally_cons, hobs]
  simp

theorem logTally_of_some {m : Token} (hobs : reading obs = some m) :
    logTally reading n (obs :: log) = hit n m + logTally reading n log := by
  rw [logTally_cons, hobs]
  simp

theorem logTally_nonneg {reading : Obs → Option Token} {n : Token} {log : List Obs} :
    0 ≤ logTally reading n log := tally_nonneg

theorem logTally_pos (hmem : obs ∈ log) (hobs : reading obs = some n) :
    0 < logTally reading n log :=
  tally_pos_iff.mpr (List.mem_filterMap.mpr ⟨obs, hmem, hobs⟩)

def reportTally (n : Token) (reports : List Report) : ℤ :=
  tally n (reports.map Report.incarnation)

def deliveryTally (n : Token) (deliveries : List Delivery) : ℤ := tally n (deliveries.map Prod.snd)

@[simp] theorem reportTally_nil : reportTally n [] = 0 := rfl

@[simp] theorem reportTally_cons :
    reportTally n (report :: reports) = hit n report.incarnation + reportTally n reports := by
  simp [reportTally]

@[simp] theorem reportTally_append {more : List Report} :
    reportTally n (reports ++ more) = reportTally n reports + reportTally n more := by
  simp [reportTally]

theorem reportTally_perm {more : List Report} (hperm : reports.Perm more) :
    reportTally n reports = reportTally n more := by
  unfold reportTally tally
  rw [(hperm.map Report.incarnation).count_eq]

theorem reportTally_nonneg {n : Token} {reports : List Report} : 0 ≤ reportTally n reports :=
  tally_nonneg

@[simp] theorem deliveryTally_nil : deliveryTally n [] = 0 := rfl

@[simp] theorem deliveryTally_cons {delivery : Delivery} :
    deliveryTally n (delivery :: deliveries) = hit n delivery.2 + deliveryTally n deliveries := by
  simp [deliveryTally]

@[simp] theorem deliveryTally_append {more : List Delivery} :
    deliveryTally n (deliveries ++ more) =
      deliveryTally n deliveries + deliveryTally n more := by
  simp [deliveryTally]

theorem deliveryTally_perm {more : List Delivery}
    (hperm : deliveries.Perm more) : deliveryTally n deliveries = deliveryTally n more := by
  unfold deliveryTally tally
  rw [(hperm.map Prod.snd).count_eq]

theorem deliveryTally_nonneg {n : Token} {deliveries : List Delivery} :
    0 ≤ deliveryTally n deliveries := tally_nonneg

@[ext] structure Accounts where
  /-- Tasks of the planes that work for it. -/
  tasks : ℤ
  /-- Its reports and decided ends in the supervisor's hands. -/
  held : ℤ
  begun : ℤ
  taken : ℤ
  cancelled : ℤ
  delivered : ℤ

namespace Config

def tasks (c : Config) (n : Token) : ℤ :=
  tally n ((c.sup.deathKeys ++ c.sup.restartKeys).map Prod.snd)

def held (c : Config) (n : Token) : ℤ :=
  reportTally n c.sup.queuedTriggers + reportTally n c.sup.owed + reportTally n c.work +
    deliveryTally n c.out

def accounts (c : Config) (n : Token) : Accounts where
  tasks := c.tasks n
  held := c.held n
  begun := logTally Obs.begins n c.sup.log
  taken := logTally Obs.takes n c.sup.log
  cancelled := logTally Obs.cancels n c.sup.log
  delivered := logTally Obs.delivers n c.sup.log

end Config

/-- What a move does to the accounts: it transfers one incarnation, at most. -/
inductive Transfer (lossy : Prop) (c d : Config) : Prop
  | keep (same : ∀ n, d.accounts n = c.accounts n)
  | begin (m : Token) (fresh : c.sup.nextIncarnation ≤ m) (drawn : m < d.sup.nextIncarnation)
      (moved : ∀ n, d.accounts n = { c.accounts n with
        tasks := (c.accounts n).tasks + hit n m
        begun := (c.accounts n).begun + hit n m })
  | take (m : Token)
      (moved : ∀ n, d.accounts n = { c.accounts n with
        tasks := (c.accounts n).tasks - hit n m
        held := (c.accounts n).held + hit n m
        taken := (c.accounts n).taken + hit n m })
  | cancel (m : Token)
      (moved : ∀ n, d.accounts n = { c.accounts n with
        tasks := (c.accounts n).tasks - hit n m
        cancelled := (c.accounts n).cancelled + hit n m })
  | deliver (m : Token)
      (moved : ∀ n, d.accounts n = { c.accounts n with
        held := (c.accounts n).held - hit n m
        delivered := (c.accounts n).delivered + hit n m })
  /-- The end of an attempt is recorded, or its adoption refused, with nothing to
  deliver. -/
  | forget (m : Token)
      (moved : ∀ n, d.accounts n = { c.accounts n with
        tasks := (c.accounts n).tasks - hit n m })
  /-- What the supervisor held is let go of. -/
  | lose (lost : Token → ℤ) (some : ∀ n, 0 ≤ lost n) (allowed : lossy)
      (moved : ∀ n, d.accounts n = { c.accounts n with
        held := (c.accounts n).held - lost n })

variable {rules : Rules} {c d : Config} {lossy : Prop} {id : ActorId} {sup : SupervisionState}

/-- Observations that touch no account are not counted. -/
theorem logTally_append_neutral {obs log : List Obs} {n : Token}
    (hneutral : ∀ o ∈ obs, o.Neutral) :
    logTally Obs.begins n (obs ++ log) = logTally Obs.begins n log ∧
      logTally Obs.takes n (obs ++ log) = logTally Obs.takes n log ∧
      logTally Obs.cancels n (obs ++ log) = logTally Obs.cancels n log ∧
      logTally Obs.delivers n (obs ++ log) = logTally Obs.delivers n log := by
  induction obs with
  | nil => exact ⟨rfl, rfl, rfl, rfl⟩
  | cons o obs ih =>
    obtain ⟨hbegins, htakes, hcancels, hdelivers⟩ := hneutral o List.mem_cons_self
    have hrest := ih fun other hother => hneutral other (List.mem_cons_of_mem _ hother)
    rw [List.cons_append, logTally_of_none hbegins, logTally_of_none htakes,
      logTally_of_none hcancels, logTally_of_none hdelivers]
    exact hrest

namespace Transfer

/-- A move that shifts nothing between the accounts. -/
theorem of_neutral (obs : List Obs)
    (hkeys : (d.sup.deathKeys ++ d.sup.restartKeys).Perm (c.sup.deathKeys ++ c.sup.restartKeys))
    (hheld : ∀ n, d.held n = c.held n) (hlog : d.sup.log = obs ++ c.sup.log)
    (hneutral : ∀ o ∈ obs, o.Neutral) : Transfer lossy c d := by
  refine .keep fun n => ?_
  obtain ⟨hbegins, htakes, hcancels, hdelivers⟩ := @logTally_append_neutral obs c.sup.log n hneutral
  unfold accounts tasks tally
  rw [hheld n, hlog, hbegins, htakes, hcancels, hdelivers, (hkeys.map Prod.snd).count_eq]

/-- A move that changes neither the planes nor the loop's hands. -/
theorem of_books (obs : List Obs) (hdeath : d.sup.deathSet = c.sup.deathSet)
    (hrestart : d.sup.restartSet = c.sup.restartSet)
    (hqueued : d.sup.queuedTriggers = c.sup.queuedTriggers) (howed : d.sup.owed = c.sup.owed)
    (hwork : d.work = c.work) (hout : d.out = c.out) (hlog : d.sup.log = obs ++ c.sup.log)
    (hneutral : ∀ o ∈ obs, o.Neutral) : Transfer lossy c d := by
  refine of_neutral obs ?_ (fun n => ?_) hlog hneutral
  · unfold deathKeys restartKeys
    rw [hdeath, hrestart]
  · unfold held
    rw [hqueued, howed, hwork, hout]

end Transfer

theorem transfer_initiateRestart {b : Config} {id : ActorId} {origin : Origin}
    (hsame : ∀ n, c.accounts n = b.accounts n)
    (hcounter : c.sup.nextIncarnation = b.sup.nextIncarnation) :
    Transfer lossy b (c.withSup (c.sup.initiateRestart id origin)) := by
  rcases @initiateRestart_cases c.sup id origin with hnone | ⟨child, n, pending, _, _, _, hbegin⟩
  · rw [hnone]
    exact .keep hsame
  · rw [hbegin]
    by_cases hfn : id ∈ c.sup.restartFns
    · refine .begin c.sup.nextIncarnation (Nat.le_of_eq hcounter.symm) (Nat.lt_succ_self _)
        fun m => ?_
      have hbegun : Obs.begins (.began id (.down n pending) c.sup.nextIncarnation origin) =
          some c.sup.nextIncarnation := rfl
      rw [← hsame m]
      ext
      · simp [accounts, tasks, deathKeys, restartKeys, «begin», hfn,
          RestartTask.key]
        omega
      · rfl
      · simp [accounts, «begin», hfn, logTally_of_some hbegun]
        omega
      · simp [accounts, «begin», hfn, logTally_cons, Obs.takes]
      · simp [accounts, «begin», hfn, logTally_cons, Obs.cancels]
      · simp [accounts, «begin», hfn, logTally_cons, Obs.delivers]
    · refine .keep fun m => ?_
      rw [← hsame m]
      simp [accounts, tasks, held, deathKeys, restartKeys, «begin», hfn]

theorem transfer_take (m : Token) (obs : List Obs) (hincarnation : report.incarnation = m)
    (htasks : ∀ n, d.tasks n + hit n m = c.tasks n)
    (hqueued : d.sup.queuedTriggers = c.sup.queuedTriggers) (howed : d.sup.owed = c.sup.owed)
    (hwork : d.work = report :: c.work) (hout : d.out = c.out)
    (hlog : d.sup.log = .taken id m :: (obs ++ c.sup.log)) (hneutral : ∀ o ∈ obs, o.Neutral) :
    Transfer lossy c d := by
  refine .take m fun n => ?_
  obtain ⟨hbegins, htakes, hcancels, hdelivers⟩ := @logTally_append_neutral obs c.sup.log n hneutral
  have htask := htasks n
  have htaken : Obs.takes (.taken id m) = some m := rfl
  ext
  · simp only [accounts]
    omega
  · simp only [accounts, held, hqueued, howed, hwork, hout, reportTally_cons,
      hincarnation]
    omega
  · simp only [accounts, hlog]
    rw [logTally_of_none rfl, hbegins]
  · simp only [accounts, hlog]
    rw [logTally_of_some htaken, htakes]
    omega
  · simp only [accounts, hlog]
    rw [logTally_of_none rfl, hcancels]
  · simp only [accounts, hlog]
    rw [logTally_of_none rfl, hdelivers]

theorem tasks_eraseDeath {task : DeathTask} (hfound : c.sup.deathTask task.incarnation = some task)
    (n : Token) :
    tally n (((c.sup.deathSet.erase task).map DeathTask.key ++ c.sup.restartKeys).map Prod.snd) +
      hit n task.incarnation = c.tasks n := by
  have herase := @tally_erase _ _ n _ _ DeathTask.incarnation _ task (Keyed.mem_of_find hfound)
  have hkey : Prod.snd ∘ DeathTask.key = DeathTask.incarnation := rfl
  unfold tasks deathKeys
  simp only [List.map_append, tally_append, List.map_map, hkey]
  omega

theorem tasks_eraseRestart {task : RestartTask}
    (hfound : c.sup.restartTask task.incarnation = some task) (n : Token) :
    tally n ((c.sup.deathKeys ++ (c.sup.restartSet.erase task).map RestartTask.key).map Prod.snd) +
      hit n task.incarnation = c.tasks n := by
  have herase := @tally_erase _ _ n _ _ RestartTask.incarnation _ task (Keyed.mem_of_find hfound)
  have hkey : Prod.snd ∘ RestartTask.key = RestartTask.incarnation := rfl
  unfold tasks restartKeys
  simp only [List.map_append, tally_append, List.map_map, hkey]
  omega

theorem transfer_forget (m : Token) (obs : List Obs) (htasks : ∀ n, d.tasks n + hit n m = c.tasks n)
    (hqueued : d.sup.queuedTriggers = c.sup.queuedTriggers) (howed : d.sup.owed = c.sup.owed)
    (hwork : d.work = c.work) (hout : d.out = c.out) (hlog : d.sup.log = obs ++ c.sup.log)
    (hneutral : ∀ o ∈ obs, o.Neutral) : Transfer lossy c d := by
  refine .forget m fun n => ?_
  obtain ⟨hbegins, htakes, hcancels, hdelivers⟩ := @logTally_append_neutral obs c.sup.log n hneutral
  have htask := htasks n
  unfold accounts held
  rw [hqueued, howed, hwork, hout, hlog, hbegins, htakes, hcancels, hdelivers]
  ext <;> dsimp only
  omega

theorem frame_recordCollectedEnd :
    Sys.recordCollectedEnd sup id n = { sup with
      registry := (Sys.recordCollectedEnd sup id n).registry
      pendingManualEvents := (Sys.recordCollectedEnd sup id n).pendingManualEvents
      pendingGroup := (Sys.recordCollectedEnd sup id n).pendingGroup } := by
  unfold Sys.recordCollectedEnd settleBarrier
  dsimp only
  split <;> split <;> (try split) <;> rfl

theorem frame_recordCancelled :
    Sys.recordCancelled sup id n = { sup with
      registry := (Sys.recordCancelled sup id n).registry
      log := .cancelled id n :: sup.log } := by
  unfold Sys.recordCancelled
  split
  · split <;> rfl
  · rfl

theorem frame_takeReport {sup left : SupervisionState} {work rest : List Report} {id : ActorId}
    {n m : Token} {reason : StopReason}
    (htake : sup.takeReport work id m = some (left, rest, reason)) :
    left = { sup with queuedTriggers := left.queuedTriggers } ∧
      reportTally n left.queuedTriggers + reportTally n rest + hit n m =
        reportTally n sup.queuedTriggers + reportTally n work := by
  have hincarnation {reports : List Report} {report : Report}
      (hfind : reports.find? (isReportOf id m) = some report) : report.incarnation = m := by
    have hmatch := List.find?_some hfind
    simp only [isReportOf, Bool.and_eq_true, beq_iff_eq] at hmatch
    exact hmatch.2
  unfold takeReport at htake
  split at htake
  next report hfind =>
    cases htake
    have hlost := @tally_eraseP _ _ n _ Report.incarnation _ _ _ hfind
    rw [hincarnation hfind] at hlost
    refine ⟨rfl, ?_⟩
    simp only [reportTally]
    omega
  · split at htake
    next report hfind =>
      cases htake
      have hlost := @tally_eraseP _ _ n _ Report.incarnation _ _ _ hfind
      rw [hincarnation hfind] at hlost
      refine ⟨rfl, ?_⟩
      simp only [reportTally]
      omega
    · cases htake

theorem Judgement.neutral {ev : Report} {budget : RestartBudget} {obs : List Obs}
    (hjudged : Judgement sup ev budget obs) : ∀ o ∈ obs, o.Neutral := by
  cases hjudged <;> simp [Obs.Neutral, Obs.begins, Obs.takes, Obs.cancels, Obs.delivers]

/-- Every move transfers one incarnation at most. -/
theorem Move.transfer (hmove : Move rules c d) : Transfer (¬ rules.kept) c d := by
  have hneutral {obs : Obs} (hobs : obs.Neutral) : ∀ o ∈ [obs], o.Neutral := by simpa using hobs
  have hsame (held : ∀ n, d.held n = c.held n) (hdeath : d.sup.deathSet = c.sup.deathSet)
      (hrestart : d.sup.restartSet = c.sup.restartSet) (obs : List Obs)
      (hlog : d.sup.log = obs ++ c.sup.log) (hobs : ∀ o ∈ obs, o.Neutral) :
      Transfer (¬ rules.kept) c d := by
    refine .of_neutral obs ?_ held hlog hobs
    unfold deathKeys restartKeys
    rw [hdeath, hrestart]
  cases hmove with
  | plane hplane =>
    obtain ⟨⟨_, _, _, _, _, obs, rfl, hobs⟩, _, hkeys, _⟩ := hplane.frame
    exact .of_neutral obs hkeys (fun _ => rfl) rfl fun o ho => Obs.neutral_of_plane (hobs o ho)
  | group hgroup =>
    obtain ⟨group, slots, obs, rfl, hobs⟩ := hgroup.frame
    exact .of_books obs rfl rfl rfl rfl rfl rfl rfl fun o ho => Obs.neutral_of_group (hobs o ho)
  | spawn id =>
    refine .begin c.sup.nextIncarnation (Nat.le_refl _) (Nat.lt_succ_self _) fun m => ?_
    have hspawned : Obs.begins (.spawned id c.sup.nextIncarnation) =
        some c.sup.nextIncarnation := rfl
    ext
    · simp [accounts, tasks, deathKeys, restartKeys, spawnChildInternal,
        DeathTask.key]
      omega
    · rfl
    · simp [accounts, spawnChildInternal, logTally_of_some hspawned]
      omega
    · simp [accounts, spawnChildInternal, logTally_cons, Obs.takes]
    · simp [accounts, spawnChildInternal, logTally_cons, Obs.cancels]
    · simp [accounts, spawnChildInternal, logTally_cons, Obs.delivers]
  | rebound id n child reason =>
    exact @transfer_initiateRestart (c.withSup
      ((c.sup.transition id (.down n .snapshot)).keepSnapshot
      id n ⟨id, child.name, reason, .restartInitiated⟩)) _ c id .bounce (fun _ => rfl) rfl
  | restart | chainBegin | «begin» => exact transfer_initiateRestart (fun _ => rfl) rfl
  | subtree | commit | crash | rewrite | decide | install | enter | drainRestarts
  | drainDeaths | refuse | kill | lay | record | dismiss | absorbSnapshot =>
    exact .keep fun _ => rfl
  | terminated | release | prune | reinstall =>
    exact .of_books [_] rfl rfl rfl rfl rfl rfl rfl (hneutral ⟨rfl, rfl, rfl, rfl⟩)
  | complete | endLoop =>
    refine hsame (fun n => ?_) rfl rfl [_] rfl (hneutral ⟨rfl, rfl, rfl, rfl⟩)
    simp [held]
    omega
  | takeDeath task reason hfound =>
    refine transfer_take task.incarnation [] rfl (fun n => ?_) rfl rfl rfl rfl rfl (by simp)
    exact tasks_eraseDeath hfound n
  | takeRestart task reason hfound =>
    refine transfer_take task.incarnation [] rfl (fun n => ?_) rfl rfl rfl rfl rfl (by simp)
    exact tasks_eraseRestart hfound n
  | takeLost task panic hfound =>
    refine transfer_take task.incarnation [_] rfl (fun n => ?_) rfl rfl rfl rfl rfl
      (hneutral ⟨rfl, rfl, rfl, rfl⟩)
    exact tasks_eraseRestart hfound n
  | cancel task hunlaid hfound =>
    rw [frame_recordCancelled]
    refine .cancel task.incarnation fun n => ?_
    have htask := tasks_eraseRestart hfound n
    have hcancelled : Obs.cancels (.cancelled task.childId task.incarnation) =
        some task.incarnation := rfl
    ext
    · change tally n ((c.sup.deathKeys ++ (c.sup.restartSet.erase task).map
        RestartTask.key).map Prod.snd) = c.tasks n - _
      omega
    · rfl
    · exact logTally_of_none rfl
    · exact logTally_of_none rfl
    · change logTally _ n (_ :: c.sup.log) = logTally _ n c.sup.log + _
      rw [logTally_of_some hcancelled]
      omega
    · exact logTally_of_none rfl
  | adopt task hunlaid hfound =>
    refine .of_neutral [_] ?_ (fun _ => rfl) rfl (hneutral ⟨rfl, rfl, rfl, rfl⟩)
    have hperm := (List.perm_cons_erase (Keyed.mem_of_find hfound)).map RestartTask.key
    change ((c.sup.deathSet ++ [_]).map DeathTask.key ++
      (c.sup.restartSet.erase task).map RestartTask.key).Perm _
    rw [List.map_append, List.append_assoc]
    exact hperm.symm.append_left _
  | adoptStale task hfound =>
    refine transfer_forget task.incarnation [] (fun n => ?_) rfl rfl rfl rfl rfl (by simp)
    exact tasks_eraseRestart hfound n
  | close ev work event budget obs hlooping hunplanned hhead hopens hjudged =>
    refine hsame (fun n => ?_) rfl rfl obs rfl hjudged.neutral
    simp [held, transition, hhead]
    omega
  | closeGone ev work event hhead =>
    refine hsame (fun n => ?_) rfl rfl [_] rfl (hneutral ⟨rfl, rfl, rfl, rfl⟩)
    simp [held, note, hhead]
    omega
  | queue ev work phase life hhead =>
    refine hsame (fun n => ?_) rfl rfl [] rfl (by simp)
    simp [held, transition, hhead]
    omega
  | drop ev work hhead hpast hlossy =>
    refine .lose (fun n => hit n ev.incarnation) (fun _ => hit_nonneg) hlossy fun n => ?_
    ext
    · rfl
    · simp [accounts, held, hhead]
      omega
    · rfl
    · rfl
    · rfl
    · rfl
  | snapshot ev work event hunlaid hhead =>
    refine hsame (fun n => ?_) rfl rfl [] rfl (by simp)
    simp [held, takeSnapshot, hhead]
    omega
  | absorb id n queued work event hlooping hunlaid hentry htaken =>
    refine hsame (fun m => ?_) rfl rfl [] rfl (by simp)
    obtain ⟨_, hmoved⟩ := @frame_takeReport _ _ _ _ _ m n _ htaken
    dsimp only at hmoved
    simp [held, transition]
    omega
  | retitle event final n rest hunlaid hheld =>
    refine hsame (fun m => ?_) rfl rfl [] rfl (by simp)
    simp [held, hheld]
  | reorder out hunlaid hperm =>
    refine hsame (fun n => ?_) rfl rfl [] rfl (by simp)
    simp [held, deliveryTally_perm hperm]
  | deliver event n rest hheld =>
    refine .deliver n fun m => ?_
    have hdelivers : Obs.delivers (.delivered event n (c.sup.restartStands event.childId n)) =
        some n := rfl
    ext
    · rfl
    · simp [accounts, held, note, hheld]
      omega
    · exact logTally_of_none rfl
    · exact logTally_of_none rfl
    · exact logTally_of_none rfl
    · change logTally _ m (_ :: c.sup.log) = logTally _ m c.sup.log + _
      rw [logTally_of_some hdelivers]
      omega
  | owe event n rest owed names hheld hperm =>
    refine hsame (fun m => ?_) rfl rfl [] rfl (by simp)
    simp [held, hheld, reportTally_perm hperm]
    omega
  | gather =>
    refine hsame (fun n => ?_) rfl rfl [] rfl (by simp)
    simp [held]
    omega
  | collect ev work name hover hhead =>
    rw [frame_recordCollectedEnd] at hsame ⊢
    refine hsame (fun n => ?_) rfl rfl [] rfl (by simp)
    simp [held, hhead]
    omega
  | teardown hbefore hkept =>
    by_cases hqueued : c.sup.queuedTriggers = []
    · refine hsame (fun n => ?_) rfl rfl [] rfl (by simp)
      simp [held, hqueued]
    · refine .lose (fun n => reportTally n c.sup.queuedTriggers) (fun _ => reportTally_nonneg)
        (fun h => hqueued (hkept h)) fun n => ?_
      ext
      · rfl
      · simp [accounts, held]
        omega
      · rfl
      · rfl
      · rfl
      · rfl
  | discard task htorn hfound =>
    rw [frame_recordCollectedEnd]
    refine transfer_forget task.incarnation [] (fun n => ?_) rfl rfl rfl rfl rfl (by simp)
    exact tasks_eraseRestart hfound n
  | discardLost task panic htorn hfound =>
    rw [frame_recordCollectedEnd]
    refine transfer_forget task.incarnation [_] (fun n => ?_) rfl rfl rfl rfl rfl
      (hneutral ⟨rfl, rfl, rfl, rfl⟩)
    exact tasks_eraseRestart hfound n
  | abort hkilled hlossy =>
    refine .lose (fun n => reportTally n c.work + deliveryTally n c.out)
      (fun n => Int.add_nonneg reportTally_nonneg deliveryTally_nonneg) hlossy fun n => ?_
    ext
    · rfl
    · simp [accounts, held]
    · rfl
    · rfl
    · rfl
    · rfl

end TokioActors
