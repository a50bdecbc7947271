/-
# What holds of the books in every run

The facts every move keeps, whatever the run does: children have distinct ids,
tokens are drawn before they are used and begun once, every incarnation is in one
place at most, what the loop holds was taken, and the task of an attempt works
for an entry that is restarting.
-/

import TokioActors.Supervision.Entries

namespace TokioActors

open SupervisionState Tally Registry

variable {rules : Rules} {c d : Config}
variable {sup : SupervisionState} {id : ActorId} {n : Token} {origin : Origin}

/-! ## The counter and the record -/

theorem nextIncarnation_initiateRestart :
    (sup.initiateRestart id origin).nextIncarnation = sup.nextIncarnation + 1 := by
  rcases @initiateRestart_cases sup id origin with hsame | ⟨child, n, pending, _, _, _, hbegin⟩
  · rw [hsame]
  · rw [hbegin]
    rfl

theorem log_initiateRestart : sup.log <:+ (sup.initiateRestart id origin).log := by
  rcases @initiateRestart_cases sup id origin with hsame | ⟨child, n, pending, _, _, _, hbegin⟩
  · rw [hsame]
  · rw [hbegin]
    unfold «begin»
    dsimp only
    split
    · exact List.suffix_cons _ _
    · exact List.suffix_rfl

/-- The record only grows, and tokens are only drawn. -/
theorem Move.grows (hmove : Move rules c d) :
    c.sup.log <:+ d.sup.log ∧ c.sup.nextIncarnation ≤ d.sup.nextIncarnation := by
  have hinitiated {sup : SupervisionState} {id : ActorId} {origin : Origin}
      (hlog : c.sup.log <:+ sup.log) (hcounter : sup.nextIncarnation = c.sup.nextIncarnation) :
      c.sup.log <:+ (sup.initiateRestart id origin).log ∧
        c.sup.nextIncarnation ≤ (sup.initiateRestart id origin).nextIncarnation := by
    refine ⟨hlog.trans log_initiateRestart, ?_⟩
    rw [nextIncarnation_initiateRestart, hcounter]
    exact Nat.le_succ _
  have hsame : c.sup.log <:+ c.sup.log ∧ c.sup.nextIncarnation ≤ c.sup.nextIncarnation :=
    ⟨List.suffix_rfl, Nat.le_refl _⟩
  have hnoted (obs : Obs) : c.sup.log <:+ obs :: c.sup.log ∧
      c.sup.nextIncarnation ≤ c.sup.nextIncarnation := ⟨List.suffix_cons _ _, Nat.le_refl _⟩
  cases hmove with
  | plane hplane =>
    obtain ⟨⟨_, _, _, _, _, obs, rfl, _⟩, hcounter, _, _⟩ := hplane.frame
    exact ⟨List.suffix_append _ _, hcounter⟩
  | group hgroup =>
    obtain ⟨_, _, _, rfl, _⟩ := hgroup.frame
    exact ⟨List.suffix_append _ _, Nat.le_refl _⟩
  | spawn => exact ⟨List.suffix_cons _ _, Nat.le_succ _⟩
  | rebound | restart | chainBegin | «begin» => exact hinitiated List.suffix_rfl rfl
  | takeLost => exact ⟨(List.suffix_cons _ _).trans (List.suffix_cons _ _), Nat.le_refl _⟩
  | cancel task =>
    rw [frame_recordCancelled]
    exact hnoted _
  | close => exact ⟨List.suffix_append _ _, Nat.le_refl _⟩
  | collect | discard =>
    rw [frame_recordCollectedEnd]
    exact hsame
  | discardLost task panic =>
    rw [frame_recordCollectedEnd]
    exact hnoted _
  | subtree | commit | crash | rewrite | decide | install | adoptStale | drop | snapshot
  | retitle | reorder | owe | enter | gather | drainRestarts | drainDeaths | teardown
  | refuse | kill | abort | lay | queue | absorb | record | dismiss | absorbSnapshot => exact hsame
  | _ => exact hnoted _

theorem Moves.grows (hmoves : Moves rules c d) :
    c.sup.log <:+ d.sup.log ∧ c.sup.nextIncarnation ≤ d.sup.nextIncarnation := by
  induction hmoves with
  | refl => exact ⟨List.suffix_rfl, Nat.le_refl _⟩
  | tail _ hmove ih => exact ⟨ih.1.trans hmove.grows.1, ih.2.trans hmove.grows.2⟩

/-! ## What the supervisor holds -/

def Report.key (report : Report) : ActorId × Token := (report.childId, report.incarnation)

def deliveryKey (delivery : Delivery) : ActorId × Token := (delivery.1.childId, delivery.2)

/-- The ends in the supervisor's hands. -/
def Config.heldKeys (c : Config) : List (ActorId × Token) :=
  c.sup.queuedTriggers.map Report.key ++ c.sup.owed.map Report.key ++ c.work.map Report.key ++
    c.out.map deliveryKey

theorem Config.mem_heldKeys {key : ActorId × Token} : key ∈ c.heldKeys ↔
    key ∈ c.sup.queuedTriggers.map Report.key ∨ key ∈ c.sup.owed.map Report.key ∨
      key ∈ c.work.map Report.key ∨ key ∈ c.out.map deliveryKey := by
  simp only [Config.heldKeys, List.mem_append, or_assoc]

theorem mem_takeReport {left : SupervisionState} {work rest : List Report} {reason : StopReason}
    (htake : sup.takeReport work id n = some (left, rest, reason)) :
    (∀ report ∈ left.queuedTriggers, report ∈ sup.queuedTriggers) ∧
      (∀ report ∈ rest, report ∈ work) ∧
      ((⟨id, reason, n⟩ : Report) ∈ sup.queuedTriggers ∨ (⟨id, reason, n⟩ : Report) ∈ work) := by
  have hreport {reports : List Report} {report : Report}
      (hfind : reports.find? (isReportOf id n) = some report) :
      (⟨id, report.reason, n⟩ : Report) ∈ reports := by
    have hmatch := List.find?_some hfind
    simp only [isReportOf, Bool.and_eq_true, beq_iff_eq] at hmatch
    rw [← hmatch.1, ← hmatch.2]
    exact List.mem_of_find?_eq_some hfind
  unfold takeReport at htake
  split at htake
  next report hfind =>
    cases htake
    exact ⟨fun _ h => List.mem_of_mem_eraseP h, fun _ h => h, .inl (hreport hfind)⟩
  · split at htake
    next report hfind =>
      cases htake
      exact ⟨fun _ h => h, fun _ h => List.mem_of_mem_eraseP h, .inr (hreport hfind)⟩
    · cases htake

/-- A snapshot is of the child it is kept under. -/
def SupervisionState.Subjects (sup : SupervisionState) : Prop :=
  ∀ id n event, sup.pendingManualEvents.lookup (id, n) = some event → event.childId = id

theorem subjects_insert {next : SupervisionState} {event : ChildEvent} (hsubjects : sup.Subjects)
    (hevents : next.pendingManualEvents = sup.pendingManualEvents.insert (id, n) event)
    (hsubject : event.childId = id) : next.Subjects := by
  intro other m found hfound
  rw [hevents] at hfound
  by_cases heq : (other, m) = (id, n)
  · rw [heq, Finmap.lookup_insert] at hfound
    cases hfound
    cases heq
    exact hsubject
  · rw [Finmap.lookup_insert_of_ne _ heq] at hfound
    exact hsubjects other m found hfound

theorem subjects_erase {next : SupervisionState} {key : ActorId × Token}
    (hsubjects : sup.Subjects)
    (hevents : next.pendingManualEvents = sup.pendingManualEvents.erase key) : next.Subjects := by
  intro other m found hfound
  rw [hevents] at hfound
  by_cases heq : (other, m) = key
  · rw [heq, Finmap.lookup_erase] at hfound
    cases hfound
  · rw [Finmap.lookup_erase_ne heq] at hfound
    exact hsubjects other m found hfound

theorem events_recordCollectedEnd :
    (Sys.recordCollectedEnd sup id n).pendingManualEvents = sup.pendingManualEvents.erase
      (id, n) := by
  unfold Sys.recordCollectedEnd settleBarrier
  dsimp only
  split <;> split <;> (try split) <;> rfl

theorem Move.subjects (hmove : Move rules c d) (hsubjects : c.sup.Subjects) : d.sup.Subjects := by
  have hsame {sup : SupervisionState}
      (hevents : sup.pendingManualEvents = c.sup.pendingManualEvents) :
      sup.Subjects := by
    unfold SupervisionState.Subjects
    rw [hevents]
    exact hsubjects
  cases hmove with
  | plane hplane =>
    obtain ⟨_, _, _, _, _, _, rfl, _⟩ := hplane.frame.same
    exact hsame rfl
  | group hgroup =>
    obtain ⟨_, _, _, rfl, _⟩ := hgroup.frame
    exact hsame rfl
  | record | absorbSnapshot | dismiss => exact subjects_insert hsubjects rfl rfl
  | rebound id n child reason =>
    rw [frame_initiateRestart]
    exact subjects_insert hsubjects rfl rfl
  | rewrite id n event action hfound =>
    exact subjects_insert hsubjects rfl (hsubjects id n event hfound)
  | restart | «begin» | chainBegin => exact hsame (by rw [frame_initiateRestart])
  | cancel task => exact hsame (by rw [frame_recordCancelled])
  | snapshot => exact subjects_erase hsubjects rfl
  | collect | discard | discardLost => exact subjects_erase hsubjects events_recordCollectedEnd
  | _ => exact hsame rfl

/-- What a move puts in the supervisor's hands was there before, or was taken. -/
theorem Move.heldKeys (hmove : Move rules c d) (hsubjects : c.sup.Subjects)
    {key : ActorId × Token} (hkey : key ∈ d.heldKeys) :
    key ∈ c.heldKeys ∨ Obs.taken key.1 key.2 ∈ d.sup.log := by
  have htaken {report : Report} {reports : List Report}
      (hmem : key ∈ c.sup.queuedTriggers.map Report.key ∨ key ∈ c.sup.owed.map Report.key ∨
        key ∈ (report :: reports).map Report.key ∨ key ∈ c.out.map deliveryKey)
      (hwork : c.work = reports) {log : List Obs} :
      (key ∈ c.sup.queuedTriggers.map Report.key ∨ key ∈ c.sup.owed.map Report.key ∨
        key ∈ c.work.map Report.key ∨ key ∈ c.out.map deliveryKey) ∨
        Obs.taken key.1 key.2 ∈ Obs.taken report.childId report.incarnation :: log := by
    rw [List.map_cons, List.mem_cons] at hmem
    by_cases hown : key = report.key
    · subst hown
      exact .inr List.mem_cons_self
    · left
      rw [hwork]
      tauto
  -- An end that is decided moves from the worklist to the deliveries.
  have hdecided {ev : Report} {work : List Report} {event : ChildEvent}
      (hhead : c.work = ev :: work) (hsubject : event.childId = ev.childId)
      (hmem : key ∈ c.sup.queuedTriggers.map Report.key ∨ key ∈ c.sup.owed.map Report.key ∨
        key ∈ work.map Report.key ∨
        key ∈ ((event, ev.incarnation) :: c.out).map deliveryKey) :
      key ∈ c.sup.queuedTriggers.map Report.key ∨ key ∈ c.sup.owed.map Report.key ∨
        key ∈ c.work.map Report.key ∨ key ∈ c.out.map deliveryKey := by
    have hown : deliveryKey (event, ev.incarnation) = ev.key := by
      rw [deliveryKey, hsubject]
      rfl
    rw [hhead]
    rw [List.map_cons, List.mem_cons, hown] at hmem
    rw [List.map_cons, List.mem_cons]
    tauto
  rw [Config.mem_heldKeys] at hkey
  rw [Config.mem_heldKeys]
  cases hmove with
  | plane hplane =>
    obtain ⟨_, _, _, _, _, _, rfl, _⟩ := hplane.frame.same
    exact .inl hkey
  | group hgroup =>
    obtain ⟨_, _, _, rfl, _⟩ := hgroup.frame
    exact .inl hkey
  | rebound | restart | «begin» | chainBegin =>
    rw [frame_initiateRestart] at hkey
    exact .inl hkey
  | complete | endLoop | gather =>
    left
    simp only [List.map_nil, List.not_mem_nil, List.map_append, List.mem_append, false_or] at hkey
    tauto
  | takeDeath | takeRestart | takeLost => exact htaken hkey rfl
  | cancel task =>
    rw [frame_recordCancelled] at hkey
    exact .inl hkey
  | close ev work event budget obs hlooping hunplanned hhead hopens hjudged hsubject =>
    exact .inl (hdecided hhead hsubject hkey)
  | closeGone ev work event hhead hsubject => exact .inl (hdecided hhead hsubject hkey)
  | queue ev work phase life hhead =>
    left
    rw [hhead]
    simp only [List.map_append, List.map_cons, List.map_nil, List.mem_append, List.mem_cons,
      List.not_mem_nil, or_false] at hkey ⊢
    change (key ∈ c.sup.queuedTriggers.map Report.key ∨ _) ∨ key ∈ c.sup.owed.map Report.key ∨ _
      at hkey
    tauto
  | drop ev work hhead =>
    left
    rw [hhead]
    simp only [List.map_cons, List.mem_cons]
    tauto
  | snapshot ev work event hunlaid hhead hfound =>
    exact .inl (hdecided hhead (hsubjects _ _ _ hfound) hkey)
  | absorb id n queued work event hlooping hunlaid hentry htaken hsubject =>
    left
    obtain ⟨hqueued, hwork, hplace⟩ := mem_takeReport htaken
    rcases hkey with h | h | h | h
    · obtain ⟨report, hmem, rfl⟩ := List.mem_map.mp h
      exact .inl (List.mem_map_of_mem (hqueued report hmem))
    · exact .inr (.inl h)
    · obtain ⟨report, hmem, rfl⟩ := List.mem_map.mp h
      exact .inr (.inr (.inl (List.mem_map_of_mem (hwork report hmem))))
    · rw [List.map_append, List.mem_append] at h
      rcases h with h | h
      · exact .inr (.inr (.inr h))
      · have hown : key = (id, n) := by
          simpa [deliveryKey, hsubject] using h
        subst hown
        rcases hplace with hmem | hmem
        · exact .inl (List.mem_map_of_mem (f := Report.key) hmem)
        · exact .inr (.inr (.inl (List.mem_map_of_mem (f := Report.key) hmem)))
  | retitle event final n rest hunlaid hheld hsubject =>
    left
    rw [hheld]
    simp only [List.map_cons, List.mem_cons] at hkey ⊢
    have hown : deliveryKey (final, n) = deliveryKey (event, n) := by
      rw [deliveryKey, hsubject]
      rfl
    rw [hown] at hkey
    exact hkey
  | reorder out hunlaid hperm =>
    left
    rcases hkey with h | h | h | h
    · exact .inl h
    · exact .inr (.inl h)
    · exact .inr (.inr (.inl h))
    · exact .inr (.inr (.inr ((hperm.map deliveryKey).mem_iff.mp h)))
  | deliver event n rest hheld =>
    left
    rw [hheld]
    simp only [List.map_cons, List.mem_cons]
    change key ∈ c.sup.queuedTriggers.map Report.key ∨ key ∈ c.sup.owed.map Report.key ∨ _ at hkey
    tauto
  | owe event n rest owed names hheld hperm =>
    left
    rw [hheld]
    have howed : key ∈ owed.map Report.key ↔
        key = deliveryKey (event, n) ∨ key ∈ c.sup.owed.map Report.key := by
      rw [(hperm.map Report.key).mem_iff, List.map_cons, List.mem_cons]
      rfl
    simp only [List.map_cons, List.mem_cons, howed] at hkey ⊢
    tauto
  | collect ev work name hover hhead =>
    left
    rw [frame_recordCollectedEnd] at hkey
    rw [hhead]
    simp only [List.map_cons, List.map_append, List.map_nil, List.mem_append, List.mem_cons,
      List.not_mem_nil, or_false] at hkey ⊢
    have hown : deliveryKey (⟨ev.childId, name, ev.reason, .supervisorStopping⟩,
      ev.incarnation) = ev.key := rfl
    rw [hown] at hkey
    tauto
  | teardown =>
    left
    simp only [List.map_nil, List.not_mem_nil, false_or] at hkey
    tauto
  | discard | discardLost =>
    rw [frame_recordCollectedEnd] at hkey
    exact .inl hkey
  | abort =>
    left
    simp only [List.map_nil, List.not_mem_nil, or_false] at hkey
    tauto
  | _ => exact .inl hkey

/-! ## The invariant -/

structure Sound (c : Config) : Prop where
  nodup : c.sup.registry.ids.Nodup
  fresh : ∀ id life, c.sup.registry.life id = some life → life.heldToken < c.sup.nextIncarnation
  once : ∀ n, (c.accounts n).begun ≤ 1
  unbegun : ∀ n, c.sup.nextIncarnation ≤ n → (c.accounts n).begun = 0
  worked : ∀ n, (c.accounts n).tasks + (c.accounts n).taken + (c.accounts n).cancelled ≤
    (c.accounts n).begun
  handled : ∀ n, (c.accounts n).held + (c.accounts n).delivered ≤ (c.accounts n).taken
  taken : ∀ key ∈ c.heldKeys, Obs.taken key.1 key.2 ∈ c.sup.log
  subjects : c.sup.Subjects
  restarting : ∀ id n, (id, n) ∈ c.sup.restartKeys → ∀ life, c.sup.registry.life id = some life →
    life.heldToken = n → ∃ p, life = .restarting p n

namespace Sound

variable {n : Token}

theorem tasks_nonneg {n : Token} : 0 ≤ c.tasks n := tally_nonneg

theorem held_nonneg {n : Token} : 0 ≤ c.held n := by
  have hqueued := @reportTally_nonneg n c.sup.queuedTriggers
  have howed := @reportTally_nonneg n c.sup.owed
  have hwork := @reportTally_nonneg n c.work
  have hout := @deliveryTally_nonneg n c.out
  unfold Config.held
  omega

/-- An incarnation is in one place at most. -/
theorem places (hsound : Sound c) (n : Token) :
    c.tasks n + c.held n + logTally Obs.cancels n c.sup.log +
      logTally Obs.delivers n c.sup.log ≤ 1 := by
  have honce := hsound.once n
  have hworked := hsound.worked n
  have hhandled := hsound.handled n
  simp only [Config.accounts] at honce hworked hhandled
  omega

theorem tasks_of_held (hsound : Sound c) (hheld : 0 < c.held n) : c.tasks n = 0 := by
  have hplaces := hsound.places n
  have htasks := @tasks_nonneg c n
  have hcancelled := @logTally_nonneg Obs.cancels n c.sup.log
  have hdelivered := @logTally_nonneg Obs.delivers n c.sup.log
  omega

theorem tasks_le_one (hsound : Sound c) (n : Token) : c.tasks n ≤ 1 := by
  have hplaces := hsound.places n
  have hheld := @held_nonneg c n
  have hcancelled := @logTally_nonneg Obs.cancels n c.sup.log
  have hdelivered := @logTally_nonneg Obs.delivers n c.sup.log
  omega

theorem tasks_pos_of_restart (hmem : (id, n) ∈ c.sup.restartKeys) : 0 < c.tasks n := by
  unfold Config.tasks
  rw [tally_pos_iff, List.map_append]
  exact List.mem_append_right _ (List.mem_map_of_mem (f := Prod.snd) hmem)

theorem lt_of_tasks (hsound : Sound c) (htasks : 0 < c.tasks n) :
    n < c.sup.nextIncarnation := by
  by_contra hle
  have hunbegun := hsound.unbegun n (Nat.le_of_not_lt hle)
  have hworked := hsound.worked n
  have htaken := @logTally_nonneg Obs.takes n c.sup.log
  have hcancelled := @logTally_nonneg Obs.cancels n c.sup.log
  simp only [Config.accounts] at hunbegun hworked
  omega

theorem not_taken_of_cancelled (hsound : Sound c) {other : ActorId}
    (hcancelled : Obs.cancelled id n ∈ c.sup.log) : Obs.taken other n ∉ c.sup.log := by
  intro htaken
  have hone := hsound.once n
  have hworked := hsound.worked n
  have htasks := @tasks_nonneg c n
  have hcancels : 0 < logTally Obs.cancels n c.sup.log := logTally_pos hcancelled rfl
  have htakes : 0 < logTally Obs.takes n c.sup.log := logTally_pos htaken rfl
  simp only [Config.accounts] at hone hworked
  omega

theorem accounts_transfer {lossy : Prop} (hsound : Sound c) (htransfer : Transfer lossy c d)
    (hcounter : c.sup.nextIncarnation ≤ d.sup.nextIncarnation) :
    (∀ n, (d.accounts n).begun ≤ 1) ∧
      (∀ n, d.sup.nextIncarnation ≤ n → (d.accounts n).begun = 0) ∧
      (∀ n, (d.accounts n).tasks + (d.accounts n).taken + (d.accounts n).cancelled ≤
        (d.accounts n).begun) ∧
      ∀ n, (d.accounts n).held + (d.accounts n).delivered ≤ (d.accounts n).taken := by
  refine ⟨fun n => ?_, fun n hn => ?_, fun n => ?_, fun n => ?_⟩
  · have honce := hsound.once n
    cases htransfer with
    | keep hmoved | lose _ _ _ hmoved => rw [hmoved n]; exact honce
    | «begin» m hfresh hdrawn hmoved =>
      rw [hmoved n]
      by_cases heq : m = n
      · subst heq
        have hunbegun := hsound.unbegun m hfresh
        simp only [hit_self]
        omega
      · simp only [hit_of_ne heq]
        omega
    | take _ hmoved | cancel _ hmoved | deliver _ hmoved | forget _ hmoved =>
      rw [hmoved n]; exact honce
  · have hunbegun := hsound.unbegun n (Nat.le_trans hcounter hn)
    cases htransfer with
    | keep hmoved | lose _ _ _ hmoved => rw [hmoved n]; exact hunbegun
    | «begin» m hfresh hdrawn hmoved =>
      rw [hmoved n]
      have hne : m ≠ n := Nat.ne_of_lt (Nat.lt_of_lt_of_le hdrawn hn)
      simp only [hit_of_ne hne]
      omega
    | take _ hmoved | cancel _ hmoved | deliver _ hmoved | forget _ hmoved =>
      rw [hmoved n]; exact hunbegun
  · have hworked := hsound.worked n
    cases htransfer with
    | keep hmoved | deliver _ hmoved | lose _ _ _ hmoved => rw [hmoved n]; exact hworked
    | «begin» _ _ _ hmoved | take _ hmoved | cancel _ hmoved => rw [hmoved n]; dsimp only; omega
    | forget m hmoved =>
      have hhit := @hit_nonneg _ _ n m
      rw [hmoved n]
      dsimp only
      omega
  · have hhandled := hsound.handled n
    cases htransfer with
    | keep hmoved | «begin» _ _ _ hmoved | cancel _ hmoved | forget _ hmoved =>
      rw [hmoved n]; exact hhandled
    | take _ hmoved | deliver _ hmoved => rw [hmoved n]; dsimp only; omega
    | lose lost hsome _ hmoved =>
      have hlost := hsome n
      rw [hmoved n]
      dsimp only
      omega

end Sound

variable {sup : SupervisionState} {id : ActorId} {n : Token}

theorem ids_initiateRestart : (sup.initiateRestart id origin).registry.ids = sup.registry.ids := by
  rcases @initiateRestart_cases sup id origin with hsame | ⟨child, n, pending, _, _, _, hbegin⟩
  · rw [hsame]
  · rw [hbegin]
    exact ids_modify fun _ => rfl

theorem ids_recordCancelled :
    (Sys.recordCancelled sup id n).registry.ids = sup.registry.ids := by
  unfold Sys.recordCancelled
  split
  · split
    · exact ids_transition
    · rfl
  · rfl

theorem ids_recordCollectedEnd :
    (Sys.recordCollectedEnd sup id n).registry.ids = sup.registry.ids := by
  unfold Sys.recordCollectedEnd settleBarrier
  dsimp only
  split <;> split <;> (try split) <;> first | rfl | exact ids_transition

theorem ids_takeSnapshot {ev : Report} :
    (sup.takeSnapshot ev).registry.ids = sup.registry.ids := by
  unfold takeSnapshot
  dsimp only
  split
  · exact ids_transition
  · rfl

/-- Ids stay distinct: a move removes some or adds one that was absent. -/
theorem Move.ids (hmove : Move rules c d) : d.sup.registry.ids.Sublist c.sup.registry.ids ∨
    ∃ id, c.sup.registry.get id = none ∧ d.sup.registry.ids = c.sup.registry.ids ++ [id] := by
  have hsame (h : d.sup.registry.ids = c.sup.registry.ids) :
      d.sup.registry.ids.Sublist c.sup.registry.ids := by rw [h]
  cases hmove with
  | plane hplane =>
    obtain ⟨_, _, _, _, _, _, rfl, _⟩ := hplane.frame.same
    exact .inl (hsame rfl)
  | group hgroup =>
    obtain ⟨_, _, _, rfl, _⟩ := hgroup.frame
    exact .inl (hsame rfl)
  | spawn id name restartType shutdown habsent => exact .inr ⟨id, habsent, List.map_append⟩
  | subtree => exact .inl (hsame ids_noteSubtree)
  | commit | crash | dismiss | close | queue | absorbSnapshot | record | absorb =>
    exact .inl (hsame ids_transition)
  | rebound => exact .inl (hsame (ids_initiateRestart.trans ids_transition))
  | restart | chainBegin | «begin» => exact .inl (hsame ids_initiateRestart)
  | prune => exact .inl ids_remove_sublist
  | cancel => exact .inl (hsame ids_recordCancelled)
  | adopt => exact .inl (hsame (ids_noteSubtree.trans ids_transition))
  | snapshot => exact .inl (hsame ids_takeSnapshot)
  | collect | discard | discardLost => exact .inl (hsame ids_recordCollectedEnd)
  | _ => exact .inl (hsame rfl)

theorem restartKeys_initiateRestart {key : ActorId × Token}
    (hkey : key ∈ (sup.initiateRestart id origin).restartKeys) :
    key ∈ sup.restartKeys ∨ key = (id, sup.nextIncarnation) ∧
      ∃ p, (sup.initiateRestart id origin).registry.life id =
        some (.restarting p sup.nextIncarnation) := by
  rcases @initiateRestart_cases sup id origin with hsame | ⟨child, n, pending, hget, _, _, hbegin⟩
  · rw [hsame] at hkey
    exact .inl hkey
  · rw [hbegin] at hkey ⊢
    change key ∈ (sup.restartSet ++ if id ∈ sup.restartFns then _ else []).map RestartTask.key
      at hkey
    rw [List.map_append, List.mem_append] at hkey
    rcases hkey with hold | hnew
    · exact .inl hold
    · right
      refine ⟨?_, n, ?_⟩
      · split at hnew
        · simpa [RestartTask.key] using hnew
        · cases hnew
      · rw [life_begin, if_pos rfl, life_of_get hget]
        rfl

theorem Move.restartKeys (hmove : Move rules c d)
    (hkey : (id, n) ∈ d.sup.restartKeys) : (id, n) ∈ c.sup.restartKeys ∨
      n = c.sup.nextIncarnation ∧ ∃ p, d.sup.registry.life id = some (.restarting p n) := by
  have hbegun (sup : SupervisionState) {other : ActorId} {origin : Origin}
      (hset : sup.restartSet = c.sup.restartSet)
      (hcounter : sup.nextIncarnation = c.sup.nextIncarnation)
      (hsup : d.sup = sup.initiateRestart other origin) : (id, n) ∈ c.sup.restartKeys ∨
        n = c.sup.nextIncarnation ∧ ∃ p, d.sup.registry.life id = some (.restarting p n) := by
    rw [hsup] at hkey ⊢
    rcases restartKeys_initiateRestart hkey with hold | ⟨hnew, hlife⟩
    · left
      unfold SupervisionState.restartKeys at hold ⊢
      rw [← hset]
      exact hold
    · obtain ⟨rfl, rfl⟩ := Prod.mk.inj hnew
      exact .inr ⟨hcounter, hlife⟩
  have herased {task : RestartTask}
      (hset : d.sup.restartSet = c.sup.restartSet.erase task) : (id, n) ∈ c.sup.restartKeys := by
    unfold SupervisionState.restartKeys at hkey ⊢
    rw [hset] at hkey
    exact List.map_subset _ (List.erase_subset) hkey
  have hsame (hset : d.sup.restartSet = c.sup.restartSet) : (id, n) ∈ c.sup.restartKeys := by
    unfold SupervisionState.restartKeys at hkey ⊢
    rw [← hset]
    exact hkey
  cases hmove with
  | plane hplane => exact .inl (hplane.frame.restarts hkey)
  | group hgroup =>
    obtain ⟨_, _, _, rfl, _⟩ := hgroup.frame
    exact .inl hkey
  | rebound id n child reason =>
    exact hbegun ((c.sup.transition id (.down n .snapshot)).keepSnapshot id n
        ⟨id, child.name, reason, .restartInitiated⟩) rfl rfl rfl
  | restart | «begin» | chainBegin => exact hbegun c.sup rfl rfl rfl
  | takeRestart | takeLost | adoptStale => exact .inl (herased rfl)
  | cancel task => exact .inl (@herased task (by rw [frame_recordCancelled]))
  | adopt task => exact .inl (@herased task rfl)
  | collect ev => exact .inl (hsame (by rw [frame_recordCollectedEnd]))
  | discard task | discardLost task => exact .inl (@herased task (by rw [frame_recordCollectedEnd]))
  | _ => exact .inl (hsame rfl)

/-- Every move keeps the books sound. -/
theorem Move.sound (hmove : Move rules c d) (hsound : Sound c) : Sound d := by
  obtain ⟨hlog, hcounter⟩ := hmove.grows
  obtain ⟨honce, hunbegun, hworked, hhandled⟩ := hsound.accounts_transfer hmove.transfer hcounter
  refine ⟨?_, ?_, honce, hunbegun, hworked, hhandled, ?_, hmove.subjects hsound.subjects, ?_⟩
  · rcases hmove.ids with hsub | ⟨id, habsent, happend⟩
    · exact hsound.nodup.sublist hsub
    · rw [happend]
      refine List.nodup_append.mpr ⟨hsound.nodup, List.nodup_singleton id, ?_⟩
      intro other hother same hsame heq
      rw [List.mem_singleton] at hsame
      subst hsame heq
      exact get_eq_none_iff.mp habsent hother
  · intro id life hlife
    cases @Move.entry rules c d id hmove with
    | same hsame =>
      rw [hsame] at hlife
      exact Nat.lt_of_lt_of_le (hsound.fresh id life hlife) hcounter
    | removed hgone => rw [hgone] at hlife; cases hlife
    | spawned _ hdrawn hentry | begun _ _ _ _ _ hdrawn hentry =>
      rw [hentry] at hlife
      cases hlife
      rw [hdrawn]
      exact Nat.lt_succ_self _
    | committed n kind before hbefore hmoves hentry =>
      rw [hentry] at hlife
      cases hlife
      have hheld : before.heldToken = n := by rcases hmoves with rfl | ⟨rfl, _⟩ <;> rfl
      have hlt := hsound.fresh id before hbefore
      rw [hheld] at hlt
      exact Nat.lt_of_lt_of_le hlt hcounter
    | adopted p n hbefore hgone hentry =>
      rw [hentry] at hlife
      cases hlife
      have hlt := hsound.fresh id _ hbefore
      exact Nat.lt_of_lt_of_le hlt hcounter
    | downed n pending before hbefore hheld hdowning hopens hentry =>
      rw [hentry] at hlife
      cases hlife
      have hlt := hsound.fresh id before hbefore
      rw [hheld] at hlt
      exact Nat.lt_of_lt_of_le hlt hcounter
  · intro key hkey
    rcases hmove.heldKeys hsound.subjects hkey with hold | hnew
    · exact hlog.subset (hsound.taken key hold)
    · exact hnew
  · intro id n hkey life hlife hheld
    have hplace : 0 < d.tasks n := Sound.tasks_pos_of_restart hkey
    rcases hmove.restartKeys hkey with hold | ⟨_, p, hentry⟩
    · have htask := Sound.tasks_pos_of_restart hold
      have hdrawn := hsound.lt_of_tasks htask
      have hbefore := hsound.restarting id n hold
      cases @Move.entry rules c d id hmove with
      | same hsame =>
        rw [hsame] at hlife
        exact hbefore life hlife hheld
      | removed hgone => rw [hgone] at hlife; cases hlife
      | spawned habsent hnext hentry =>
        rw [hentry] at hlife
        cases hlife
        have heq : c.sup.nextIncarnation = n := hheld
        rw [heq] at hdrawn
        exact absurd hdrawn (Nat.lt_irrefl n)
      | committed m kind before hentry hmoves hafter =>
        rw [hafter] at hlife
        cases hlife
        have hm : m = n := hheld
        subst hm
        obtain ⟨p, hp⟩ := hbefore before hentry (by rcases hmoves with rfl | ⟨rfl, _⟩ <;> rfl)
        rcases hmoves with rfl | ⟨rfl, _⟩ <;> cases hp
      | adopted p m hentry hgone hafter =>
        rw [hafter] at hlife
        cases hlife
        have hm : m = n := hheld
        subst hm
        exfalso
        have htwice : 2 ≤ c.tasks m := by
          have hcount := (hgone.map Prod.snd).count_eq m
          have hpos : 0 < (d.sup.restartKeys.map Prod.snd).count m :=
            List.count_pos_iff.mpr (List.mem_map_of_mem (f := Prod.snd) hkey)
          have hdeath : 0 ≤ tally m (c.sup.deathKeys.map Prod.snd) := tally_nonneg
          unfold Config.tasks
          rw [List.map_append, tally_append]
          have hrestart : tally m (c.sup.restartKeys.map Prod.snd) =
              ((d.sup.restartKeys.map Prod.snd).count m : ℤ) + 1 := by
            unfold tally
            rw [hcount]
            simp
          omega
        have hone := hsound.tasks_le_one m
        omega
      | downed m pending before hentry hsame hdowning hopens hafter =>
        rw [hafter] at hlife
        cases hlife
        have hm : m = n := hheld
        subst hm
        obtain ⟨p, hp⟩ := hbefore before hentry hsame
        exfalso
        cases hdowning with
        | settled hattempt => exact hattempt p hp
        | reported hreport =>
          have hnone := hsound.tasks_of_held hreport
          omega
        | drained =>
          have hone := hsound.tasks_le_one m
          omega
      | begun m before hentry hsame hsettled hnext hafter =>
        rw [hafter] at hlife
        cases hlife
        have heq : c.sup.nextIncarnation = n := hheld
        rw [heq] at hdrawn
        exact absurd hdrawn (Nat.lt_irrefl n)
    · rw [hentry] at hlife
      cases hlife
      exact ⟨p, rfl⟩

theorem Moves.sound (hmoves : Moves rules c d) (hsound : Sound c) : Sound d := by
  induction hmoves with
  | refl => exact hsound
  | tail _ hmove ih => exact hmove.sound ih

end TokioActors
