/-
# The members of a plan

What a commit says about the registry it was made from: one member per child, in
start order, from the failed child on under `RestForOne`.
-/

import Mathlib.Data.List.TakeWhile
import TokioActors.Supervision.Lemmas

namespace TokioActors

variable {failed id : ActorId} {ids : List ActorId} {strategy : RestartStrategy}
  {commit : List Committed}

/-- The ids a failure commits, in start order. -/
def commitIds (strategy : RestartStrategy) (ids : List ActorId) (failed : ActorId) :
    List ActorId :=
  if strategy = .restForOne ∧ failed ∈ ids then ids.dropWhile fun id => id != failed else ids

theorem drop_findIdx :
    ids.drop ((ids.findIdx? fun id => id == failed).getD 0) =
      if failed ∈ ids then ids.dropWhile (fun id => id != failed) else ids := by
  induction ids with
  | nil => rfl
  | cons id ids ih =>
    by_cases hid : id = failed
    · subst hid
      rw [List.findIdx?_cons, if_pos (by simp), if_pos List.mem_cons_self,
        List.dropWhile_cons_of_neg (by simp)]
      rfl
    · have hdrop : (id :: ids).dropWhile (fun id => id != failed) =
          ids.dropWhile (fun id => id != failed) := by
        rw [List.dropWhile_cons_of_pos (by simpa using hid)]
      rw [List.findIdx?_cons, if_neg (by simpa using hid), hdrop]
      by_cases hmem : failed ∈ ids
      · have hsome : ∃ i, ids.findIdx? (fun id => id == failed) = some i := by
          rw [← Option.isSome_iff_exists, List.findIdx?_isSome, List.any_eq_true]
          exact ⟨failed, hmem, by simp⟩
        obtain ⟨i, hi⟩ := hsome
        rw [if_pos (List.mem_cons_of_mem _ hmem)]
        rw [hi, if_pos hmem] at ih
        simpa [hi] using ih
      · have hnone : ids.findIdx? (fun id => id == failed) = none := by
          rw [List.findIdx?_eq_none_iff]
          intro other hother
          have hne : other ≠ failed := fun heq => hmem (heq ▸ hother)
          simpa using hne
        have hcons : failed ∉ id :: ids := by
          simp [hmem, Ne.symm hid]
        rw [hnone, if_neg hcons]
        rfl

theorem takeWhile_filter {keep : ActorId → Bool} (hkeep : keep failed = true) :
    (ids.filter keep).takeWhile (fun other => other != failed) =
      (ids.takeWhile fun other => other != failed).filter keep := by
  induction ids with
  | nil => rfl
  | cons first ids ih =>
    by_cases hfirst : first = failed
    · subst hfirst
      rw [List.filter_cons_of_pos hkeep, List.takeWhile_cons_of_neg (by simp),
        List.takeWhile_cons_of_neg (by simp)]
      rfl
    · rw [@List.takeWhile_cons_of_pos _ _ first ids (by simpa using hfirst)]
      by_cases hkeepfirst : keep first = true
      · rw [List.filter_cons_of_pos hkeepfirst,
          List.takeWhile_cons_of_pos (by simpa using hfirst), ih,
          List.filter_cons_of_pos hkeepfirst]
      · rw [List.filter_cons_of_neg hkeepfirst, ih, List.filter_cons_of_neg hkeepfirst]

theorem not_mem_takeWhile_of_mem_dropWhile
    (hnodup : ids.Nodup) (hmem : id ∈ ids.dropWhile fun other => other != failed) :
    id ∉ ids.takeWhile fun other => other != failed := by
  intro htake
  have hsplit := List.takeWhile_append_dropWhile (p := fun other => other != failed) (l := ids)
  rw [← hsplit, List.nodup_append] at hnodup
  exact hnodup.2.2 id htake id hmem rfl

theorem mem_dropWhile_of_not_mem_takeWhile
    (hmem : id ∈ ids) (htake : id ∉ ids.takeWhile fun other => other != failed) :
    id ∈ ids.dropWhile fun other => other != failed := by
  have hsplit := List.takeWhile_append_dropWhile (p := fun other => other != failed) (l := ids)
  rw [← hsplit, List.mem_append] at hmem
  exact hmem.resolve_left htake

theorem commitIds_sublist : (commitIds strategy ids failed).Sublist ids := by
  unfold commitIds
  split
  · exact List.dropWhile_sublist _
  · exact List.Sublist.refl ids

/-- The first plan covers what is not outside of it. -/
theorem mem_commitIds_iff (hnodup : ids.Nodup) (hfailed : failed ∈ ids) :
    id ∈ commitIds strategy ids failed ↔ id ∈ ids ∧
      (strategy = .restForOne → id ∉ ids.takeWhile fun other => other != failed) := by
  unfold commitIds
  by_cases hstrategy : strategy = .restForOne
  · rw [if_pos ⟨hstrategy, hfailed⟩]
    constructor
    · intro hmem
      exact ⟨(List.dropWhile_sublist _).subset hmem,
        fun _ => not_mem_takeWhile_of_mem_dropWhile hnodup hmem⟩
    · rintro ⟨hmem, hlater⟩
      exact mem_dropWhile_of_not_mem_takeWhile hmem (hlater hstrategy)
  · rw [if_neg (by simp [hstrategy])]
    simp [hstrategy]

namespace SupervisionState

variable {sup : SupervisionState} {failed id : ActorId} {member : Committed}

theorem groupCommit_ids :
    (groupCommit strategy sup.groupMembers failed).map Committed.id =
      commitIds strategy sup.registry.ids failed := by
  have hids : sup.groupMembers.map (fun child => (commitMember failed child).id) =
      sup.registry.ids := by
    rw [groupMembers, List.map_map]
    rfl
  have hfind : (sup.groupMembers.findIdx? fun child => child.id == failed) =
      sup.registry.ids.findIdx? fun id => id == failed := by
    rw [groupMembers, Registry.ids, List.findIdx?_map, List.findIdx?_map]
    rfl
  unfold groupCommit commitIds
  dsimp only
  rw [List.map_map, List.map_drop]
  have hcomp : Committed.id ∘ commitMember failed =
      fun child => (commitMember failed child).id := rfl
  rw [hcomp, hids]
  cases strategy with
  | restForOne =>
    dsimp only
    rw [hfind, drop_findIdx]
    simp
  | oneForOne | oneForAll | simpleOneForOne => simp

theorem groupCommit_member (hnodup : sup.registry.ids.Nodup)
    (hmem : member ∈ groupCommit strategy sup.groupMembers failed) :
    ∃ child, sup.registry.get member.id = some child ∧
      member = commitMember failed child.groupMember := by
  unfold groupCommit at hmem
  dsimp only at hmem
  obtain ⟨entry, hentry, rfl⟩ := List.mem_map.mp hmem
  have hentry' := List.mem_of_mem_drop hentry
  rw [groupMembers] at hentry'
  obtain ⟨child, hchild, rfl⟩ := List.mem_map.mp hentry'
  exact ⟨child, Registry.get_of_mem hnodup hchild, rfl⟩

/-- The ids a retry leaves down. -/
def releasedIds (sup : SupervisionState) : List ActorId :=
  match sup.pendingGroup with
  | some phase => sup.namedOverrides phase.overrides
  | none => []

theorem mem_releasedIds_iff : id ∈ sup.releasedIds ↔ ∃ phase child,
    sup.pendingGroup = some phase ∧ sup.registry.get id = some child ∧
      phase.overrides.lookup id = some child.lifecycle.heldToken := by
  unfold releasedIds
  cases hpending : sup.pendingGroup with
  | none => simp
  | some phase =>
    dsimp only [namedOverrides]
    rw [List.mem_filter]
    constructor
    · rintro ⟨hmem, hnamed⟩
      cases hover : phase.overrides.lookup id with
      | none => simp [hover] at hnamed
      | some token =>
        cases hget : sup.registry.get id with
        | none => exact absurd hmem (Registry.get_eq_none_iff.mp hget)
        | some child =>
          rw [hover, Registry.life_of_get hget] at hnamed
          have htoken : child.lifecycle.heldToken = token := by simpa using hnamed
          exact ⟨phase, child, rfl, rfl, by rw [hover, htoken]⟩
    · rintro ⟨other, child, hother, hget, hover⟩
      cases hother
      refine ⟨Registry.mem_ids_of_get hget, ?_⟩
      rw [hover, Registry.life_of_get hget]
      simp

theorem planRetry_commit : (sup.planRetry failed).commit =
    (groupCommit sup.strategy sup.groupMembers failed).map fun member =>
      if member.id ∈ sup.releasedIds then
        { member with action := { member.action with restarts := false } }
      else member := rfl

theorem planRetry_ids : (sup.planRetry failed).commit.map Committed.id =
    commitIds sup.strategy sup.registry.ids failed := by
  rw [← groupCommit_ids, planRetry_commit, List.map_map]
  apply List.map_congr_left
  intro member _
  simp only [Function.comp_apply]
  split <;> rfl

/-- A member of a retry's commit is a child of the registry, restarted unless it
is temporary or was released. -/
theorem planRetry_member (hnodup : sup.registry.ids.Nodup)
    (hmem : member ∈ (sup.planRetry failed).commit) :
    ∃ child, sup.registry.get member.id = some child ∧
      member.token = child.lifecycle.heldToken ∧
      member.action.held = (member.id != failed && !child.lifecycle.isDown) ∧
      (member.action.restarts = true ↔
        child.restartType ≠ .temporary ∧ member.id ∉ sup.releasedIds) := by
  rw [planRetry_commit] at hmem
  obtain ⟨first, hfirst, rfl⟩ := List.mem_map.mp hmem
  obtain ⟨child, hget, hmember⟩ := groupCommit_member hnodup hfirst
  have hid : child.id = first.id := Registry.id_of_get hget
  have htoken : first.token = child.lifecycle.heldToken := by
    rw [hmember, commitMember]
    exact commitToken_eq_heldToken _
  have hheld : first.action.held = (first.id != failed && !child.lifecycle.isDown) := by
    rw [hmember]
    rfl
  have hrestarts : first.action.restarts = true ↔ child.restartType ≠ .temporary := by
    rw [hmember, commitMember]
    simp [Child.groupMember]
  split
  next hreleased =>
    refine ⟨child, hget, htoken, hheld, ?_⟩
    simp [hreleased]
  next hkept =>
    refine ⟨child, hget, htoken, hheld, ?_⟩
    rw [hrestarts]
    simp [hkept]

theorem planRetry_restartOrder :
    (sup.planRetry failed).restartOrder = restartIds (sup.planRetry failed).commit := rfl

end SupervisionState

theorem restartIds_sublist : (restartIds commit).Sublist (commit.map Committed.id) :=
  List.Sublist.map _ List.filter_sublist

theorem mem_restartIds_iff :
    id ∈ restartIds commit ↔ ∃ member ∈ commit, member.action.restarts = true ∧ member.id = id := by
  simp only [restartIds, List.mem_map, List.mem_filter, and_assoc]

end TokioActors
