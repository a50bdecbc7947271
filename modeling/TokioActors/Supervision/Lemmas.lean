/-
# What the operations change

The small facts about registry access, ledger moves and the beginning of an
attempt that the invariants are built from. An operation acts under one id and
leaves every other id alone.
-/

import TokioActors.Supervision.Machine

namespace TokioActors

variable {life : ChildLifecycle} {n : Token}

/-- An entry goes down on the incarnation it holds, and on no other one. -/
theorem isLegal_down_iff {pending : DownPending} :
    isLegal life (.down n pending) = true ↔ life.heldToken = n := by
  cases life <;> simp [isLegal]

theorem isLegal_running_iff :
    isLegal life (.running n) = true ↔ ∃ p, life = .restarting p n := by
  cases life <;> simp [isLegal]

theorem ChildLifecycle.occupant_eq_heldToken
    (hoccupant : life.occupant = some n) : life.heldToken = n := by
  cases life <;> simp_all

theorem ChildLifecycle.isDown_iff :
    life.isDown = true ↔ ∃ n pending, life = .down n pending := by
  cases life <;> simp

/-- The end of an incarnation is still to be handled only while its entry holds it. -/
theorem heldToken_of_open (hopen : reportClass life n ≠ .stale) : life.heldToken = n := by
  rw [Ne, reportClass_eq_stale_iff, not_and_or, not_not, not_not] at hopen
  rcases hopen with hoccupant | hdown
  · exact ChildLifecycle.occupant_eq_heldToken hoccupant
  · rw [hdown]
    rfl

namespace Registry

variable {registry : Registry} {id other : ActorId} {child : Child} {life : ChildLifecycle}
variable {target : ChildLifecycle}

theorem life_of_get (hget : registry.get id = some child) :
    registry.life id = some child.lifecycle := by
  rw [Registry.life, hget, Option.map_some]

theorem exists_get_of_life (hlife : registry.life id = some life) :
    ∃ child, registry.get id = some child ∧ child.lifecycle = life := by
  rw [Registry.life, Option.map_eq_some_iff] at hlife
  exact hlife

theorem life_eq_none_iff : registry.life id = none ↔ registry.get id = none := by
  rw [Registry.life, Option.map_eq_none_iff]

theorem get_eq_none_iff : registry.get id = none ↔ id ∉ registry.ids := Keyed.find_eq_none_iff

theorem mem_ids_of_get (hget : registry.get id = some child) : id ∈ registry.ids := by
  by_contra hmem
  rw [get_eq_none_iff.mpr hmem] at hget
  cases hget

theorem mem_ids_of_life (hlife : registry.life id = some life) : id ∈ registry.ids := by
  obtain ⟨child, hget, _⟩ := exists_get_of_life hlife
  exact mem_ids_of_get hget

theorem id_of_get (hget : registry.get id = some child) : child.id = id := Keyed.key_of_find hget

theorem get_of_mem (hnodup : registry.ids.Nodup) (hmem : child ∈ registry) :
    registry.get child.id = some child := Keyed.find_of_mem hnodup hmem

/-! ## Changes in place -/

theorem get_modify {f : Child → Child} (hid : ∀ child, (f child).id = child.id) :
    (registry.modify id f).get other =
      if other = id then (registry.get id).map f else registry.get other :=
  Keyed.find_update hid

theorem ids_modify {f : Child → Child} (hid : ∀ child, (f child).id = child.id) :
    (registry.modify id f).ids = registry.ids := Keyed.keys_update hid

def moved (target life : ChildLifecycle) : ChildLifecycle :=
  if isLegal life target then target else life

theorem get_transition :
    (registry.transition id target).get other =
      if other = id then (registry.get id).map fun child =>
          { child with lifecycle := moved target child.lifecycle } else registry.get other := by
  rw [transition, get_modify (by intro child; split <;> rfl)]
  congr 1
  cases registry.get id with
  | none => rfl
  | some =>
    simp only [Option.map_some, moved]
    split <;> rfl

theorem life_transition :
    (registry.transition id target).life other =
      if other = id then (registry.life id).map (moved target) else registry.life other := by
  rw [life, get_transition]
  split
  · rw [life, Option.map_map, Option.map_map]
    rfl
  · rfl

@[simp] theorem ids_transition :
    (registry.transition id target).ids = registry.ids :=
  ids_modify (by intro child; split <;> rfl)

@[simp] theorem life_noteSubtree {slots : Token → Slot} :
    (registry.noteSubtree slots id).life other = registry.life other := by
  rw [life, noteSubtree, get_modify (by intro child; split <;> rfl)]
  split
  · subst other
    rw [life, Option.map_map]
    congr 1
    funext child
    simp only [Function.comp_apply]
    split <;> rfl
  · rfl

@[simp] theorem ids_noteSubtree {slots : Token → Slot} :
    (registry.noteSubtree slots id).ids = registry.ids :=
  ids_modify (by intro child; split <;> rfl)

theorem get_remove : (registry.remove id).get other =
    if other = id then none else registry.get other := Keyed.find_remove

theorem life_remove : (registry.remove id).life other =
    if other = id then none else registry.life other := by
  rw [life, get_remove]
  split <;> rfl

theorem ids_remove_sublist : (registry.remove id).ids.Sublist registry.ids :=
  Keyed.keys_remove_sublist

theorem ids_remove : (registry.remove id).ids = registry.ids.filter (· != id) :=
  Keyed.keys_remove

theorem get_append : Registry.get (registry ++ [child]) id =
    (registry.get id).or (if child.id = id then some child else none) := Keyed.find_append

theorem remove_transition :
    (registry.transition id target).remove id = registry.remove id := by
  unfold Registry.remove Registry.transition Registry.modify Keyed.remove Keyed.update
  rw [List.filter_map]
  have hkeep : (registry.filter ((fun child : Child => child.id != id) ∘ fun child =>
      if child.id = id then
        (if isLegal child.lifecycle target then { child with lifecycle := target } else child)
      else child)) = registry.filter fun child => child.id != id := by
    apply List.filter_congr
    intro child _
    simp only [Function.comp_apply]
    split
    · split <;> rfl
    · rfl
  rw [hkeep]
  have hsame : ∀ child ∈ registry.filter fun child => child.id != id,
      (if child.id = id then
        (if isLegal child.lifecycle target then { child with lifecycle := target } else child)
      else child) = child := by
    intro child hchild
    have hne : child.id ≠ id := by simpa using (List.mem_filter.mp hchild).2
    rw [if_neg hne]
  rw [List.map_congr_left hsame, List.map_id']

end Registry

namespace SupervisionState

variable {sup : SupervisionState} {id other : ActorId} {seq : Token} {origin : Origin}
variable {n : Token} {pending : DownPending}

/-- An attempt is begun from a down entry, on a later token, or nothing happens. -/
theorem initiate_cases :
    sup.initiate id seq origin = sup ∨
      ∃ child n pending, sup.registry.get id = some child ∧ child.lifecycle = .down n pending ∧
        n < seq ∧
        sup.initiate id seq origin = sup.begin id child.predecessor n pending seq origin := by
  unfold initiate
  cases hget : sup.registry.get id with
  | none => exact .inl rfl
  | some child =>
    cases hlife : child.lifecycle with
    | down n pending =>
      by_cases hlegal : isLegal (.down n pending) (.restarting n seq) = true
      · right
        have hlt : n < seq := by simpa [isLegal] using hlegal
        refine ⟨child, n, pending, rfl, hlife, hlt, ?_⟩
        simp only [hlife, hlegal, if_true]
      · left
        simp only [hlife, if_neg hlegal]
    | running | stopping | restarting => left; simp only [hlife]

theorem initiateRestart_cases :
    sup.initiateRestart id origin = { sup with nextIncarnation := sup.nextIncarnation + 1 } ∨
      ∃ child n pending, sup.registry.get id = some child ∧ child.lifecycle = .down n pending ∧
        n < sup.nextIncarnation ∧ sup.initiateRestart id origin =
          { sup with nextIncarnation := sup.nextIncarnation + 1 }.begin id child.predecessor n
            pending
            sup.nextIncarnation origin :=
  initiate_cases

theorem get_begin {predecessor : Option Token} :
    (sup.begin id predecessor n pending seq origin).registry.get other =
      if other = id then (sup.registry.get id).map fun child =>
          { child with lifecycle := .restarting n seq, origin := origin }
      else sup.registry.get other :=
  Registry.get_modify fun _ => rfl

theorem life_begin {predecessor : Option Token} :
    (sup.begin id predecessor n pending seq origin).registry.life other =
      if other = id then (sup.registry.life id).map fun _ => .restarting n seq
        else sup.registry.life other := by
  rw [Registry.life, get_begin]
  split
  · rw [Registry.life, Option.map_map, Option.map_map]
    rfl
  · rfl

theorem removeSpec_transition {target : ChildLifecycle} :
    (sup.transition id target).removeSpec id = sup.removeSpec id := by
  have hretire : (sup.transition id target).retire id = sup.retire id := by
    unfold retire transition
    dsimp only
    rw [Registry.get_transition, if_pos rfl]
    cases sup.registry.get id <;> rfl
  unfold removeSpec
  rw [hretire]
  unfold transition
  dsimp only
  rw [Registry.remove_transition]

theorem initiateRestart_eq {child : Child}
    (hget : sup.registry.get id = some child) (hdown : child.lifecycle = .down n pending)
    (hfresh : n < sup.nextIncarnation) :
    sup.initiateRestart id origin =
      { sup with nextIncarnation := sup.nextIncarnation + 1 }.begin id child.predecessor n pending
        sup.nextIncarnation origin := by
  unfold initiateRestart initiate
  dsimp only
  rw [hget]
  have hlegal : isLegal (.down n pending) (.restarting n sup.nextIncarnation) = true := by
    simpa [isLegal] using hfresh
  simp only [hdown, hlegal, if_true]

end SupervisionState

open SupervisionState in
theorem life_initiateRestart {sup : SupervisionState} {id : ActorId} {n : Token}
    {pending : DownPending} {origin : Origin}
    (hlife : sup.registry.life id = some (.down n pending)) (hfresh : n < sup.nextIncarnation) :
    (sup.initiateRestart id origin).registry.life id =
      some (.restarting n sup.nextIncarnation) := by
  obtain ⟨child, hget, hdown⟩ := Registry.exists_get_of_life hlife
  rw [initiateRestart_eq hget hdown hfresh, life_begin, if_pos rfl]
  dsimp only
  rw [hlife]
  rfl

theorem life_transition_down {registry : Registry} {id : ActorId} {life : ChildLifecycle}
    {n : Token} {pending : DownPending} (hlife : registry.life id = some life)
    (hheld : life.heldToken = n) :
    (registry.transition id (.down n pending)).life id = some (.down n pending) := by
  rw [Registry.life_transition, if_pos rfl, hlife, Option.map_some, Registry.moved,
    if_pos (isLegal_down_iff.mpr hheld)]

end TokioActors
