/-
# The members of a pending group

How a pending group restart stands to each child of the registry. A member it is
going to restart is registered and not temporary; the barrier waits for exactly
the incarnation the child holds, or the child is at rest, or the chain has started
it. A child that a `terminate_child` released is held down on the incarnation that
was released, and is no member any more. What the group says about one child is
read off the group and the child's own entry, so a move is checked at the child it
touches and framed everywhere else.
-/

import TokioActors.Supervision.Snapshots
import TokioActors.Supervision.Specs

namespace TokioActors

open SupervisionState GroupPhase Registry Finmap

/-! ## Entries -/

namespace Registry

variable {registry : Registry} {id other : ActorId}
variable {life target : ChildLifecycle} {type : RestartType}

def entry (registry : Registry) (id : ActorId) : Option (RestartType × ChildLifecycle) :=
  (registry.get id).map fun child => (child.restartType, child.lifecycle)

theorem entry_of_get {child : Child} (hget : registry.get id = some child) :
    registry.entry id = some (child.restartType, child.lifecycle) := by
  rw [entry, hget]
  rfl

theorem life_eq_entry : registry.life id = (registry.entry id).map Prod.snd := by
  rw [entry, life, Option.map_map]
  rfl

theorem exists_entry_of_life (hlife : registry.life id = some life) :
    ∃ type, registry.entry id = some (type, life) := by
  obtain ⟨child, hget, rfl⟩ := exists_get_of_life hlife
  exact ⟨child.restartType, entry_of_get hget⟩

theorem exists_get_of_entry (hentry : registry.entry id = some (type, life)) :
    ∃ child, registry.get id = some child ∧ child.restartType = type ∧ child.lifecycle = life := by
  obtain ⟨child, hget, hsame⟩ := Option.map_eq_some_iff.mp hentry
  cases hsame
  exact ⟨child, hget, rfl, rfl⟩

theorem life_of_entry
    (hentry : registry.entry id = some (type, life)) : registry.life id = some life := by
  rw [life_eq_entry, hentry]
  rfl

theorem entry_eq_none_iff : registry.entry id = none ↔ registry.get id = none := by
  rw [entry, Option.map_eq_none_iff]

theorem mem_ids_of_entry (hsome : (registry.entry id).isSome = true) : id ∈ registry.ids := by
  by_contra habsent
  rw [entry_eq_none_iff.mpr (get_eq_none_iff.mpr habsent)] at hsome
  cases hsome

theorem entry_transition : (registry.transition id target).entry other =
      if other = id then (registry.entry id).map fun e => (e.1, moved target e.2)
      else registry.entry other := by
  rw [entry, get_transition]
  split
  · rw [entry, Option.map_map, Option.map_map]
    rfl
  · rfl

theorem entry_transition_ne (hne : other ≠ id) :
    (registry.transition id target).entry other = registry.entry other := by
  rw [entry_transition, if_neg hne]

/-- The ledger moves an entry where the table allows it. -/
theorem entry_transition_self
    (hentry : registry.entry id = some (type, life)) (hlegal : isLegal life target = true) :
    (registry.transition id target).entry id = some (type, target) := by
  rw [entry_transition, if_pos rfl, hentry]
  simp [moved, hlegal]

@[simp] theorem entry_noteSubtree {slots : Token → Slot} :
    (registry.noteSubtree slots id).entry other = registry.entry other := by
  rw [entry, noteSubtree, get_modify (by intro child; split <;> rfl)]
  split
  · subst other
    rw [entry, Option.map_map]
    congr 1
    funext child
    simp only [Function.comp_apply]
    split <;> rfl
  · rfl

theorem entry_remove : (registry.remove id).entry other =
    if other = id then none else registry.entry other := by
  rw [entry, get_remove]
  split <;> rfl

theorem entry_append {child : Child} (habsent : registry.get child.id = none) :
    entry (registry ++ [child]) other =
      if other = child.id then some (child.restartType, child.lifecycle)
      else registry.entry other := by
  rw [entry, get_append]
  split
  next heq =>
    subst heq
    rw [habsent, if_pos rfl]
    rfl
  next hne =>
    rw [if_neg (Ne.symm hne), Option.or_none]
    rfl

end Registry

/-! ## How a group stands to a child -/

namespace GroupPhase

/-- The incarnations the chain started. -/
def started : GroupPhase → TokenMap
  | stopping _ => ∅
  | restarting chain => chain.started

section Reads

variable {phase : GroupPhase} {id : ActorId} {n : Token}

@[simp] theorem order_recordOverride : (phase.recordOverride id n).order = phase.order := by
  cases phase <;> rfl

@[simp] theorem overrides_recordOverride :
    (phase.recordOverride id n).overrides = phase.overrides.insert id n := by
  cases phase <;> rfl

@[simp] theorem awaiting_recordOverride :
    (phase.recordOverride id n).awaiting = phase.awaiting := by
  cases phase <;> rfl

@[simp] theorem started_recordOverride : (phase.recordOverride id n).started = phase.started := by
  cases phase <;> rfl

@[simp] theorem scope_recordOverride : (phase.recordOverride id n).scope = phase.scope := by
  cases phase <;> rfl

@[simp] theorem order_leaveRestartSet :
    (phase.leaveRestartSet id).order = phase.order.filter fun other => other != id := by
  cases phase <;> rfl

@[simp] theorem overrides_leaveRestartSet :
    (phase.leaveRestartSet id).overrides = phase.overrides := by
  cases phase <;> rfl

@[simp] theorem awaiting_leaveRestartSet :
    (phase.leaveRestartSet id).awaiting = phase.awaiting := by
  cases phase <;> rfl

@[simp] theorem started_leaveRestartSet : (phase.leaveRestartSet id).started = phase.started := by
  cases phase <;> rfl

@[simp] theorem scope_leaveRestartSet : (phase.leaveRestartSet id).scope = phase.scope := by
  cases phase <;> rfl

@[simp] theorem order_removeSpec :
    (phase.removeSpec id).order = phase.order.filter fun other => other != id := by
  cases phase <;> rfl

@[simp] theorem overrides_removeSpec :
    (phase.removeSpec id).overrides = phase.overrides.erase id := by
  cases phase <;> rfl

@[simp] theorem awaiting_removeSpec : (phase.removeSpec id).awaiting = phase.awaiting := by
  cases phase <;> rfl

@[simp] theorem started_removeSpec : (phase.removeSpec id).started = phase.started.erase id := by
  cases phase with
  | stopping =>
    change (∅ : TokenMap) = (∅ : TokenMap).erase id
    refine ext_lookup fun other => ?_
    by_cases heq : other = id
    · rw [heq, lookup_erase, lookup_empty]
    · rw [lookup_erase_ne heq]
  | restarting => rfl

@[simp] theorem scope_removeSpec : (phase.removeSpec id).scope =
    ⟨phase.scope.restarted.erase id, phase.scope.outside.erase id⟩ := by
  cases phase <;> rfl

theorem head_filter_ne {order : List ActorId} {gone : ActorId} (hne : id ≠ gone)
    (hhead : order.head? = some id) :
    (order.filter fun other => other != gone).head? = some id := by
  cases order with
  | nil => cases hhead
  | cons =>
    cases hhead
    rw [List.filter_cons_of_pos (by simpa using hne)]
    rfl

theorem mem_filter_ne_iff {order : List ActorId} {gone : ActorId} (hne : id ≠ gone) :
    id ∈ (order.filter fun other => other != gone) ↔ id ∈ order := by
  simp [hne]

end Reads

/-- The child is at the front of the chain, on the incarnation it was started on. -/
def Started (phase : GroupPhase) (id : ActorId) (life : ChildLifecycle) : Prop :=
  phase.order.head? = some id ∧ phase.started.lookup id = some life.heldToken ∧
    (life = .running life.heldToken ∨ ∃ p, life = .restarting p life.heldToken)

/-- The group waits for the incarnation the member holds, or the member is at
rest, or the chain started it. -/
def Holds (phase : GroupPhase) (id : ActorId) (life : ChildLifecycle) : Prop :=
  phase.awaiting.lookup id = some life.heldToken ∨
    phase.awaiting.lookup id = none ∧ life.AtRest ∨ phase.Started id life

/-- The child is in one of the sets the group remembers its progress in. -/
def Names (phase : GroupPhase) (id : ActorId) : Prop :=
  (phase.started.lookup id).isSome = true ∨ id ∈ phase.scope.restarted ∨ id ∈ phase.scope.outside

theorem Started.unawaited {phase : GroupPhase} {id : ActorId} {life : ChildLifecycle}
    (hstarted : phase.Started id life) : phase.awaiting.lookup id = none := by
  cases phase with
  | stopping =>
    have hnone := hstarted.2.1
    rw [started, lookup_empty] at hnone
    cases hnone
  | restarting => exact lookup_empty id

end GroupPhase

/-- The group and the child's entry fit together. -/
structure Fits (bound : Token) (phase : GroupPhase) (id : ActorId)
    (entry : Option (RestartType × ChildLifecycle)) : Prop where
  listed : id ∈ phase.order → ∃ type life, entry = some (type, life) ∧ type ≠ .temporary ∧
    phase.Holds id life
  released : ∀ n, phase.overrides.lookup id = some n → id ∉ phase.order ∧
    ∃ type life, entry = some (type, life) ∧ life.KeptDown n (phase.awaiting.lookup id)
  awaited : ∀ type life, entry = some (type, life) →
    phase.awaiting.lookup id = some life.heldToken → type ≠ .temporary →
      id ∈ phase.order ∨ phase.overrides.lookup id = some life.heldToken
  named : phase.Names id → entry.isSome = true
  drawn : ∀ n, phase.awaiting.lookup id = some n → n < bound

namespace Fits

variable {bound larger : Token} {phase next : GroupPhase} {id : ActorId} {type : RestartType}
  {life after : ChildLifecycle} {entry : Option (RestartType × ChildLifecycle)}

/-- A group that says the same about the child fits as well. -/
theorem congr (hfits : Fits bound phase id entry) (hbound : bound ≤ larger)
    (horder : id ∈ next.order ↔ id ∈ phase.order)
    (hfront : phase.order.head? = some id → next.order.head? = some id)
    (hoverrides : next.overrides.lookup id = phase.overrides.lookup id)
    (hawaiting : next.awaiting.lookup id = phase.awaiting.lookup id)
    (hstarted : next.started.lookup id = phase.started.lookup id)
    (hnames : next.Names id → phase.Names id) : Fits larger next id entry where
  listed := by
    intro hmem
    obtain ⟨type, life, hentry, htype, hholds⟩ := hfits.listed (horder.mp hmem)
    refine ⟨type, life, hentry, htype, ?_⟩
    unfold Holds Started
    rw [hawaiting, hstarted]
    rcases hholds with hawaited | hrests | ⟨hhead, hown⟩
    · exact .inl hawaited
    · exact .inr (.inl hrests)
    · exact .inr (.inr ⟨hfront hhead, hown⟩)
  released := by
    rw [hoverrides, hawaiting, horder]
    exact hfits.released
  awaited := by
    rw [hoverrides, hawaiting, horder]
    exact hfits.awaited
  named := fun h => hfits.named (hnames h)
  drawn := by
    rw [hawaiting]
    exact fun n hn => Nat.lt_of_lt_of_le (hfits.drawn n hn) hbound

theorem mono (hfits : Fits bound phase id entry) (hbound : bound ≤ larger) :
    Fits larger phase id entry :=
  hfits.congr hbound Iff.rfl (fun h => h) rfl rfl rfl fun h => h

section

variable (hfits : Fits bound phase id (some (type, life)))

include hfits

/-- A released child is on the incarnation that was released. -/
theorem held_of_released {n : Token} (hover : phase.overrides.lookup id = some n) :
    life.KeptDown n (phase.awaiting.lookup id) := by
  obtain ⟨_, other, same, hsame, hkept⟩ := hfits.released n hover
  cases hsame
  exact hkept

theorem holds_of_listed (hlisted : id ∈ phase.order) : type ≠ .temporary ∧ phase.Holds id life := by
  obtain ⟨other, same, hsame, htype, hholds⟩ := hfits.listed hlisted
  cases hsame
  exact ⟨htype, hholds⟩

/-- The entry moves on the incarnation it holds. -/
theorem turn (hheld : after.heldToken = life.heldToken)
    (hholds : id ∈ phase.order → phase.Holds id life → phase.Holds id after)
    (hkept : phase.overrides.lookup id = some life.heldToken →
      life.KeptDown life.heldToken (phase.awaiting.lookup id) →
        after.KeptDown life.heldToken (phase.awaiting.lookup id)) :
    Fits bound phase id (some (type, after)) where
  listed := by
    intro hmem
    obtain ⟨htype, hbefore⟩ := hfits.holds_of_listed hmem
    exact ⟨type, after, rfl, htype, hholds hmem hbefore⟩
  released := by
    intro n hover
    have hbefore := hfits.held_of_released hover
    have hn : n = life.heldToken := hbefore.1.symm
    subst hn
    exact ⟨(hfits.released _ hover).1, type, after, rfl, hkept hover hbefore⟩
  awaited := by
    intro other same hsame
    cases hsame
    rw [hheld]
    exact hfits.awaited type life rfl
  named := fun _ => rfl
  drawn := hfits.drawn

theorem rest (hheld : after.heldToken = life.heldToken) (hrests : after.AtRest) :
    Fits bound phase id (some (type, after)) := by
  refine hfits.turn hheld (fun _ hholds => ?_) fun _ _ => ⟨hheld, .inr (.inl hrests)⟩
  rcases hholds with hawaited | ⟨hnone, _⟩ | hstarted
  · exact .inl (hawaited.trans (congrArg some hheld.symm))
  · exact .inr (.inl ⟨hnone, hrests⟩)
  · exact .inr (.inl ⟨hstarted.unawaited, hrests⟩)

theorem begun {p seq : Token}
    (hbound : bound ≤ larger) (hseq : bound ≤ seq) (hunlisted : id ∉ phase.order)
    (hunkept : phase.overrides.lookup id = none) :
    Fits larger phase id (some (type, .restarting p seq)) where
  listed := fun hmem => absurd hmem hunlisted
  released := by
    intro n hover
    rw [hunkept] at hover
    cases hover
  awaited := by
    intro other same hsame hawaited
    cases hsame
    exact absurd (hfits.drawn _ hawaited) (Nat.not_lt.mpr hseq)
  named := fun _ => rfl
  drawn := fun n hn => Nat.lt_of_lt_of_le (hfits.drawn n hn) hbound

end

theorem spawned {seq : Token} (hfits : Fits bound phase id none) (hbound : bound ≤ larger)
    (hseq : bound ≤ seq) : Fits larger phase id (some (type, .running seq)) where
  listed := by
    intro hmem
    obtain ⟨_, _, hnone, _⟩ := hfits.listed hmem
    cases hnone
  released := by
    intro n hover
    obtain ⟨_, _, _, hnone, _⟩ := hfits.released n hover
    cases hnone
  awaited := by
    intro other same hsame hawaited
    cases hsame
    exact absurd (hfits.drawn _ hawaited) (Nat.not_lt.mpr hseq)
  named := fun _ => rfl
  drawn := fun n hn => Nat.lt_of_lt_of_le (hfits.drawn n hn) hbound

end Fits

/-! ## Groups that fit the ledger -/

/-- The group fits the ledger: what it restarts is there, in start order, and it
fits the entry of every child. -/
structure PhaseFits (sup : SupervisionState) (phase : GroupPhase) : Prop where
  sorted : phase.order.Sublist sup.registry.ids
  fits : ∀ id, Fits sup.nextIncarnation phase id (sup.registry.entry id)

namespace PhaseFits

variable {sup next : SupervisionState} {phase : GroupPhase} {id : ActorId} {type : RestartType}
  {life : ChildLifecycle}

section

variable (hfits : PhaseFits sup phase)

include hfits

theorem change (id : ActorId) (hids : next.registry.ids = sup.registry.ids)
    (hbound : sup.nextIncarnation ≤ next.nextIncarnation)
    (hothers : ∀ other, other ≠ id → next.registry.entry other = sup.registry.entry other)
    (hself : Fits next.nextIncarnation phase id (next.registry.entry id)) :
    PhaseFits next phase := by
  refine ⟨by rw [hids]; exact hfits.sorted, fun other => ?_⟩
  by_cases heq : other = id
  · rw [heq]
    exact hself
  · rw [hothers other heq]
    exact (hfits.fits other).mono hbound

theorem frame (hids : next.registry.ids = sup.registry.ids)
    (hbound : sup.nextIncarnation ≤ next.nextIncarnation)
    (hentries : ∀ id, next.registry.entry id = sup.registry.entry id) : PhaseFits next phase := by
  refine ⟨by rw [hids]; exact hfits.sorted, fun id => ?_⟩
  rw [hentries id]
  exact (hfits.fits id).mono hbound

theorem carry (hregistry : next.registry = sup.registry)
    (hbound : sup.nextIncarnation ≤ next.nextIncarnation) : PhaseFits next phase :=
  hfits.frame (by rw [hregistry]) hbound fun _ => by rw [hregistry]

/-- A child at rest, stopping for good or awaited is released. -/
theorem override (hentry : sup.registry.entry id = some (type, life)) (hunlisted : id ∉ phase.order)
    (hkept : life.KeptDown life.heldToken (phase.awaiting.lookup id)) :
    PhaseFits sup (phase.recordOverride id life.heldToken) := by
  refine ⟨by simpa using hfits.sorted, fun other => ?_⟩
  by_cases heq : other = id
  · subst heq
    have hbefore := hfits.fits other
    rw [hentry] at hbefore ⊢
    constructor
    · intro hmem
      exact absurd (by simpa using hmem) hunlisted
    · intro n hover
      rw [overrides_recordOverride, lookup_insert] at hover
      cases hover
      refine ⟨by simpa using hunlisted, type, life, rfl, ?_⟩
      rw [awaiting_recordOverride]
      exact hkept
    · intro _ same hsame _ _
      cases hsame
      right
      rw [overrides_recordOverride, lookup_insert]
    · exact fun _ => rfl
    · rw [awaiting_recordOverride]
      exact hbefore.drawn
  · refine (hfits.fits other).congr (Nat.le_refl _) (by simp) (by simp) ?_ (by simp) (by simp)
      (by simp [Names])
    rw [overrides_recordOverride, lookup_insert_of_ne _ heq]

/-- A member leaves what the group restarts, and is released. -/
theorem release (hentry : sup.registry.entry id = some (type, life))
    (hkept : life.KeptDown life.heldToken (phase.awaiting.lookup id)) :
    PhaseFits sup ((phase.recordOverride id life.heldToken).leaveRestartSet id) := by
  refine ⟨?_, fun other => ?_⟩
  · rw [order_leaveRestartSet, order_recordOverride]
    exact List.filter_sublist.trans hfits.sorted
  by_cases heq : other = id
  · subst heq
    have hbefore := hfits.fits other
    rw [hentry] at hbefore ⊢
    have hgone : other ∉ ((phase.recordOverride other life.heldToken).leaveRestartSet
        other).order := by
      simp
    constructor
    · intro hmem
      exact absurd hmem hgone
    · intro n hover
      rw [overrides_leaveRestartSet, overrides_recordOverride,
        lookup_insert] at hover
      cases hover
      refine ⟨hgone, type, life, rfl, ?_⟩
      rw [awaiting_leaveRestartSet, awaiting_recordOverride]
      exact hkept
    · intro _ same hsame _ _
      cases hsame
      right
      rw [overrides_leaveRestartSet, overrides_recordOverride,
        lookup_insert]
    · exact fun _ => rfl
    · rw [awaiting_leaveRestartSet, awaiting_recordOverride]
      exact hbefore.drawn
  · refine (hfits.fits other).congr (Nat.le_refl _) ?_ ?_ ?_ (by simp) (by simp)
      (by simp [Names])
    · rw [order_leaveRestartSet, order_recordOverride,
        mem_filter_ne_iff heq]
    · rw [order_leaveRestartSet, order_recordOverride]
      exact head_filter_ne heq
    · rw [overrides_leaveRestartSet, overrides_recordOverride,
        lookup_insert_of_ne _ heq]

/-- An id without a spec leaves what the group restarts. -/
theorem leave (hgone : sup.registry.entry id = none) :
    PhaseFits sup (phase.leaveRestartSet id) := by
  refine ⟨?_, fun other => ?_⟩
  · rw [order_leaveRestartSet]
    exact List.filter_sublist.trans hfits.sorted
  have hlisted (hmem : other ∈ phase.order) : other ≠ id := by
    rintro rfl
    obtain ⟨_, _, hentry, _⟩ := (hfits.fits other).listed hmem
    rw [hgone] at hentry
    cases hentry
  refine (hfits.fits other).congr (Nat.le_refl _) ?_ ?_ (by simp) (by simp) (by simp)
    (by simp [Names])
  · rw [order_leaveRestartSet]
    refine ⟨fun hmem => (List.mem_filter.mp hmem).1, fun hmem => ?_⟩
    exact (mem_filter_ne_iff (hlisted hmem)).mpr hmem
  · rw [order_leaveRestartSet]
    exact fun hhead => head_filter_ne (hlisted (List.mem_of_mem_head? hhead)) hhead

/-- A spec is removed, and with it the child from every set but the barrier. -/
theorem remove : PhaseFits (sup.removeSpec id) (phase.removeSpec id) := by
  refine ⟨?_, fun other => ?_⟩
  · change (phase.removeSpec id).order.Sublist (sup.registry.remove id).ids
    rw [order_removeSpec, ids_remove]
    exact hfits.sorted.filter _
  change Fits sup.nextIncarnation (phase.removeSpec id) other ((sup.registry.remove id).entry other)
  rw [entry_remove]
  split
  next heq =>
    subst heq
    constructor
    · intro hmem
      simp at hmem
    · intro n hover
      rw [overrides_removeSpec, lookup_erase] at hover
      cases hover
    · intro _ _ hnone
      cases hnone
    · intro hnames
      simp [Names] at hnames
    · rw [awaiting_removeSpec]
      exact (hfits.fits other).drawn
  next hne =>
    refine (hfits.fits other).congr (Nat.le_refl _) ?_ ?_ ?_ (by simp) ?_ ?_
    · rw [order_removeSpec, mem_filter_ne_iff hne]
    · rw [order_removeSpec]
      exact head_filter_ne hne
    · rw [overrides_removeSpec, lookup_erase_ne hne]
    · rw [started_removeSpec, lookup_erase_ne hne]
    · simp [Names, lookup_erase_ne hne, hne]

theorem spawn {name : Option String} {shutdown : Shutdown} (habsent : sup.registry.get id = none) :
    PhaseFits (sup.spawnChildInternal id name type shutdown) phase := by
  have hgrows : sup.nextIncarnation ≤ sup.nextIncarnation + 1 := Nat.le_succ _
  refine ⟨?_, fun other => ?_⟩
  · change phase.order.Sublist (List.map Child.id (sup.registry ++ _))
    rw [List.map_append]
    exact hfits.sorted.trans (List.sublist_append_left _ _)
  · change Fits (sup.nextIncarnation + 1) phase other (entry (sup.registry ++ [_]) other)
    rw [entry_append habsent]
    split
    next heq =>
      have hbefore := hfits.fits id
      rw [entry_eq_none_iff.mpr habsent] at hbefore
      rw [heq]
      exact hbefore.spawned hgrows (Nat.le_refl _)
    next hne => exact (hfits.fits other).mono hgrows

end

/-- The barrier settles the end of the incarnation it waited for. -/
theorem settle {group : GroupRestart} {n : Token} (hfits : PhaseFits sup (.stopping group))
    (hawaited : group.awaiting.lookup id = some n)
    (hrests : ∀ life, sup.registry.life id = some life → life.heldToken = n → life.AtRest) :
    PhaseFits sup (.stopping { group with awaiting := group.awaiting.erase id }) := by
  refine ⟨hfits.sorted, fun other => ?_⟩
  by_cases heq : other = id
  · subst heq
    have hbefore := hfits.fits other
    have hnone : (group.awaiting.erase other).lookup other = none := lookup_erase _ _
    constructor
    · intro hmem
      obtain ⟨type, life, hentry, htype, hholds⟩ := hbefore.listed hmem
      refine ⟨type, life, hentry, htype, .inr (.inl ⟨hnone, ?_⟩)⟩
      rcases hholds with hheld | ⟨hunawaited, _⟩ | hstarted
      · have hsame : n = life.heldToken := Option.some.inj (hawaited.symm.trans hheld)
        exact hrests life (life_of_entry hentry) hsame.symm
      · exact absurd (hunawaited.symm.trans hawaited) (by simp)
      · exact absurd (hstarted.unawaited.symm.trans hawaited) (by simp)
    · intro m hover
      obtain ⟨hunlisted, type, life, hentry, hheld, hkept⟩ := hbefore.released m hover
      refine ⟨hunlisted, type, life, hentry, hheld, ?_⟩
      rcases hkept with hstopping | hrest | ⟨hrunning, hsame⟩
      · exact .inl hstopping
      · exact .inr (.inl hrest)
      · have hn : n = m := Option.some.inj (hawaited.symm.trans hsame)
        exact .inr (.inl (hrests life (life_of_entry hentry) (hheld.trans hn.symm)))
    · intro type life _ hsome
      exact absurd (hnone.symm.trans hsome) (by simp)
    · exact hbefore.named
    · intro m hsome
      exact absurd (hnone.symm.trans hsome) (by simp)
  · refine (hfits.fits other).congr (Nat.le_refl _) Iff.rfl (fun h => h) rfl ?_ rfl fun h => h
    exact lookup_erase_ne heq

/-- The barrier waits on for a member that came up. -/
theorem await {group : GroupRestart} {n : Token} (hfits : PhaseFits sup (.stopping group))
    (hmember : id ∈ group.restartOrder) (hrunning : sup.registry.life id = some (.running n))
    (hdrawn : n < sup.nextIncarnation) :
    PhaseFits sup (.stopping { group with awaiting := group.awaiting.insert id n }) := by
  refine ⟨hfits.sorted, fun other => ?_⟩
  by_cases heq : other = id
  · subst heq
    have hbefore := hfits.fits other
    have hsome : (group.awaiting.insert other n).lookup other = some n := lookup_insert _
    constructor
    · intro hmem
      obtain ⟨type, life, hentry, htype, _⟩ := hbefore.listed hmem
      have hsame : life = .running n :=
        Option.some.inj ((life_of_entry hentry).symm.trans hrunning)
      subst hsame
      exact ⟨type, _, hentry, htype, .inl hsome⟩
    · intro m hover
      exact absurd hmember (hbefore.released m hover).1
    · exact fun _ _ _ _ _ => .inl hmember
    · exact hbefore.named
    · intro m hm
      have hsame : n = m := Option.some.inj (hsome.symm.trans hm)
      rw [← hsame]
      exact hdrawn
  · refine (hfits.fits other).congr (Nat.le_refl _) Iff.rfl (fun h => h) rfl ?_ rfl fun h => h
    exact lookup_insert_of_ne _ heq

/-- The stop phase hands over to the chain. -/
theorem finish {group : GroupRestart} (hfits : PhaseFits sup (.stopping group))
    (hbarrier : group.awaiting = ∅) :
    PhaseFits sup (.restarting
      ⟨group.restartOrder.filter fun id => (group.manualOverrides.lookup id).isNone,
        group.manualOverrides, ∅, group.scope⟩) := by
  refine ⟨List.filter_sublist.trans hfits.sorted, fun other => ?_⟩
  have hnone : group.awaiting.lookup other = none := by
    rw [hbarrier, lookup_empty]
  have hbefore := hfits.fits other
  constructor
  · intro hmem
    obtain ⟨type, life, hentry, htype, hholds⟩ := hbefore.listed (List.mem_filter.mp hmem).1
    refine ⟨type, life, hentry, htype, .inr (.inl ⟨lookup_empty other, ?_⟩)⟩
    rcases hholds with hheld | ⟨_, hrests⟩ | ⟨_, hstarted, _⟩
    · exact absurd (hnone.symm.trans hheld) (by simp)
    · exact hrests
    · exact absurd ((lookup_empty other).symm.trans hstarted) (by simp)
  · intro m hover
    obtain ⟨hunlisted, type, life, hentry, hheld, hkept⟩ := hbefore.released m hover
    refine ⟨fun hmem => hunlisted (List.mem_filter.mp hmem).1, type, life, hentry, hheld, ?_⟩
    rcases hkept with hstopping | hrest | ⟨_, hsame⟩
    · exact .inl hstopping
    · exact .inr (.inl hrest)
    · exact absurd (hnone.symm.trans hsame) (by simp)
  · intro type life _ hsome
    exact absurd ((lookup_empty other).symm.trans hsome) (by simp)
  · rintro (hstarted | hscope)
    · change ((∅ : TokenMap).lookup other).isSome = true at hstarted
      rw [lookup_empty] at hstarted
      cases hstarted
    · exact hbefore.named (.inr hscope)
  · intro m hsome
    exact absurd ((lookup_empty other).symm.trans hsome) (by simp)

/-- The chain leaves its front behind. -/
theorem behind {chain : RestartChain} {front : ActorId} {rest : List ActorId} {scope : GroupScope}
    (hfits : PhaseFits sup (.restarting chain)) (hnodup : sup.registry.ids.Nodup)
    (hqueue : chain.queue = front :: rest)
    (hscope : ∀ id, id ∈ scope.restarted ∨ id ∈ scope.outside →
      id ∈ chain.scope.restarted ∨ id ∈ chain.scope.outside ∨
        (sup.registry.entry id).isSome = true) :
    PhaseFits sup (.restarting { chain with queue := rest, scope := scope }) := by
  have hsorted : (front :: rest).Sublist sup.registry.ids := by
    rw [← hqueue]
    exact hfits.sorted
  have hfront : front ∉ rest := (List.nodup_cons.mp (hnodup.sublist hsorted)).1
  refine ⟨(List.sublist_cons_self front rest).trans hsorted, fun other => ?_⟩
  have hbefore := hfits.fits other
  have hmember (hmem : other ∈ rest) : other ∈ (restarting chain).order := by
    change other ∈ chain.queue
    rw [hqueue]
    exact List.mem_cons_of_mem _ hmem
  constructor
  · intro hmem
    obtain ⟨type, life, hentry, htype, hholds⟩ := hbefore.listed (hmember hmem)
    refine ⟨type, life, hentry, htype, ?_⟩
    rcases hholds with hheld | hrests | ⟨hhead, _⟩
    · exact .inl hheld
    · exact .inr (.inl hrests)
    · have hsame : front = other := by
        change chain.queue.head? = some other at hhead
        rw [hqueue] at hhead
        exact Option.some.inj hhead
      exact absurd (hsame ▸ hmem) hfront
  · intro m hover
    obtain ⟨hunlisted, hkept⟩ := hbefore.released m hover
    exact ⟨fun hmem => hunlisted (hmember hmem), hkept⟩
  · intro type life _ hsome
    exact absurd ((lookup_empty other).symm.trans hsome) (by simp)
  · rintro (hstarted | hnamed)
    · exact hbefore.named (.inl hstarted)
    · rcases hscope other hnamed with h | h | h
      · exact hbefore.named (.inr (.inl h))
      · exact hbefore.named (.inr (.inr h))
      · exact h
  · exact hbefore.drawn

end PhaseFits

theorem PhaseFits.unlisted {sup : SupervisionState} {phase : GroupPhase} {id : ActorId}
    (hfits : PhaseFits sup phase) (hpending : sup.pendingGroup = some phase)
    (hunplanned : sup.Unplanned id) : id ∉ phase.order := by
  intro hmem
  obtain ⟨type, life, hentry, _, hholds⟩ := (hfits.fits id).listed hmem
  have hread := unplanned_iff.mp hunplanned phase life hpending (life_of_entry hentry)
  rcases hholds with hheld | ⟨hnone, _⟩ | hstarted
  · exact (hread.1 hheld).2 hmem
  · exact hread.2 hnone hmem
  · exact hread.2 hstarted.unawaited hmem

theorem ChildLifecycle.KeptDown.of_unawaited {life : ChildLifecycle} {n : Token}
    {awaited : Option Token} (hkept : life.KeptDown n none) : life.KeptDown n awaited := by
  obtain ⟨hheld, hstopping | hrests | ⟨_, hnone⟩⟩ := hkept
  · exact ⟨hheld, .inl hstopping⟩
  · exact ⟨hheld, .inr (.inl hrests)⟩
  · cases hnone

/-- A move of the group keeps it fit. -/
theorem GroupMove.phaseFits {sup next : SupervisionState} (hmove : GroupMove sup next)
    (hnodup : sup.registry.ids.Nodup)
    (hfresh : ∀ id life, sup.registry.life id = some life → life.heldToken < sup.nextIncarnation)
    (hfits : ∀ phase, sup.pendingGroup = some phase → PhaseFits sup phase) :
    ∀ phase, next.pendingGroup = some phase → PhaseFits next phase := by
  intro phase hphase
  cases hmove with
  | stopPop group head rest hpending =>
    cases hphase
    have hbefore := hfits _ hpending
    exact ⟨hbefore.sorted, fun id => (hbefore.fits id).congr (Nat.le_refl _) Iff.rfl
      (fun h => h) rfl rfl rfl fun h => h⟩
  | stopAct group head rest reached hpending =>
    cases hphase
    have hbefore := hfits _ hpending
    obtain ⟨slots, obs, happly, _⟩ :=
      @frame_applyQueueStep sup head (stopQueueNext (sup.queueHead group head))
    rw [happly]
    exact ⟨hbefore.sorted, fun id => (hbefore.fits id).congr (Nat.le_refl _) Iff.rfl
      (fun h => h) rfl rfl rfl fun h => h⟩
  | settle group id n hpending hawaited hrests =>
    cases hphase
    exact ((hfits _ hpending).settle hawaited hrests).carry rfl (Nat.le_refl _)
  | awaitAdopted group id n hpending hmember hrunning =>
    cases hphase
    exact ((hfits _ hpending).await hmember hrunning (hfresh _ _ hrunning)).carry rfl
      (Nat.le_refl _)
  | finish group hpending hbarrier =>
    cases hphase
    exact ((hfits _ hpending).finish hbarrier).carry rfl (Nat.le_refl _)
  | chainGone chain front rest hpending hqueue =>
    cases hphase
    refine ((hfits _ hpending).behind hnodup hqueue fun id hscope => ?_).carry rfl (Nat.le_refl _)
    rcases hscope with h | h
    · exact .inl h
    · exact .inr (.inl h)
  | chainFresh chain front rest n hpending hqueue hrunning =>
    cases hphase
    refine ((hfits _ hpending).behind hnodup hqueue fun id hscope => ?_).carry rfl (Nat.le_refl _)
    rcases hscope with h | h
    · rcases Finset.mem_insert.mp h with rfl | h
      · obtain ⟨type, hentry⟩ := exists_entry_of_life hrunning
        exact .inr (.inr (by rw [hentry]; rfl))
      · exact .inl h
    · exact .inr (.inl h)
  | foreign => exact (hfits phase hphase).carry rfl (Nat.le_refl _)
  | keep id life hunplanned hentry hkept =>
    obtain ⟨old, hold, rfl⟩ := Option.map_eq_some_iff.mp hphase
    have hbefore := hfits old hold
    obtain ⟨type, htyped⟩ := exists_entry_of_life hentry
    rw [hentry]
    exact (hbefore.override htyped (hbefore.unlisted hold hunplanned) hkept.of_unawaited).carry rfl
      (Nat.le_refl _)
  | leaveGone id hgone =>
    obtain ⟨old, hold, rfl⟩ := Option.map_eq_some_iff.mp hphase
    exact ((hfits old hold).leave (entry_eq_none_iff.mpr hgone)).carry rfl (Nat.le_refl _)

end TokioActors
