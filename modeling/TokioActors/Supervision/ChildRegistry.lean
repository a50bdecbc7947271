/-
# The child registry

A supervisor keeps its children in a vector, in start order, and a map from each
id to the position of its child. A registration adds a child at the end, a removal
writes the positions behind it again, and everything else a supervisor does to a
child writes it in place. The functions that plan a group and tear the children
down read the vector as a list in start order; the map is only ever a quick way to
find what a search of that list finds.
-/

import TokioActors.Lib.Indexed
import TokioActors.Lib.Reach
import TokioActors.Supervision.Lemmas

namespace TokioActors

/-- The children in start order, and the position of each id. -/
structure ChildRegistry where
  children : List Child := []
  index : Finmap (fun _ : ActorId => Nat) := ∅

/-! Where the source reads a position past the end of the vector it panics: the
functions below answer `none` there. -/

namespace ChildRegistry

def register (registry : ChildRegistry) (child : Child) : ChildRegistry where
  children := registry.children ++ [child]
  index := registry.index.insert child.id registry.children.length

def remove (registry : ChildRegistry) (id : ActorId) : Option (ChildRegistry × Option Child) :=
  match registry.index.lookup id with
  | none => some (registry, none)
  | some idx => registry.children[idx]?.map fun child =>
    let children := registry.children.eraseIdx idx
    ({ children := children
       index := Indexed.reindex Child.id idx children (registry.index.erase id) }, some child)

def get (registry : ChildRegistry) (id : ActorId) : Option (Option Child) :=
  match registry.index.lookup id with
  | none => some none
  | some idx => registry.children[idx]?.map some

/-- A write through `get_mut`: no caller writes the id. -/
def getMut (registry : ChildRegistry) (id : ActorId) (write : Child → Child) :
    Option ChildRegistry :=
  match registry.index.lookup id with
  | none => some registry
  | some idx => registry.children[idx]?.map fun _ =>
    { registry with
      children := registry.children.modify idx fun child => { write child with id := child.id } }

/-- The attempt `seq` of a child that is restarting was adopted. -/
def updateRestarted (registry : ChildRegistry) (id : ActorId) (seq : Token) :
    Option ChildRegistry :=
  registry.getMut id fun child =>
    match child.lifecycle with
    | .restarting _ next =>
      if next = seq ∧ isLegal child.lifecycle (.running seq) then
        { child with lifecycle := .running seq }
      else child
    | _ => child

/-- The refusals of a spawn; an unnamed spawn has no name to take. -/
def refuseSpawn (registry : ChildRegistry) (finalDelivery : Bool) (id : Option ActorId) :
    Option (Except SpawnError Unit) :=
  if finalDelivery then some (.error .supervisorStopping)
  else match id with
    | some id => (registry.get id).map fun held =>
      if held.isSome then .error (.duplicateChild id) else .ok ()
    | none => some (.ok ())

end ChildRegistry

/-- What is done to the registry. -/
inductive RegistryCall
  | spawn (finalDelivery named : Bool) (child : Child)
  | remove (id : ActorId)
  | write (id : ActorId) (write : Child → Child)
  | restarted (id : ActorId) (seq : Token)

/-- The registry, with the number of each child's registration. -/
structure Registrations where
  registry : ChildRegistry := {}
  count : Nat := 0
  born : ActorId → Nat := fun _ => 0

namespace Registrations

def step (state : Registrations) : RegistryCall → Option Registrations
  | .spawn finalDelivery named child =>
    (state.registry.refuseSpawn finalDelivery (if named then some child.id else none)).map
      fun answer => match answer with
        | .error _ => state
        | .ok () =>
          { registry := state.registry.register child
            count := state.count + 1
            born := Function.update state.born child.id state.count }
  | .remove id => (state.registry.remove id).map fun removed => { state with registry := removed.1 }
  | .write id write => (state.registry.getMut id write).map fun r => { state with registry := r }
  | .restarted id seq =>
    (state.registry.updateRestarted id seq).map fun r => { state with registry := r }

/-- An id drawn for an unnamed spawn is under no child. -/
def Drawn (state : Registrations) : RegistryCall → Prop
  | .spawn _ false child => child.id ∉ Registry.ids state.registry.children
  | _ => True

instance (state : Registrations) (call : RegistryCall) : Decidable (state.Drawn call) := by
  cases call with
  | spawn _ named => cases named <;> unfold Drawn <;> infer_instance
  | remove | write | restarted => exact inferInstanceAs (Decidable True)

/-- What a call makes of the children in start order. -/
def Follows (before after : Registry) : RegistryCall → Prop
  | .spawn finalDelivery _ child =>
    after = if finalDelivery ∨ child.id ∈ before.ids then before else before ++ [child]
  | .remove id => after = before.remove id
  | .write _ _ | .restarted _ _ => after.ids = before.ids

/-! ## Every run -/

/-- The index holds the positions, and the children stand in the order of their
registrations. -/
structure Kept (state : Registrations) : Prop where
  positions : Indexed.Positions Child.id state.registry.children state.registry.index
  order : (state.registry.children.map fun child => state.born child.id).Pairwise (· < ·)
  born : ∀ child ∈ state.registry.children, state.born child.id < state.count

variable {state : Registrations} {id : ActorId}

theorem Kept.get_eq (hkept : Kept state) :
    state.registry.get id = some (Registry.get state.registry.children id) := by
  rw [Registry.get, hkept.positions.find_eq, ChildRegistry.get]
  cases hlookup : state.registry.index.lookup id with
  | none => rfl
  | some idx =>
    obtain ⟨child, hchild, _⟩ := hkept.positions.held hlookup
    simp [hchild]

theorem Kept.lookup_eq_none (hkept : Kept state)
    (habsent : id ∉ Registry.ids state.registry.children) :
    state.registry.index.lookup id = none := by
  by_contra hne
  obtain ⟨idx, hlookup⟩ := Option.ne_none_iff_exists'.mp hne
  obtain ⟨child, hchild, rfl⟩ := hkept.positions.held hlookup
  exact habsent (List.mem_map_of_mem (List.mem_of_getElem? hchild))

theorem Kept.register {child : Child} (hkept : Kept state)
    (habsent : child.id ∉ Registry.ids state.registry.children) :
    Kept { registry := state.registry.register child, count := state.count + 1,
           born := Function.update state.born child.id state.count } := by
  have hborn (other : Child) (hother : other ∈ state.registry.children) :
      Function.update state.born child.id state.count other.id = state.born other.id := by
    refine Function.update_of_ne (fun heq => habsent ?_) _ _
    rw [← heq]
    exact List.mem_map_of_mem hother
  refine ⟨hkept.positions.push (hkept.lookup_eq_none habsent), ?_, ?_⟩
  · simp only [ChildRegistry.register, List.map_append, List.map_cons, List.map_nil,
      Function.update_self]
    rw [List.map_congr_left hborn, List.pairwise_append]
    refine ⟨hkept.order, List.pairwise_singleton _ _, ?_⟩
    simpa using fun other hother => hkept.born other hother
  · intro other hother
    dsimp only
    rcases List.mem_append.mp hother with hold | hnew
    · rw [hborn other hold]
      exact (hkept.born other hold).trans (Nat.lt_succ_self _)
    · rw [List.mem_singleton.mp hnew, Function.update_self]
      exact Nat.lt_succ_self _

theorem Kept.remove (hkept : Kept state) : ∃ registry found,
    state.registry.remove id = some (registry, found) ∧ Kept { state with registry := registry } ∧
      registry.children = Registry.remove state.registry.children id := by
  unfold ChildRegistry.remove
  cases hlookup : state.registry.index.lookup id with
  | none =>
    refine ⟨_, _, rfl, hkept, (List.filter_eq_self.mpr fun child hchild => bne_iff_ne.mpr ?_).symm⟩
    rintro rfl
    obtain ⟨i, hplace⟩ := List.mem_iff_getElem?.mp hchild
    rw [hkept.positions.found hplace] at hlookup
    cases hlookup
  | some idx =>
    obtain ⟨child, hchild, rfl⟩ := hkept.positions.held hlookup
    have hsub := List.eraseIdx_sublist state.registry.children idx
    simp only [hchild, Option.map_some]
    exact ⟨_, _, rfl, ⟨hkept.positions.erase hlookup, hkept.order.sublist (hsub.map _),
      fun other hother => hkept.born other (hsub.subset hother)⟩,
      Indexed.eraseIdx_eq_remove hkept.positions.nodup hchild⟩

theorem Kept.getMut {write : Child → Child} (hkept : Kept state) : ∃ registry,
    state.registry.getMut id write = some registry ∧ Kept { state with registry := registry } ∧
      Registry.ids registry.children = Registry.ids state.registry.children := by
  unfold ChildRegistry.getMut
  cases hlookup : state.registry.index.lookup id with
  | none => exact ⟨_, rfl, hkept, rfl⟩
  | some idx =>
    obtain ⟨child, hchild, rfl⟩ := hkept.positions.held hlookup
    have hids : Registry.ids (state.registry.children.modify idx fun child =>
        { write child with id := child.id }) = Registry.ids state.registry.children :=
      Indexed.keys_modify fun _ => rfl
    have hborn : ∀ registry : Registry, registry.map (fun child => state.born child.id) =
        registry.ids.map state.born := fun registry => (List.map_map ..).symm
    simp only [hchild, Option.map_some]
    refine ⟨_, rfl, ⟨hkept.positions.modify fun _ => rfl, ?_, ?_⟩, hids⟩
    · dsimp only
      rw [hborn, hids, ← hborn]
      exact hkept.order
    · intro other hother
      have hmem : other.id ∈ Registry.ids state.registry.children := by
        rw [← hids]
        exact List.mem_map_of_mem hother
      obtain ⟨old, hold, heq⟩ := List.mem_map.mp hmem
      rw [← heq]
      exact hkept.born old hold

/-- No call panics, and every call keeps the registry. -/
theorem Kept.step {call : RegistryCall} (hkept : Kept state) (hdrawn : state.Drawn call) :
    ∃ after, state.step call = some after ∧ Kept after ∧
      Follows state.registry.children after.registry.children call := by
  cases call with
  | spawn finalDelivery named child =>
    simp only [Registrations.step, ChildRegistry.refuseSpawn, Follows]
    cases finalDelivery with
    | true => exact ⟨state, rfl, hkept, by simp⟩
    | false =>
      cases named with
      | false =>
        have habsent : child.id ∉ Registry.ids state.registry.children := hdrawn
        exact ⟨_, rfl, hkept.register habsent, (if_neg (by simpa using habsent)).symm⟩
      | true =>
        simp only [hkept.get_eq, Bool.false_eq_true, if_false, if_true, Option.map_some]
        by_cases hheld : child.id ∈ Registry.ids state.registry.children
        · have hsome := Keyed.find_isSome_iff.mpr hheld
          exact ⟨state, by rw [Registry.get, if_pos hsome], hkept, by simp [hheld]⟩
        · have hnone := Registry.get_eq_none_iff.mpr hheld
          refine ⟨_, by rw [hnone]; rfl, hkept.register hheld, ?_⟩
          simp [hheld, ChildRegistry.register]
  | remove id =>
    obtain ⟨registry, found, hremove, hafter, hchildren⟩ := @Kept.remove state id hkept
    exact ⟨_, by rw [Registrations.step, hremove]; rfl, hafter, hchildren⟩
  | write id write =>
    obtain ⟨registry, hwrite, hafter, hids⟩ := @Kept.getMut state id write hkept
    exact ⟨_, by rw [Registrations.step, hwrite]; rfl, hafter, hids⟩
  | restarted id seq =>
    obtain ⟨registry, hwrite, hafter, hids⟩ := @Kept.getMut state id _ hkept
    exact ⟨_, by rw [Registrations.step, ChildRegistry.updateRestarted, hwrite]; rfl, hafter, hids⟩

/-- **The registry keeps its children in the order they were registered.** The index
maps exactly the ids of the vector to their positions, no id is there twice, and
the children stand in the order of their registrations. What is read through the
index is what a search finds, no call panics, and each one leaves the children as
the planning functions count on: a refused spawn changes nothing, a spawn goes last,
a removal keeps the others in order, and a restart keeps every place. -/
theorem child_registry_keeps_start_order
    (hreach : Machine.Reaches Registrations.step Drawn {} state) :
    (∀ id i, state.registry.index.lookup id = some i ↔
      state.registry.children[i]?.map Child.id = some id) ∧
    (Registry.ids state.registry.children).Nodup ∧
    (state.registry.children.map fun child => state.born child.id).Pairwise (· < ·) ∧
    (∀ id, state.registry.get id = some (Registry.get state.registry.children id)) ∧
    ∀ call, state.Drawn call → ∃ after, state.step call = some after ∧
      Follows state.registry.children after.registry.children call := by
  have hkept : Kept state := by
    refine Machine.Reaches.invariant ⟨Indexed.positions_nil, .nil, by simp⟩ ?_ hreach
    intro before call next hbefore hdrawn hstep
    obtain ⟨after, hafter, hkept, _⟩ := hbefore.step hdrawn
    rwa [Option.some.inj (hstep.symm.trans hafter)]
  refine ⟨fun id i => ⟨fun hlookup => ?_, fun hplace => ?_⟩, hkept.positions.nodup, hkept.order,
    fun id => hkept.get_eq, fun call hdrawn => ?_⟩
  · obtain ⟨child, hchild, rfl⟩ := hkept.positions.held hlookup
    rw [hchild]
    rfl
  · obtain ⟨child, hchild, rfl⟩ := Option.map_eq_some_iff.mp hplace
    exact hkept.positions.found hchild
  · obtain ⟨after, hstep, _, hfollows⟩ := hkept.step hdrawn
    exact ⟨after, hstep, hfollows⟩

/-- A child of the runs below. -/
def plainChild (id : ActorId) : Child :=
  ⟨id, none, .permanent, .kill, .running 0, .initial, none⟩

/-- The first of three children is removed and spawned again. -/
def spawnedAgain : List RegistryCall :=
  [.spawn false true (plainChild 1), .spawn false true (plainChild 2),
    .spawn false false (plainChild 3), .remove 1, .restarted 2 1,
    .spawn false true (plainChild 2), .spawn false true (plainChild 1)]

theorem spawnedAgain_goes :
    (Machine.runWhere Registrations.step Drawn {} spawnedAgain).isSome = true := by
  decide +kernel

theorem child_registry_keeps_start_order_again :
    ∃ state, Machine.Reaches Registrations.step Drawn {} state ∧
      Registry.ids state.registry.children = [2, 3, 1] ∧
      (Registry.ids state.registry.children).Nodup := by
  have hreach := Machine.reaches_getWhere spawnedAgain_goes
  exact ⟨_, hreach, by decide +kernel, (child_registry_keeps_start_order hreach).2.1⟩

end Registrations

end TokioActors
