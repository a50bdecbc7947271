/-
# A growing family of nodes

A family of numbered nodes, in which one node is changed at a time and new ones
are added at the end, and what its nodes hold together.
-/

import Mathlib.Logic.Function.Basic
import TokioActors.Lib.Pool

namespace Machine

universe u

/-- The nodes made so far. -/
structure Family (α : Type u) where
  size : Nat
  node : Nat → α

namespace Family

variable {α : Type u}

/-- Changes one node. -/
def modify (family : Family α) (at' : Nat) (change : α → α) : Family α :=
  { family with node := Function.update family.node at' (change (family.node at')) }

/-- Adds a node. -/
def add (family : Family α) (fresh : α) : Family α :=
  { size := family.size + 1, node := Function.update family.node family.size fresh }

/-- The nodes in order. -/
def nodes (family : Family α) : List α := (List.range family.size).map family.node

variable {family : Family α} {at' index : Nat} {change : α → α} {fresh : α}

@[simp] theorem size_modify : (family.modify at' change).size = family.size := rfl

@[simp] theorem node_modify_self :
    (family.modify at' change).node at' = change (family.node at') :=
  Function.update_self ..

theorem node_modify_ne (hne : index ≠ at') :
    (family.modify at' change).node index = family.node index :=
  Function.update_of_ne hne ..

/-- A part of the nodes that a change leaves alone is that of before. -/
theorem node_modify_same {β : Type*} {part : α → β}
    (hsame : part (change (family.node at')) = part (family.node at')) :
    part ((family.modify at' change).node index) = part (family.node index) := by
  by_cases hindex : index = at'
  · rw [hindex, node_modify_self, hsame]
  · rw [node_modify_ne hindex]

theorem modify_id : family.modify at' id = family := by
  unfold modify
  rw [id, Function.update_eq_self]

@[simp] theorem size_add : (family.add fresh).size = family.size + 1 := rfl

@[simp] theorem node_add_self : (family.add fresh).node family.size = fresh :=
  Function.update_self ..

theorem node_add_ne (hindex : index ≠ family.size) :
    (family.add fresh).node index = family.node index :=
  Function.update_of_ne hindex ..

theorem node_add_lt (hindex : index < family.size) :
    (family.add fresh).node index = family.node index :=
  node_add_ne (Nat.ne_of_lt hindex)

/-! ## All nodes together -/

theorem nodes_add : (family.add fresh).nodes = family.nodes ++ [fresh] := by
  unfold nodes
  rw [size_add, List.range_succ, List.map_append, List.map_singleton, node_add_self]
  congr 1
  exact List.map_congr_left fun index hindex => node_add_lt (List.mem_range.mp hindex)

theorem getElem?_nodes (hindex : index < family.size) :
    family.nodes[index]? = some (family.node index) := by
  simp [nodes, hindex]

theorem nodes_modify :
    (family.modify at' change).nodes = family.nodes.set at' (change (family.node at')) := by
  refine List.ext_getElem? fun index => ?_
  by_cases hindex : index < family.size
  · have hafter : index < (family.modify at' change).size := hindex
    rw [getElem?_nodes hafter]
    by_cases hat : at' = index
    · subst hat
      rw [List.getElem?_set_self (by simpa [nodes] using hindex), node_modify_self]
    · rw [List.getElem?_set_ne hat, getElem?_nodes hindex, node_modify_ne (Ne.symm hat)]
  · simp [nodes, hindex]

variable {weight : α → ℤ}

/-- A change of one node changes what the nodes hold by its own. -/
theorem weigh_nodes_change (hat : at' < family.size) :
    Pool.weigh weight (family.modify at' change).nodes + weight (family.node at') =
      Pool.weigh weight family.nodes + weight (change (family.node at')) := by
  rw [nodes_modify]
  exact Pool.weigh_set (getElem?_nodes hat)

theorem weigh_nodes_same (hsame : weight (change (family.node at')) = weight (family.node at')) :
    Pool.weigh weight (family.modify at' change).nodes = Pool.weigh weight family.nodes := by
  by_cases hat : at' < family.size
  · have hchange : Pool.weigh weight (family.modify at' change).nodes +
        weight (family.node at') = Pool.weigh weight family.nodes +
          weight (change (family.node at')) := weigh_nodes_change hat
    omega
  · rw [nodes_modify, List.set_eq_of_length_le (by simpa [nodes] using hat)]

end Family

end Machine
