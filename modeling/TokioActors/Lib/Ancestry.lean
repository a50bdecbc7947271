/-
# Chains of ancestors

The nodes of a forest are numbers below a size, every node is made after its
parent, and a node knows its chain of ancestors, the nearest first. A value that
climbs such a chain is lifted by every node it passes.
-/

import Mathlib.Data.List.Basic
import Mathlib.Algebra.Order.Group.Nat
import Mathlib.Order.Monotone.Basic

namespace Ancestry

variable {α : Type*} {size : Nat} {above : Nat → List Nat}

/-- Every chain is that of the parent with the parent before it. -/
def Rooted (size : Nat) (above : Nat → List Nat) : Prop :=
  ∀ node < size, above node = [] ∨ ∃ parent < node, above node = parent :: above parent

/-- What a value is when it has climbed to `goal`, if it gets there: every node
passed on the way lifts it. -/
def climb (lift : Nat → α → α) (goal : Nat) : α → List Nat → Option α
  | _, [] => none
  | value, node :: rest =>
    if node = goal then some value else climb lift goal (lift node value) rest

namespace Rooted

variable {node ancestor : Nat} {rest : List Nat}

section

variable (hrooted : Rooted size above) (hnode : node < size)

include hrooted hnode

theorem parent {parent : Nat} (habove : above node = parent :: rest) :
    parent < node ∧ rest = above parent := by
  rcases hrooted node hnode with hroot | ⟨other, hlt, hother⟩
  · rw [hroot] at habove
    cases habove
  · rw [hother] at habove
    obtain ⟨rfl, rfl⟩ := List.cons.inj habove
    exact ⟨hlt, rfl⟩

/-- What stands behind an ancestor in a chain is the ancestor's own chain. -/
theorem behind {before : List Nat} (habove : above node = before ++ ancestor :: rest) :
    ancestor < node ∧ rest = above ancestor := by
  induction before generalizing node with
  | nil => exact hrooted.parent hnode habove
  | cons first before ih =>
    obtain ⟨hlt, hrest⟩ := hrooted.parent hnode habove
    obtain ⟨hbefore, heq⟩ := ih (hlt.trans hnode) hrest.symm
    exact ⟨hbefore.trans hlt, heq⟩

theorem lt (hmem : ancestor ∈ above node) : ancestor < node := by
  obtain ⟨before, rest, habove⟩ := List.append_of_mem hmem
  exact (hrooted.behind hnode habove).1

/-- A node stands in its own chain of ancestors nowhere, and no ancestor twice. -/
theorem not_mem_behind {before : List Nat}
    (habove : above node = before ++ ancestor :: rest) : ancestor ∉ rest := by
  obtain ⟨hlt, rfl⟩ := hrooted.behind hnode habove
  intro hmem
  exact lt_irrefl _ (hrooted.lt (hlt.trans hnode) hmem)

theorem nodup : (above node).Nodup := by
  induction node using Nat.strongRecOn with
  | _ node ih =>
    rcases hrooted node hnode with hroot | ⟨parent, hlt, hparent⟩
    · rw [hroot]
      exact List.nodup_nil
    · rw [hparent, List.nodup_cons]
      refine ⟨fun hmem => ?_, ih parent hlt (hlt.trans hnode)⟩
      exact lt_irrefl _ (hrooted.lt (hlt.trans hnode) hmem)

end

end Rooted

variable {lift : Nat → α → α} {value : α} {goal : Nat}

/-! ## Climbing -/

theorem climb_cons_self {node : Nat} {rest : List Nat} :
    climb lift node value (node :: rest) = some value := if_pos rfl

theorem climb_cons_ne {node : Nat} {rest : List Nat} (hne : node ≠ goal) :
    climb lift goal value (node :: rest) = climb lift goal (lift node value) rest := if_neg hne

/-- Only the lifts of the chain matter. -/
theorem climb_congr {other : Nat → α → α} {chain : List Nat}
    (hlift : ∀ node ∈ chain, lift node = other node) :
    climb lift goal value chain = climb other goal value chain := by
  induction chain generalizing value with
  | nil => rfl
  | cons node rest ih =>
    rw [climb, climb, hlift node List.mem_cons_self,
      ih fun node hmem => hlift node (List.mem_cons_of_mem _ hmem)]

/-- When no parent has less than its children lift to it, a value that starts
under the first of its chain stays under all of them. -/
theorem climb_le [Preorder α] (hrooted : Rooted size above)
    (hmono : ∀ node < size, Monotone (lift node)) {held : Nat → α}
    (hheld : ∀ node < size, ∀ parent rest, above node = parent :: rest →
      lift node (held node) ≤ held parent)
    {parent : Nat} {result : α} (hparent : parent < size) (hle : value ≤ held parent)
    (hclimb : climb lift goal value (parent :: above parent) = some result) :
    result ≤ held goal := by
  induction parent using Nat.strongRecOn generalizing value with
  | _ parent ih =>
    by_cases hgoal : parent = goal
    · subst hgoal
      rw [climb_cons_self] at hclimb
      exact Option.some.inj hclimb ▸ hle
    · rw [climb_cons_ne hgoal] at hclimb
      rcases hrooted parent hparent with hroot | ⟨next, hlt, hnext⟩
      · rw [hroot] at hclimb
        cases hclimb
      · rw [hnext] at hclimb
        refine ih next hlt (hlt.trans hparent) ?_ hclimb
        exact (hmono parent hparent hle).trans (hheld parent hparent next _ hnext)

end Ancestry
