/-
# The latest maximum

A register that takes entries one after the other and keeps the strongest, the
later of two equally strong ones. Strength is a key into a linear order, with
the empty register below every key. What the register holds is the latest
maximum of what it was offered, and how strong that is does not depend on the
order of the offers.
-/

import Mathlib.Order.WithBot
import Mathlib.Order.Lattice
import Mathlib.Data.List.Induction
import Mathlib.Data.List.Perm.Basic

namespace Latest

universe u v

variable {α : Type u} {κ : Type v} [LinearOrder κ] (key : α → κ)

/-- Offers one entry: it is kept unless the held one is stronger. -/
def keep (held : Option α) (offer : α) : Option α :=
  match held with
  | none => some offer
  | some old => if key old ≤ key offer then some offer else some old

/-- What is held after the offers. -/
def best (offers : List α) : Option α := offers.foldl (keep key) none

/-- How strong the held entry is. -/
def strength (held : Option α) : WithBot κ := held.map key

/-- The entry is a maximum of the offers, and no later one equals it. -/
def IsLatest (entry : α) (offers : List α) : Prop :=
  ∃ earlier later, offers = earlier ++ entry :: later ∧
    (∀ other ∈ earlier, key other ≤ key entry) ∧ ∀ other ∈ later, key other < key entry

variable {key} {held : Option α} {offer entry : α} {offers more : List α}

omit [LinearOrder κ] in
@[simp] theorem strength_none : strength key none = ⊥ := rfl

omit [LinearOrder κ] in
@[simp] theorem strength_some : strength key (some entry) = key entry := rfl

/-- An offer raises the strength to its own. -/
theorem strength_keep :
    strength key (keep key held offer) = max (strength key held) (key offer) := by
  cases held with
  | none => simp [keep]
  | some old =>
    by_cases hle : key old ≤ key offer
    · simp [keep, hle]
    · have hlt : key offer ≤ key old := le_of_not_ge hle
      simp [keep, hle, hlt]

/-- The order of the offers does not change the strength. -/
theorem strength_foldl_perm (hperm : offers.Perm more) :
    strength key (offers.foldl (keep key) held) = strength key (more.foldl (keep key) held) := by
  have hfold (offers : List α) (held : Option α) :
      strength key (offers.foldl (keep key) held) =
        offers.foldl (fun level offer => max level (key offer : WithBot κ))
          (strength key held) := by
    induction offers generalizing held with
    | nil => rfl
    | cons offer rest ih => rw [List.foldl_cons, List.foldl_cons, ih, strength_keep]
  rw [hfold, hfold]
  refine @List.Perm.foldl_eq _ _ (fun (level : WithBot κ) (offer : α) => max level (key offer))
    _ _ ⟨fun level first second => ?_⟩ hperm _
  rw [max_assoc, max_assoc, max_comm (key first : WithBot κ)]

theorem best_append : best key (offers ++ more) = more.foldl (keep key) (best key offers) :=
  List.foldl_append

@[simp] theorem best_nil : best key ([] : List α) = none := rfl

theorem best_concat : best key (offers ++ [offer]) = keep key (best key offers) offer := by
  rw [best_append]
  rfl

theorem keep_ne_none : keep key held offer ≠ none := by
  cases held with
  | none => simp [keep]
  | some =>
    simp only [keep]
    split <;> simp

/-- Nothing is held only when nothing was offered. -/
theorem eq_nil_of_best (hbest : best key offers = none) : offers = [] := by
  cases offers using List.reverseRecOn with
  | nil => rfl
  | append_singleton =>
    rw [best_concat] at hbest
    exact absurd hbest keep_ne_none

/-- What is held is the latest maximum of the offers. -/
theorem isLatest_of_best (hbest : best key offers = some entry) : IsLatest key entry offers := by
  induction offers using List.reverseRecOn generalizing entry with
  | nil => cases hbest
  | append_singleton offers offer ih =>
    rw [best_concat] at hbest
    cases hheld : best key offers with
    | none =>
      rw [hheld] at hbest
      cases hbest
      exact ⟨offers, [], rfl, by simp [eq_nil_of_best hheld], by simp⟩
    | some =>
      obtain ⟨earlier, later, hoffers, hearlier, hlater⟩ := ih hheld
      rw [hheld, keep] at hbest
      split at hbest
      next hle =>
        cases hbest
        refine ⟨offers, [], rfl, fun other hother => ?_, by simp⟩
        rw [hoffers] at hother
        rcases List.mem_append.mp hother with hbefore | hafter
        · exact (hearlier other hbefore).trans hle
        · rcases List.mem_cons.mp hafter with rfl | hafter
          · exact hle
          · exact (hlater other hafter).le.trans hle
      next hlt =>
        cases hbest
        refine ⟨earlier, later ++ [offer], by simp [hoffers], hearlier, fun other hother => ?_⟩
        rcases List.mem_append.mp hother with hbefore | hlast
        · exact hlater other hbefore
        · rw [List.mem_singleton.mp hlast]
          exact lt_of_not_ge hlt

end Latest
