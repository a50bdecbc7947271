/-
# Tallies

How often a token occurs in a list, as an integer, so that what one container
loses and another gains cancels by linear arithmetic.
-/

import Mathlib.Data.Int.Basic
import Mathlib.Data.List.Count

namespace Tally

universe u

variable {τ : Type u} [DecidableEq τ]

/-- One when the two tokens are the same. -/
def hit (n m : τ) : ℤ := if m = n then 1 else 0

/-- How often `n` occurs. -/
def tally (n : τ) (tokens : List τ) : ℤ := tokens.count n

variable {n m : τ} {tokens : List τ}

@[simp] theorem hit_self : hit n n = 1 := if_pos rfl

theorem hit_of_ne (hne : m ≠ n) : hit n m = 0 := if_neg hne

theorem hit_nonneg : 0 ≤ hit n m := by
  unfold hit
  split <;> omega

@[simp] theorem tally_nil : tally n ([] : List τ) = 0 := rfl

@[simp] theorem tally_cons : tally n (m :: tokens) = hit n m + tally n tokens := by
  by_cases h : m = n
  · subst h
    simp [tally, Int.add_comm]
  · simp [tally, hit_of_ne h, h]

@[simp] theorem tally_append {more : List τ} :
    tally n (tokens ++ more) = tally n tokens + tally n more := by
  simp [tally]

theorem tally_nonneg : 0 ≤ tally n tokens := Int.natCast_nonneg _

theorem tally_pos_iff : 0 < tally n tokens ↔ n ∈ tokens := by
  unfold tally
  rw [← List.count_pos_iff]
  omega

/-- What is found and taken out once is lost once. -/
theorem tally_eraseP {α : Type*} {key : α → τ} {p : α → Bool} {entries : List α} {entry : α}
    (hfind : entries.find? p = some entry) :
    tally n ((entries.eraseP p).map key) + hit n (key entry) = tally n (entries.map key) := by
  induction entries with
  | nil => cases hfind
  | cons first rest ih =>
    by_cases hp : p first = true
    · rw [List.find?_cons_of_pos hp] at hfind
      cases hfind
      rw [List.eraseP_cons_of_pos hp, List.map_cons, tally_cons]
      omega
    · rw [List.find?_cons_of_neg hp] at hfind
      rw [List.eraseP_cons_of_neg hp, List.map_cons, List.map_cons, tally_cons, tally_cons]
      have hrest := ih hfind
      omega

/-- An entry taken out of a list is lost once. -/
theorem tally_erase {α : Type*} [DecidableEq α] {key : α → τ} {entries : List α} {entry : α}
    (hmem : entry ∈ entries) :
    tally n ((entries.erase entry).map key) + hit n (key entry) = tally n (entries.map key) := by
  induction entries with
  | nil => cases hmem
  | cons first rest ih =>
    by_cases hfirst : first = entry
    · subst hfirst
      rw [List.erase_cons_head, List.map_cons, tally_cons]
      omega
    · have hrest : entry ∈ rest := by
        rcases List.mem_cons.mp hmem with heq | hrest
        · exact absurd heq.symm hfirst
        · exact hrest
      rw [List.erase_cons_tail (by simpa using hfirst), List.map_cons, List.map_cons, tally_cons,
        tally_cons]
      have htail := ih hrest
      omega

end Tally
