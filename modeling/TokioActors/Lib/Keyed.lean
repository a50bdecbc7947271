/-
# Keyed lists

A list whose entries carry a key, read by the first entry under a key, changed
in place and shortened by key. The order of the entries matters to the reader,
so the list is not replaced by a map; the lemmas say that each operation acts
under its own key and leaves every other key alone.
-/

import Mathlib.Data.List.Basic
import Mathlib.Data.List.Nodup

namespace Keyed

universe u v

variable {α : Type u} {κ : Type v} [DecidableEq κ] (key : α → κ)

/-- The first entry under the key. -/
def find (k : κ) (entries : List α) : Option α := entries.find? fun entry => key entry == k

/-- Changes the entries under the key. -/
def update (k : κ) (f : α → α) (entries : List α) : List α :=
  entries.map fun entry => if key entry = k then f entry else entry

/-- Drops the entries under the key. -/
def remove (k : κ) (entries : List α) : List α := entries.filter fun entry => key entry != k

variable {key} {k other : κ} {f : α → α} {entries : List α} {entry : α}

@[simp] theorem find_nil : find key k ([] : List α) = none := rfl

theorem find_cons : find key k (entry :: entries) =
    if key entry = k then some entry else find key k entries := by
  unfold find
  by_cases h : key entry = k <;> simp [h]

theorem key_of_find (hfind : find key k entries = some entry) : key entry = k := by
  have hkey := List.find?_some hfind
  simpa using hkey

theorem mem_of_find (hfind : find key k entries = some entry) : entry ∈ entries :=
  List.mem_of_find?_eq_some hfind

theorem find_eq_none_iff : find key k entries = none ↔ k ∉ entries.map key := by
  simp only [find, List.find?_eq_none, List.mem_map, not_exists, not_and, beq_iff_eq]

theorem find_isSome_iff : (find key k entries).isSome ↔ k ∈ entries.map key := by
  rw [Option.isSome_iff_ne_none, ne_eq, find_eq_none_iff, not_not]

/-- Under distinct keys an entry is the one found under its key. -/
theorem find_of_mem (hnodup : (entries.map key).Nodup) (hmem : entry ∈ entries) :
    find key (key entry) entries = some entry := by
  induction entries with
  | nil => cases hmem
  | cons first rest ih =>
    rw [List.map_cons, List.nodup_cons] at hnodup
    rw [find_cons]
    rcases List.mem_cons.mp hmem with rfl | hrest
    · simp
    · have hne : key first ≠ key entry := by
        intro heq
        exact hnodup.1 (heq ▸ List.mem_map_of_mem hrest)
      rw [if_neg hne]
      exact ih hnodup.2 hrest

/-- An update that keeps keys acts on what is found under its key only. -/
theorem find_update (hkey : ∀ entry, key (f entry) = key entry) :
    find key other (update key k f entries) =
      if other = k then (find key k entries).map f else find key other entries := by
  induction entries with
  | nil => simp [update]
  | cons first rest ih =>
    rw [update, List.map_cons, find_cons, find_cons, find_cons, ← update, ih]
    by_cases hfirst : key first = k
    · by_cases hother : other = k
      · subst hother
        simp [hfirst, hkey]
      · have hne : key (f first) ≠ other := by
          rw [hkey, hfirst]
          exact Ne.symm hother
        simp [hfirst, hne, hother, Ne.symm hother]
    · by_cases hother : other = k
      · subst hother
        simp [hfirst]
      · simp [hfirst, hother]

theorem keys_update (hkey : ∀ entry, key (f entry) = key entry) :
    (update key k f entries).map key = entries.map key := by
  rw [update, List.map_map]
  apply List.map_congr_left
  intro entry _
  by_cases h : key entry = k <;> simp [h, hkey]

/-- Removing a key leaves every other key as it was. -/
theorem find_remove : find key other (remove key k entries) =
    if other = k then none else find key other entries := by
  induction entries with
  | nil => simp [remove]
  | cons first rest ih =>
    by_cases hfirst : key first = k
    · have hdrop : remove key k (first :: rest) = remove key k rest := by simp [remove, hfirst]
      rw [hdrop, ih, find_cons]
      by_cases hother : other = k
      · simp [hother]
      · have hne : key first ≠ other := by rw [hfirst]; exact Ne.symm hother
        simp [hother, hne]
    · have hkeep : remove key k (first :: rest) = first :: remove key k rest := by
        simp [remove, hfirst]
      rw [hkeep, find_cons, find_cons, ih]
      by_cases hother : other = k
      · have hne : key first ≠ other := by rw [hother]; exact hfirst
        rw [if_neg hne, if_pos hother, if_pos hother]
      · simp only [if_neg hother]

theorem keys_remove : (remove key k entries).map key = (entries.map key).filter (· != k) := by
  rw [remove, List.filter_map]
  rfl

theorem keys_remove_sublist : ((remove key k entries).map key).Sublist (entries.map key) := by
  rw [keys_remove]
  exact List.filter_sublist

/-- An entry under a new key goes to the end. -/
theorem find_append : find key k (entries ++ [entry]) =
    (find key k entries).or (if key entry = k then some entry else none) := by
  unfold find
  rw [List.find?_append]
  by_cases h : key entry = k <;> simp [h]

end Keyed
