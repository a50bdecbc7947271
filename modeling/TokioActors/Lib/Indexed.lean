/-
# Lists with an index of positions

A list of entries under distinct keys, with a map from each key to the position
of its entry. An entry is found by its position, a new one goes to the end, and
an entry taken out moves every later one a place down, so the positions from there
on are written again. The lemmas say that the map stays the positions of the list,
and that what is read through it is what a search by key finds.
-/

import Mathlib.Data.Finmap
import Mathlib.Data.List.Nodup
import TokioActors.Lib.Keyed

namespace Indexed

universe u v

variable {α : Type u} {κ : Type v} [DecidableEq κ] (key : α → κ)

/-- The map holds the position of every entry, and nothing else. -/
structure Positions (entries : List α) (index : Finmap fun _ : κ => Nat) : Prop where
  found : ∀ {i : Nat} {entry : α}, entries[i]? = some entry → index.lookup (key entry) = some i
  held : ∀ {k : κ} {i : Nat}, index.lookup k = some i →
    ∃ entry, entries[i]? = some entry ∧ key entry = k

/-- Writes the positions again from one of them on. -/
def reindex (start : Nat) (entries : List α) (index : Finmap fun _ : κ => Nat) :
    Finmap fun _ : κ => Nat :=
  (entries.zipIdx.drop start).foldl (fun index place => index.insert (key place.1) place.2) index

variable {key} {entries : List α} {index : Finmap fun _ : κ => Nat} {k : κ} {i : Nat} {entry : α}

theorem positions_nil : Positions key ([] : List α) (∅ : Finmap fun _ : κ => Nat) := by
  refine ⟨fun h => by simp at h, fun h => ?_⟩
  rw [Finmap.lookup_empty] at h
  cases h

namespace Positions

section

variable (hpositions : Positions key entries index)

include hpositions

theorem nodup : (entries.map key).Nodup := by
  refine List.nodup_iff_getElem?_ne_getElem?.mpr fun i j hlt hj hsame => ?_
  rw [List.length_map] at hj
  rw [List.getElem?_map, List.getElem?_map, List.getElem?_eq_getElem hj,
    List.getElem?_eq_getElem (hlt.trans hj)] at hsame
  have hi := hpositions.found (List.getElem?_eq_getElem (hlt.trans hj))
  rw [Option.some.inj hsame, hpositions.found (List.getElem?_eq_getElem hj)] at hi
  exact Nat.ne_of_gt hlt (Option.some.inj hi)

/-- The entry at the position of a key is the one a search finds under it. -/
theorem find_eq : Keyed.find key k entries = (index.lookup k).bind (entries[·]?) := by
  cases hlookup : index.lookup k with
  | none =>
    refine Keyed.find_eq_none_iff.mpr fun hmem => ?_
    obtain ⟨entry, hentry, rfl⟩ := List.mem_map.mp hmem
    obtain ⟨i, hplace⟩ := List.mem_iff_getElem?.mp hentry
    rw [hpositions.found hplace] at hlookup
    cases hlookup
  | some i =>
    obtain ⟨entry, hplace, rfl⟩ := hpositions.held hlookup
    rw [Option.bind_some, hplace]
    exact Keyed.find_of_mem hpositions.nodup (List.mem_of_getElem? hplace)

/-- An entry under a new key goes to the end. -/
theorem push (habsent : index.lookup (key entry) = none) :
    Positions key (entries ++ [entry]) (index.insert (key entry) entries.length) := by
  constructor
  · intro i other hplace
    rw [List.getElem?_append] at hplace
    split at hplace
    · have hbefore := hpositions.found hplace
      have hne : key other ≠ key entry := by
        intro heq
        rw [heq, habsent] at hbefore
        cases hbefore
      rw [Finmap.lookup_insert_of_ne _ hne]
      exact hbefore
    · have hlast := (List.getElem?_eq_some_iff.mp hplace).1
      rw [List.mem_singleton.mp (List.mem_of_getElem? hplace), Finmap.lookup_insert]
      congr 1
      rw [List.length_singleton] at hlast
      omega
  · intro k i hlookup
    by_cases heq : k = key entry
    · rw [heq, Finmap.lookup_insert] at hlookup
      cases hlookup
      exact ⟨entry, List.getElem?_concat_length, heq.symm⟩
    · rw [Finmap.lookup_insert_of_ne _ heq] at hlookup
      obtain ⟨other, hplace, hkey⟩ := hpositions.held hlookup
      exact ⟨other, by rw [List.getElem?_append_left (List.getElem?_eq_some_iff.mp hplace).1,
        hplace],
        hkey⟩

/-- An entry that keeps its key may change in place. -/
theorem modify {f : α → α}
    (hkey : ∀ entry, key (f entry) = key entry) : Positions key (entries.modify i f) index := by
  constructor
  · intro j changed hplace
    rw [List.getElem?_modify] at hplace
    obtain ⟨entry, hentry, rfl⟩ := Option.map_eq_some_iff.mp hplace
    have hsame : key (if i = j then f entry else entry) = key entry := by
      split
      · exact hkey entry
      · rfl
    rw [← hpositions.found hentry, hsame]
  · intro k j hlookup
    obtain ⟨entry, hentry, hsame⟩ := hpositions.held hlookup
    refine ⟨if i = j then f entry else entry, ?_, ?_⟩
    · rw [List.getElem?_modify, hentry]
      split <;> rfl
    · split
      · rw [hkey, hsame]
      · exact hsame

end

end Positions

omit [DecidableEq κ] in
theorem keys_modify {f : α → α} (hkey : ∀ entry, key (f entry) = key entry) :
    (entries.modify i f).map key = entries.map key := by
  refine List.ext_getElem? fun j => ?_
  rw [List.getElem?_map, List.getElem?_map, List.getElem?_modify]
  cases entries[j]? with
  | none => rfl
  | some entry => by_cases heq : i = j <;> simp [heq, hkey]

/-! ## Taking an entry out -/

/-- Positions written one after the other: the last one under a key counts. -/
theorem lookup_foldl_insert {places : List (α × Nat)} (hnodup : (places.map (key ·.1)).Nodup) :
    (places.foldl (fun index place => index.insert (key place.1) place.2) index).lookup k =
      ((Keyed.find (key ·.1) k places).map Prod.snd).or (index.lookup k) := by
  induction places generalizing index with
  | nil => rfl
  | cons place places ih =>
    rw [List.map_cons, List.nodup_cons] at hnodup
    rw [List.foldl_cons, ih hnodup.2, Keyed.find_cons]
    split
    next heq =>
      rw [Keyed.find_eq_none_iff.mpr (heq ▸ hnodup.1), ← heq, Finmap.lookup_insert]
      rfl
    next hne => rw [Finmap.lookup_insert_of_ne _ (Ne.symm hne)]

theorem mem_drop_zipIdx {start : Nat} :
    (entry, i) ∈ entries.zipIdx.drop start ↔ start ≤ i ∧ entries[i]? = some entry := by
  simp only [List.mem_iff_getElem?, List.getElem?_drop, List.getElem?_zipIdx]
  constructor
  · rintro ⟨j, hplace⟩
    obtain ⟨other, hother, heq⟩ := Option.map_eq_some_iff.mp hplace
    cases heq
    exact ⟨by omega, by simpa using hother⟩
  · rintro ⟨hle, hentry⟩
    refine ⟨i - start, ?_⟩
    rw [Nat.add_sub_cancel' hle, hentry]
    simp

/-- Under distinct keys taking out a position takes out a key. -/
theorem eraseIdx_eq_remove (hnodup : (entries.map key).Nodup) (hplace : entries[i]? = some entry) :
    entries.eraseIdx i = Keyed.remove key (key entry) entries := by
  induction entries generalizing i with
  | nil => simp at hplace
  | cons first rest ih =>
    obtain ⟨hfirst, hrest⟩ := List.nodup_cons.mp hnodup
    cases i with
    | zero =>
      obtain rfl : first = entry := by simpa using hplace
      have hkept : Keyed.remove key (key first) rest = rest := by
        refine List.filter_eq_self.mpr fun other hother => bne_iff_ne.mpr fun heq => ?_
        exact hfirst (heq ▸ List.mem_map_of_mem hother)
      rw [List.eraseIdx_zero, List.tail_cons, Keyed.remove, List.filter_cons_of_neg (by simp)]
      exact hkept.symm
    | succ i =>
      have hmem := List.mem_of_getElem? (List.getElem?_cons_succ.symm.trans hplace)
      have hne : key first ≠ key entry := fun heq => hfirst (heq ▸ List.mem_map_of_mem hmem)
      rw [List.eraseIdx_cons_succ, ih hrest (by simpa using hplace), Keyed.remove, Keyed.remove,
        List.filter_cons_of_pos (by simpa using hne)]

/-- The entry under the key is taken out, and the positions behind it written again. -/
theorem Positions.erase (hpositions : Positions key entries index)
    (hlookup : index.lookup k = some i) :
    Positions key (entries.eraseIdx i) (reindex key i (entries.eraseIdx i) (index.erase k)) := by
  obtain ⟨gone, hgone, rfl⟩ := hpositions.held hlookup
  have hnodup : ((entries.eraseIdx i).map key).Nodup :=
    hpositions.nodup.sublist ((List.eraseIdx_sublist _ _).map _)
  have hplaces : (((entries.eraseIdx i).zipIdx.drop i).map (key ·.1)).Nodup := by
    refine hnodup.sublist ?_
    have hfirst : (entries.eraseIdx i).map key =
        (entries.eraseIdx i).zipIdx.map (key ·.1) := by
      rw [← Function.comp_def key Prod.fst, ← List.map_map, List.zipIdx_map_fst]
    rw [hfirst]
    exact (List.drop_sublist _ _).map _
  have hlook (k : κ) := @lookup_foldl_insert _ _ _ key (index.erase (key gone)) k _ hplaces
  have hbehind {entry : α} {j : Nat} (hle : i ≤ j)
      (hentry : (entries.eraseIdx i)[j]? = some entry) :
      Keyed.find (key ·.1) (key entry) ((entries.eraseIdx i).zipIdx.drop i) = some (entry, j) :=
    Keyed.find_of_mem hplaces (mem_drop_zipIdx.mpr ⟨hle, hentry⟩)
  constructor
  · intro j entry hentry
    rw [reindex, hlook]
    rcases Nat.lt_or_ge j i with hlt | hle
    · -- Nothing before the entry moved.
      rw [List.getElem?_eraseIdx_of_lt hlt] at hentry
      have hfind : Keyed.find (key ·.1) (key entry)
          ((entries.eraseIdx i).zipIdx.drop i) = none := by
        refine Keyed.find_eq_none_iff.mpr fun hmem => ?_
        obtain ⟨⟨other, m⟩, hother, hsame⟩ := List.mem_map.mp hmem
        obtain ⟨hle, hplace⟩ := mem_drop_zipIdx.mp hother
        rw [List.getElem?_eraseIdx_of_ge hle] at hplace
        have hpos := hpositions.found hplace
        rw [hsame, hpositions.found hentry] at hpos
        have := Option.some.inj hpos
        omega
      have hne : key entry ≠ key gone := by
        intro heq
        have hpos := hpositions.found hentry
        rw [heq, hlookup] at hpos
        exact Nat.ne_of_gt hlt (Option.some.inj hpos)
      rw [hfind, Finmap.lookup_erase_ne hne]
      exact hpositions.found hentry
    · rw [hbehind hle hentry]
      rfl
  · intro k j hfound
    rw [reindex, hlook] at hfound
    cases hfind : Keyed.find (key ·.1) k ((entries.eraseIdx i).zipIdx.drop i) with
    | some place =>
      rw [hfind] at hfound
      cases hfound
      have hkey := Keyed.key_of_find hfind
      exact ⟨place.1, (mem_drop_zipIdx.mp (Keyed.mem_of_find hfind)).2, hkey⟩
    | none =>
      rw [hfind] at hfound
      change (index.erase (key gone)).lookup k = some j at hfound
      by_cases heq : k = key gone
      · rw [heq, Finmap.lookup_erase] at hfound
        cases hfound
      rw [Finmap.lookup_erase_ne heq] at hfound
      obtain ⟨entry, hentry, rfl⟩ := hpositions.held hfound
      refine ⟨entry, ?_, rfl⟩
      rcases Nat.lt_trichotomy j i with hlt | rfl | hgt
      · rw [List.getElem?_eraseIdx_of_lt hlt]
        exact hentry
      · rw [hgone] at hentry
        exact absurd (congrArg key (Option.some.inj hentry)).symm heq
      · have hmoved : (entries.eraseIdx i)[j - 1]? = some entry := by
          rw [List.getElem?_eraseIdx_of_ge (by omega), Nat.sub_add_cancel (by omega)]
          exact hentry
        rw [hbehind (by omega) hmoved] at hfind
        cases hfind

end Indexed
