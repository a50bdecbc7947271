/-
# The budget of a subtree

A new actor raises the budgets of its ancestors from its parent upwards, and
stops at the first that is no smaller than what it brings. The larger value it
stops at may be one that another actor's raise has not carried upwards yet, so a
single raise proves nothing about the ancestors above. Of every token and its
parent, either the parent has what the token's budget and its own time come to,
or some raise is on its way to bring it; and whatever stands anywhere was brought
by a chain of descendants.
-/

import Mathlib.Data.List.MinMax
import TokioActors.Subtree.Turns

namespace TokioActors.Subtree

open Machine

def Hold.raising (place : Hold) : Bool :=
  match place.core with
  | .raises _ (_ :: _) _ | .bumps .. => true
  | _ => false

namespace Forest

open Machine.Family

/-- The largest sum of a chain of all tokens ever attached below. -/
def largestBelow (forest : Forest) (goal : Nat) : Nat :=
  ((List.range forest.size).filterMap (forest.chainSum goal)).foldr max 0

/-- The hold brings the parent what the node's budget and its own time come to. -/
def CarriesCore (forest : Forest) (node parent : Nat) : Hold → Prop
  | .raises _ (token :: _) candidate =>
    token = parent ∧ forest.lift node (forest.below node) ≤ candidate
  | .bumps _ token _ candidate => token = node ∧ forest.below node ≤ candidate
  | _ => False

def Carries (forest : Forest) (node parent : Nat) (place : Hold) : Prop :=
  forest.CarriesCore node parent place.core

theorem not_carries {forest : Forest} {node parent : Nat} {place : Hold}
    (hidle : place.raising = false) : ¬ forest.Carries node parent place := by
  unfold Carries
  unfold Hold.raising at hidle
  cases hcore : place.core with
  | raises self chain =>
    rw [hcore] at hidle
    cases chain with
    | nil => exact id
    | cons => cases hidle
  | bumps => simp [hcore] at hidle
  | _ => exact id

structure Budgeted (forest : Forest) (parties : List Hold) : Prop where
  rooted : Ancestry.Rooted forest.size forest.above
  own : ∀ node < forest.size, forest.own node ≤ u64Max
  fits : ∀ place ∈ parties, forest.Fits place
  brought : ∀ goal < forest.size, forest.below goal = 0 ∨
    ∃ node < forest.size, forest.chainSum goal node = some (forest.below goal)
  carried : ∀ node < forest.size, ∀ parent rest, forest.above node = parent :: rest →
    forest.lift node (forest.below node) ≤ forest.below parent ∨
      ∃ place ∈ parties, forest.Carries node parent place

section

variable {forest after : Forest} {goal node token : Nat} {change : Token → Token} {fresh : Token}
  {parties entering : List Hold} {place place' : Hold} {i : Nat}

section

variable (hbudgeted : forest.Budgeted parties)

include hbudgeted

/-- The invariant is about times, chains and budgets only. -/
theorem Budgeted.alike (halike : forest.Alike after) (hbelow : after.below = forest.below)
    : after.Budgeted parties where
  rooted := by
    rw [halike.size, halike.above]
    exact hbudgeted.rooted
  own := by
    rw [halike.size, halike.own]
    exact hbudgeted.own
  fits := fun place hplace => halike.fits (hbudgeted.fits place hplace)
  brought := by
    rw [halike.size, halike.chainSum, hbelow]
    exact hbudgeted.brought
  carried := by
    intro node hnode parent rest habove
    rw [halike.size] at hnode
    rw [halike.above] at habove
    rcases hbudgeted.carried node hnode parent rest habove with hle | ⟨place, hplace, hcarries⟩
    · rw [halike.lift, hbelow]
      exact Or.inl hle
    · refine Or.inr ⟨place, hplace, ?_⟩
      unfold Carries CarriesCore at hcarries ⊢
      rwa [halike.lift, hbelow]

theorem Budgeted.moves (hplace : parties[i]? = some place)
    (hfits : forest.Fits place') (hentering : ∀ other ∈ entering, forest.Fits other)
    (hcarries : ∀ node parent rest, node < forest.size → forest.above node = parent :: rest →
      forest.Carries node parent place →
        forest.lift node (forest.below node) ≤ forest.below parent ∨
          forest.Carries node parent place') :
    forest.Budgeted (parties.set i place' ++ entering) where
  rooted := hbudgeted.rooted
  own := hbudgeted.own
  brought := hbudgeted.brought
  fits := by
    intro other hother
    rcases List.mem_append.mp hother with hset | henters
    · rcases List.mem_or_eq_of_mem_set hset with hold | rfl
      · exact hbudgeted.fits other hold
      · exact hfits
    · exact hentering other henters
  carried := by
    intro node hnode parent rest habove
    by_cases hle : forest.lift node (forest.below node) ≤ forest.below parent
    · exact Or.inl hle
    · refine Or.inr (Pool.exists_after hplace (fun hcarried => ?_)
        ((hbudgeted.carried node hnode parent rest habove).resolve_left hle))
      exact (hcarries node parent rest hnode habove hcarried).resolve_left hle

/-- A new token enters with the hold that is to raise its parent's budget. -/
theorem Budgeted.add (habove : fresh.above = [] ∨
      ∃ parent < forest.size, fresh.above = parent :: forest.above parent)
    (hown : fresh.own ≤ u64Max) (hbelow : fresh.belowNanos = 0)
    (hfits : (forest.add fresh).Fits place)
    (hcarries : ∀ parent rest, fresh.above = parent :: rest →
      (forest.add fresh).Carries forest.size parent place) :
    (forest.add fresh).Budgeted (parties ++ [place]) := by
  have hfresh : (forest.add fresh).above forest.size = fresh.above := by
    unfold above
    rw [node_add_self]
  have hrooted : Ancestry.Rooted (forest.add fresh).size (forest.add fresh).above := by
    intro node hnode
    rcases Nat.lt_succ_iff_lt_or_eq.mp hnode with hold | rfl
    · rcases hbudgeted.rooted node hold with hroot | ⟨parent, hparent, heq⟩
      · exact Or.inl ((above_add_lt hold).trans hroot)
      · refine Or.inr ⟨parent, hparent, ?_⟩
        rw [above_add_lt hold, above_add_lt (hparent.trans hold), heq]
    · rcases habove with hroot | ⟨parent, hparent, heq⟩
      · exact Or.inl (hfresh.trans hroot)
      · refine Or.inr ⟨parent, hparent, ?_⟩
        rw [hfresh, above_add_lt hparent, heq]
  refine ⟨hrooted, ?_, ?_, ?_, ?_⟩
  · intro node hnode
    rcases Nat.lt_succ_iff_lt_or_eq.mp hnode with hold | rfl
    · rw [own_add_lt hold]
      exact hbudgeted.own node hold
    · unfold Forest.own
      rwa [node_add_self]
  · intro other hother
    rcases List.mem_append.mp hother with hold | henters
    · exact fits_add hbudgeted.rooted (hbudgeted.fits other hold)
    · rwa [List.mem_singleton.mp henters]
  · intro goal hgoal
    rcases Nat.lt_succ_iff_lt_or_eq.mp hgoal with hold | rfl
    · rw [below_add_lt hold]
      rcases hbudgeted.brought goal hold with hzero | ⟨node, hnode, hsum⟩
      · exact Or.inl hzero
      · refine Or.inr ⟨node, Nat.lt_succ_of_lt hnode, ?_⟩
        rw [chainSum_add hbudgeted.rooted hnode, hsum]
    · unfold below
      rw [node_add_self]
      exact Or.inl hbelow
  · intro node hnode parent rest hchain
    rcases Nat.lt_succ_iff_lt_or_eq.mp hnode with hold | rfl
    · rw [above_add_lt hold] at hchain
      have hparent : parent < forest.size := (hbudgeted.rooted.parent hold hchain).1.trans hold
      rw [lift_add_lt hold, below_add_lt hold, below_add_lt hparent]
      rcases hbudgeted.carried node hold parent rest hchain with hle | ⟨other, hother, hcarried⟩
      · exact Or.inl hle
      · refine Or.inr ⟨other, List.mem_append_left _ hother, ?_⟩
        unfold Carries CarriesCore at hcarried ⊢
        rwa [lift_add_lt hold, below_add_lt hold]
    · exact Or.inr ⟨place, List.mem_append_right _ List.mem_cons_self,
        hcarries parent rest (hfresh.symm.trans hchain)⟩

/-- A raise of one budget: what was to come to the token from the hold has come, and
what the token now brings its own parent is on its way with the same hold. -/
theorem Budgeted.raise {self candidate : Nat}
    {rest : List Nat} (hplace : parties[i]? = some (.raises self (token :: rest) candidate))
    (hlt : forest.below token < candidate) :
    (forest.modify token fun token => { token with belowNanos := candidate }).Budgeted
      (parties.set i (.bumps self token rest candidate)) := by
  obtain ⟨hi, _⟩ := List.getElem?_eq_some_iff.mp hplace
  have halong : forest.Along self (token :: rest) candidate :=
    hbudgeted.fits _ (List.mem_of_getElem? hplace)
  generalize hafter : (forest.modify token fun token => { token with belowNanos := candidate }) =
    after
  have halike : forest.Alike after := hafter ▸ alike_modify rfl rfl rfl
  have hself : after.below token = candidate := by
    subst hafter
    unfold below
    rw [node_modify_self]
  have hother {node : Nat} (hne : node ≠ token) : after.below node = forest.below node := by
    subst hafter
    unfold below
    rw [node_modify_ne hne]
  have hle (node : Nat) : forest.below node ≤ after.below node := by
    by_cases hnode : node = token
    · rw [hnode, hself]
      exact hlt.le
    · exact (hother hnode).ge
  refine ⟨?_, ?_, ?_, ?_, ?_⟩
  · rw [halike.size, halike.above]
    exact hbudgeted.rooted
  · rw [halike.size, halike.own]
    exact hbudgeted.own
  · intro place hmem
    rcases List.mem_or_eq_of_mem_set hmem with hold | rfl
    · exact halike.fits (hbudgeted.fits place hold)
    · exact halike.fits halong
  · intro goal hgoal
    rw [halike.size, halike.chainSum] at *
    by_cases htoken : goal = token
    · refine Or.inr ⟨self, halong.1, ?_⟩
      rw [htoken, hself, ← halong.2.2 token List.mem_cons_self, Ancestry.climb_cons_self]
    · rw [hother htoken]
      exact hbudgeted.brought goal hgoal
  · intro node hnode parent rest' habove
    rw [halike.size] at hnode
    rw [halike.above] at habove
    by_cases htoken : node = token
    · exact Or.inr ⟨_, List.mem_set hi _, htoken.symm, by rw [htoken, hself]⟩
    rw [halike.lift, hother htoken]
    rcases hbudgeted.carried node hnode parent rest' habove with hsettled | ⟨other, hmem, hcarries⟩
    · exact Or.inl (hsettled.trans (hle parent))
    obtain ⟨j, hj⟩ := List.mem_iff_getElem?.mp hmem
    by_cases hij : i = j
    · subst hij
      cases hplace.symm.trans hj
      obtain ⟨rfl, hcandidate⟩ := hcarries
      exact Or.inl (hcandidate.trans hself.ge)
    · refine Or.inr ⟨other, List.mem_of_getElem? ((List.getElem?_set_ne hij).trans hj), ?_⟩
      unfold Carries CarriesCore at hcarries ⊢
      rwa [halike.lift, hother htoken]

end

theorem fits_raised {self : Nat} (hself : self < forest.size) :
    forest.Fits (forest.raised self) := by
  unfold raised
  split
  next hinfinity => exact ⟨hself, hinfinity, rfl⟩
  next hinfinity => exact ⟨hself, (if_neg hinfinity).symm⟩

theorem Budgeted.turn (hbudgeted : forest.Budgeted parties) (hplace : parties[i]? = some place)
    (hturn : Turn forest place after place' entering) :
    after.Budgeted (parties.set i place' ++ entering) := by
  have hfits : forest.Fits place := hbudgeted.fits place (List.mem_of_getElem? hplace)
  have hsame : parties.set i place = parties := by
    obtain ⟨hi, rfl⟩ := List.getElem?_eq_some_iff.mp hplace
    exact List.set_getElem_self hi
  cases hturn with
  | root =>
    rw [hsame]
    refine hbudgeted.add (Or.inl rfl) (Nat.zero_le _) rfl ⟨Nat.lt_succ_self _, ?_⟩ (by simp)
    unfold infinity
    rw [node_add_self]
    rfl
  | @attach parent own infinity change hparent hquiet hown =>
    rw [hsame]
    have halike : forest.Alike (forest.modify parent change) := hquiet.alike
    refine (hbudgeted.alike halike hquiet.below_eq).add
      (Or.inr ⟨parent, hparent, by rw [halike.above]⟩) hown rfl ?_ ?_
    · refine ⟨Nat.lt_succ_self _, ⟨[], ?_⟩, fun goal _ => ?_⟩
      · unfold Forest.above
        rw [← size_modify, node_add_self]
        rfl
      · unfold chainSum Forest.own Forest.above
        rw [← size_modify, node_add_self]
    · intro above rest habove
      obtain ⟨rfl, rfl⟩ := List.cons.inj habove
      refine ⟨rfl, ?_⟩
      unfold lift Forest.own below
      rw [node_add_self]
      exact Nat.min_le_left ..
  | raise hlt =>
    rw [List.append_nil]
    exact hbudgeted.raise hplace hlt
  | @stop self candidate chain hle =>
    refine hbudgeted.moves hplace (fits_raised hfits.1) (by simp) ?_
    intro node parent rest _ _ hcarries
    cases chain with
    | nil => exact hcarries.elim
    | cons token rest' =>
      obtain ⟨rfl, hcandidate⟩ := hcarries
      exact Or.inl (hcandidate.trans (hle token rest' rfl))
  | @bump self token candidate rest change hquiet =>
    have halike : forest.Alike (forest.modify token change) := hquiet.alike
    have halong : forest.Along self (token :: rest) candidate := hfits
    refine (hbudgeted.alike halike hquiet.below_eq).moves hplace
      (halike.fits (halong.pass hbudgeted.rooted)) (by simp) ?_
    intro node parent rest' _ habove hcarries
    obtain ⟨hself, ⟨before, hbefore⟩, _⟩ := halong
    obtain ⟨rfl, hcandidate⟩ := hcarries
    rw [halike.above, ← (hbudgeted.rooted.behind hself hbefore).2] at habove
    subst habove
    refine Or.inr ⟨rfl, ?_⟩
    rw [halike.lift]
    exact lift_mono hcandidate
  | @count self token rest done =>
    have halike : forest.Alike (forest.modify token fun token =>
        { token with
          infLive := min (token.infLive + 1) u32Max
          infGen := wrappingAdd token.infGen 1 }) :=
      alike_modify rfl rfl rfl
    refine (hbudgeted.alike halike (below_modify rfl)).moves hplace ?_ (by simp) ?_
    · obtain ⟨hself, hinfinity, habove⟩ := hfits
      refine halike.fits ⟨hself, hinfinity, ?_⟩
      rw [List.append_assoc, List.singleton_append, habove]
    · exact fun _ _ _ _ _ hcarries => hcarries.elim
  | counted hquiet =>
    refine (hbudgeted.alike hquiet.alike hquiet.below_eq).moves hplace ?_ (by simp)
      fun _ _ _ _ _ hcarries => hcarries.elim
    obtain ⟨hself, hinfinity, habove⟩ := hfits
    refine hquiet.alike.fits ⟨hself, ?_⟩
    rw [if_pos hinfinity, ← habove, List.append_nil]
  | @ends self mark =>
    refine hbudgeted.moves hplace ?_ (by simp) fun _ _ _ _ _ hcarries => hcarries.elim
    obtain ⟨hself, hmark⟩ := hfits
    cases mark with
    | nil => trivial
    | cons =>
      refine ⟨hself, ?_, [], rfl⟩
      split at hmark
      · exact hmark.symm
      · cases hmark
  | @uncount self token mark rest =>
    refine (hbudgeted.alike (alike_modify rfl rfl rfl) (below_modify rfl)).moves hplace ?_
      (by simp) ?_
    · obtain ⟨hself, habove, before, hbefore⟩ := hfits
      refine Alike.fits (alike_modify rfl rfl rfl) ?_
      cases rest with
      | nil => trivial
      | cons => exact ⟨hself, habove, before ++ [token], by simp [hbefore]⟩
    · exact fun _ _ _ _ _ hcarries => hcarries.elim
  | quiet hquiet hcore hentering =>
    refine (hbudgeted.alike hquiet.alike hquiet.below_eq).moves hplace ?_ ?_ ?_
    · refine hquiet.alike.fits ?_
      unfold Fits
      rwa [hcore]
    · intro other hother
      unfold Fits
      rw [hentering other hother]
      trivial
    · intro node parent rest _ _ hcarries
      unfold Carries
      rw [hcore]
      exact Or.inr hcarries

/-! ## Whole runs -/

variable {allowed : Pool Forest Hold → Nat × HoldAction → Prop} {pool later : Pool Forest Hold}

theorem Budgeted.reached (hreach : Reaches (Pool.step next) allowed start pool) :
    pool.shared.Budgeted pool.parties := by
  refine @Pool.invariant _ _ _ next allowed start pool
    (fun pool => pool.shared.Budgeted pool.parties) ?_ ?_ hreach
  · exact ⟨fun _ h => absurd h (Nat.not_lt_zero _), fun _ h => absurd h (Nat.not_lt_zero _),
      by simp [start, Fits, FitsCore, Hold.core], fun _ h => absurd h (Nat.not_lt_zero _),
      fun _ h => absurd h (Nat.not_lt_zero _)⟩
  · intro pool i action place place' after entering hbudgeted _ hplace hnext
    exact hbudgeted.turn hplace (turn_of_next hnext)

/-- No step makes the budget of a token smaller. -/
theorem Turn.below_le (hturn : Turn forest place after place' entering)
    (hnode : node < forest.size) :
    node < after.size ∧ forest.below node ≤ after.below node := by
  cases hturn with
  | root => exact ⟨Nat.lt_succ_of_lt hnode, (below_add_lt hnode).ge⟩
  | attach hparent hquiet =>
    refine ⟨Nat.lt_succ_of_lt hnode, ?_⟩
    rw [below_add_lt (by exact hnode), hquiet.below_eq]
  | @raise self token candidate rest hlt =>
    refine ⟨hnode, ?_⟩
    unfold below
    by_cases htoken : node = token
    · rw [htoken, node_modify_self]
      exact hlt.le
    · rw [node_modify_ne htoken]
  | stop | ends => exact ⟨hnode, le_rfl⟩
  | bump hquiet | counted hquiet | quiet hquiet => exact ⟨hnode, hquiet.below_eq.ge node⟩
  | count | uncount => exact ⟨hnode, (below_modify rfl).ge node⟩

theorem below_le_later (hreach : Reaches (Pool.step next) allowed pool later)
    (hnode : node < pool.shared.size) : pool.shared.below node ≤ later.shared.below node := by
  suffices hboth : node < later.shared.size ∧ pool.shared.below node ≤ later.shared.below node from
    hboth.2
  refine @Pool.invariant _ _ _ next allowed pool later
    (fun later => node < later.shared.size ∧ pool.shared.below node ≤ later.shared.below node)
    ⟨hnode, le_rfl⟩ ?_ hreach
  intro later i action place place' after entering hlater _ hplace hnext
  obtain ⟨hsize, hle⟩ := (turn_of_next hnext).below_le hlater.1
  exact ⟨hsize, hlater.2.trans hle⟩

/-- Without a raise on its way no budget is short of a chain below it. -/
theorem Budgeted.chainSum_le (hbudgeted : forest.Budgeted parties)
    (hquiet : ∀ place ∈ parties, place.raising = false) {sum : Nat} (hnode : node < forest.size)
    (hsum : forest.chainSum goal node = some sum) : sum ≤ forest.below goal := by
  have hsettled : ∀ node < forest.size, ∀ parent rest, forest.above node = parent :: rest →
      forest.lift node (forest.below node) ≤ forest.below parent := by
    intro node hnode parent rest habove
    rcases hbudgeted.carried node hnode parent rest habove with hle | ⟨place, hplace, hcarries⟩
    · exact hle
    · exact absurd hcarries (not_carries (hquiet place hplace))
  rcases hbudgeted.rooted node hnode with hroot | ⟨parent, hparent, habove⟩
  · unfold chainSum at hsum
    rw [hroot] at hsum
    cases hsum
  · unfold chainSum at hsum
    rw [habove] at hsum
    refine Ancestry.climb_le hbudgeted.rooted (fun _ _ => lift_mono) hsettled
      (hparent.trans hnode) ?_ hsum
    have hown : forest.own node ≤ forest.lift node (forest.below node) :=
      le_min (Nat.le_add_right _ _) (hbudgeted.own node hnode)
    exact hown.trans (hsettled node hnode parent _ habove)

/-- Once the raises have finished every budget is the largest sum of a chain below. -/
theorem Budgeted.below_eq_largest (hbudgeted : forest.Budgeted parties)
    (hquiet : ∀ place ∈ parties, place.raising = false) (hgoal : goal < forest.size) :
    forest.below goal = forest.largestBelow goal := by
  unfold largestBelow
  refine le_antisymm ?_ (List.max_le_of_forall_le _ _ fun sum hmem => ?_)
  · rcases hbudgeted.brought goal hgoal with hzero | ⟨node, hnode, hsum⟩
    · rw [hzero]
      exact Nat.zero_le _
    · refine List.le_max_of_le (List.mem_filterMap.mpr ⟨node, ?_, hsum⟩) le_rfl
      exact List.mem_range.mpr hnode
  · obtain ⟨node, hnode, hsum⟩ := List.mem_filterMap.mp hmem
    exact hbudgeted.chainSum_le hquiet (List.mem_range.mp hnode) hsum

end

end Forest

end TokioActors.Subtree
