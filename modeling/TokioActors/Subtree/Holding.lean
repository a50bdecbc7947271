/-
# Who keeps a token

A token is dropped, and its subtree reads as gone, with the last reference to it.
The references are those of the holds, of the marks of counted supervisors, of
restarts on their way, and of the tokens of the actors below that are not dropped
themselves. The reference count of every token is the number of these, so a
token is kept as long as anything of its subtree is.
-/

import TokioActors.Subtree.Counts

namespace TokioActors.Subtree

open Machine Hold

def headRef (goal : Nat) : List Nat → ℤ
  | parent :: _ => if parent = goal then 1 else 0
  | [] => 0

/-- The reference a token that is not dropped has to its parent. -/
def Token.refTo (goal : Nat) (token : Token) : ℤ :=
  if token.gone then 0 else headRef goal token.above

namespace Hold

/-- The references to the token that someone at this point has. -/
def refsTo (goal : Nat) : Hold → ℤ
  | .raises self _ _ | .bumps self _ _ _ | .counts self _ _ => headRef goal [self]
  | .lives self mark => headRef goal [self] + headRef goal mark
  | .uncounts _ mark _ => headRef goal mark
  | .keeps token => headRef goal [token]
  | .unrefs token next => headRef goal [token] + next.refsTo goal
  | .wakes _ next => next.refsTo goal
  | .world | .releases _ | .finished => 0

/-- The token that a hold, or someone who keeps it, has not let go of. -/
def keeping : Hold → Option Nat
  | .raises self _ _ | .bumps self _ _ _ | .counts self _ _ | .lives self _ => some self
  | .keeps token | .unrefs token _ => some token
  | .wakes _ next => next.keeping
  | .world | .uncounts .. | .releases _ | .finished => none

end Hold

variable {goal : Nat}

theorem headRef_nonneg {chain : List Nat} : 0 ≤ headRef goal chain := by
  cases chain with
  | nil => exact le_rfl
  | cons =>
    simp only [headRef]
    split <;> decide

theorem Token.refTo_nonneg {token : Token} : 0 ≤ token.refTo goal := by
  unfold Token.refTo
  split
  · exact le_rfl
  · exact headRef_nonneg

variable {place : Hold}

theorem Hold.refsTo_nonneg : 0 ≤ place.refsTo goal := by
  induction place with
  | world | releases | finished => exact le_rfl
  | raises | bumps | counts | uncounts | keeps => exact headRef_nonneg
  | lives => exact Int.add_nonneg headRef_nonneg headRef_nonneg
  | unrefs token next ih => exact Int.add_nonneg headRef_nonneg ih
  | wakes token next ih => exact ih

/-- What a hold still has to do on the counts needs no more than it has. -/
theorem Hold.refsTo_core_le : place.core.refsTo goal ≤ place.refsTo goal := by
  induction place with
  | world | raises | bumps | counts | lives | finished | releases => exact le_rfl
  | keeps => exact headRef_nonneg
  | uncounts self mark rest =>
    cases rest with
    | nil => exact headRef_nonneg
    | cons => exact le_rfl
  | unrefs token next =>
    have hnonneg : 0 ≤ headRef goal [token] := headRef_nonneg
    change next.core.refsTo goal ≤ headRef goal [token] + next.refsTo goal
    omega
  | wakes token next ih => exact ih

/-- Who keeps a token has a reference to it. -/
theorem Hold.one_le_refsTo {token : Nat} (hkeeping : place.keeping = some token) :
    1 ≤ place.refsTo token := by
  have hself : headRef token [token] = 1 := if_pos rfl
  induction place with
  | world | releases | finished | uncounts => cases hkeeping
  | raises | bumps | counts | keeps =>
    cases hkeeping
    exact hself.ge
  | lives self mark =>
    cases hkeeping
    have hmark : 0 ≤ headRef token mark := headRef_nonneg
    change 1 ≤ headRef token [token] + _
    omega
  | unrefs self next =>
    cases hkeeping
    have hnext : 0 ≤ next.refsTo token := refsTo_nonneg
    change 1 ≤ headRef token [token] + _
    omega
  | wakes self next ih => exact ih hkeeping

namespace Forest

open Machine.Family

def refsAt (forest : Forest) (goal : Nat) : ℤ :=
  if goal < forest.size then (forest.node goal).refs else 0

/-- Every reference count is the number of references. -/
structure Held (forest : Forest) (parties : List Hold) : Prop where
  refs : ∀ goal, forest.refsAt goal = Pool.weigh (refsTo goal) parties +
    Pool.weigh (Token.refTo goal) forest.nodes
  gone : ∀ goal, (forest.node goal).gone = true → forest.refsAt goal = 0

section

variable {forest after : Forest} {goal node token : Nat} {change : Token → Token} {fresh : Token}
  {parties entering : List Hold} {place place' : Hold} {i : Nat} {following : Hold}

theorem refsAt_nonneg : 0 ≤ forest.refsAt goal := by
  unfold refsAt
  split
  · exact Int.natCast_nonneg _
  · exact le_rfl

section

variable (hheld : forest.Held parties)

include hheld

/-- Who keeps a token keeps it from being dropped. -/
theorem Held.not_gone_of_ref (hplace : place ∈ parties)
    (href : 1 ≤ place.refsTo goal) : goal < forest.size ∧ (forest.node goal).gone = false := by
  obtain ⟨i, hi⟩ := List.mem_iff_getElem?.mp hplace
  have hle : place.refsTo goal ≤ Pool.weigh (refsTo goal) parties :=
    Pool.weight_le_weigh (fun _ => refsTo_nonneg) hi
  have htokens : 0 ≤ Pool.weigh (Token.refTo goal) forest.nodes :=
    Pool.weigh_nonneg fun _ _ => Token.refTo_nonneg
  have hrefs := hheld.refs goal
  have hpos : 1 ≤ forest.refsAt goal := by omega
  constructor
  · by_contra hsize
    rw [refsAt, if_neg hsize] at hpos
    omega
  · cases hgone : (forest.node goal).gone with
    | false => rfl
    | true =>
      have hzero := hheld.gone goal hgone
      omega

/-- A token that is not dropped keeps its parent. -/
theorem Held.not_gone_parent {parent : Nat} {rest : List Nat}
    (hnode : node < forest.size) (hgone : (forest.node node).gone = false)
    (habove : forest.above node = parent :: rest) : (forest.node parent).gone = false := by
  have hparent : (forest.node node).above = parent :: rest := habove
  have hone : (forest.node node).refTo parent = 1 := by
    simp [Token.refTo, hgone, hparent, headRef]
  have hle : (forest.node node).refTo parent ≤
      Pool.weigh (Token.refTo parent) forest.nodes :=
    Pool.weight_le_weigh (fun _ => Token.refTo_nonneg) (getElem?_nodes hnode)
  have hparties : 0 ≤ Pool.weigh (refsTo parent) parties :=
    Pool.weigh_nonneg fun _ _ => refsTo_nonneg
  have hrefs := hheld.refs parent
  cases hdropped : (forest.node parent).gone with
  | false => rfl
  | true =>
    have hzero := hheld.gone parent hdropped
    omega

/-- A token that is not dropped keeps all its ancestors. -/
theorem Held.not_gone_above (hrooted : Ancestry.Rooted forest.size forest.above) {ancestor : Nat}
    (hnode : node < forest.size) (hgone : (forest.node node).gone = false)
    (hmem : ancestor ∈ forest.above node) : (forest.node ancestor).gone = false := by
  induction node using Nat.strongRecOn with
  | _ node ih =>
    rcases hrooted node hnode with hroot | ⟨parent, hparent, habove⟩
    · rw [hroot] at hmem
      cases hmem
    · have hkept : (forest.node parent).gone = false := hheld.not_gone_parent hnode hgone habove
      rw [habove] at hmem
      rcases List.mem_cons.mp hmem with rfl | hmem
      · exact hkept
      · exact ih parent hparent (hparent.trans hnode) hkept hmem

/-! ## One step -/

/-- A step over the same tokens, none of them dropped by it. -/
theorem Held.moves (hplace : parties[i]? = some place)
    (hgone : ∀ node, (after.node node).gone = (forest.node node).gone)
    (htokens : ∀ goal, Pool.weigh (Token.refTo goal) after.nodes =
      Pool.weigh (Token.refTo goal) forest.nodes)
    (hrefs : ∀ goal, after.refsAt goal + place.refsTo goal = forest.refsAt goal +
      place'.refsTo goal + Pool.weigh (refsTo goal) entering)
    (hkept : ∀ goal, after.refsAt goal ≤ forest.refsAt goal ∨
      (forest.node goal).gone = false) :
    after.Held (parties.set i place' ++ entering) where
  refs := by
    intro goal
    have hstep : Pool.weigh (refsTo goal) (parties.set i place' ++ entering) +
        place.refsTo goal = Pool.weigh (refsTo goal) parties +
          place'.refsTo goal + Pool.weigh (refsTo goal) entering :=
      Pool.weigh_step hplace
    have hbefore := hheld.refs goal
    have hafter := hrefs goal
    rw [htokens goal]
    omega
  gone := by
    intro goal hafter
    rw [hgone] at hafter
    rcases hkept goal with hle | hfalse
    · have hzero := hheld.gone goal hafter
      have hnonneg : 0 ≤ after.refsAt goal := refsAt_nonneg
      omega
    · rw [hfalse] at hafter
      cases hafter

end

theorem weigh_tokens_modify (hgone : (change (forest.node token)).gone = (forest.node token).gone)
    (habove : (change (forest.node token)).above = (forest.node token).above) :
    Pool.weigh (Token.refTo goal) (forest.modify token change).nodes =
      Pool.weigh (Token.refTo goal) forest.nodes := by
  refine weigh_nodes_same ?_
  unfold Token.refTo
  rw [hgone, habove]

theorem refsAt_modify_ne (hne : goal ≠ token) :
    (forest.modify token change).refsAt goal = forest.refsAt goal := by
  unfold refsAt
  rw [size_modify, node_modify_ne hne]

theorem refsAt_modify_same (hrefs : (change (forest.node token)).refs = (forest.node token).refs) :
    (forest.modify token change).refsAt goal = forest.refsAt goal := by
  unfold refsAt
  rw [size_modify, node_modify_same hrefs]

theorem refsAt_modify_self (htoken : token < forest.size) :
    (forest.modify token change).refsAt token = (change (forest.node token)).refs := by
  unfold refsAt
  rw [size_modify, if_pos htoken, node_modify_self]

theorem refsAt_eq (htoken : token < forest.size) :
    forest.refsAt token = (forest.node token).refs := if_pos htoken

theorem headRef_ne (hne : goal ≠ token) {rest : List Nat} : headRef goal (token :: rest) = 0 :=
  if_neg hne.symm

theorem headRef_self {rest : List Nat} : headRef token (token :: rest) = 1 := if_pos rfl

theorem Held.quietly (hheld : forest.Held parties) (hplace : parties[i]? = some place)
    (hrefs : (change (forest.node token)).refs = (forest.node token).refs)
    (hgone : (change (forest.node token)).gone = (forest.node token).gone)
    (habove : (change (forest.node token)).above = (forest.node token).above)
    (hsame : ∀ goal, place'.refsTo goal = place.refsTo goal)
    (hentering : ∀ goal, Pool.weigh (refsTo goal) entering = 0) :
    (forest.modify token change).Held (parties.set i place' ++ entering) := by
  refine hheld.moves hplace (fun _ => node_modify_same hgone)
    (fun _ => weigh_tokens_modify hgone habove) (fun goal => ?_) fun goal => Or.inl ?_
  · rw [refsAt_modify_same hrefs, hsame, hentering, add_zero]
  · exact (refsAt_modify_same hrefs).le

theorem Held.takes (hheld : forest.Held parties) (hplace : parties[i]? = some place)
    (htoken : token < forest.size) (hkept : (forest.node token).gone = false)
    (htakes : ∀ goal, place'.refsTo goal + Pool.weigh (refsTo goal) entering =
      place.refsTo goal + headRef goal [token]) :
    (forest.modify token fun token => { token with refs := token.refs + 1 }).Held
      (parties.set i place' ++ entering) := by
  refine hheld.moves hplace (fun _ => node_modify_same rfl)
    (fun _ => weigh_tokens_modify rfl rfl) (fun goal => ?_) fun goal => ?_
  · have htake := htakes goal
    by_cases hgoal : goal = token
    · subst hgoal
      rw [headRef_self] at htake
      rw [refsAt_modify_self htoken, refsAt_eq htoken]
      push_cast
      omega
    · rw [headRef_ne hgoal] at htake
      rw [refsAt_modify_ne hgoal]
      omega
  · by_cases hgoal : goal = token
    · exact Or.inr (hgoal ▸ hkept)
    · exact Or.inl (refsAt_modify_ne hgoal).le

theorem Held.letsGo (hheld : forest.Held parties)
    (hplace : parties[i]? = some (.unrefs token following))
    (hmore : ¬ (forest.node token).refs ≤ 1) :
    (forest.modify token fun token => { token with refs := token.refs - 1 }).Held
      (parties.set i following ++ []) := by
  obtain ⟨htoken, _⟩ := hheld.not_gone_of_ref (List.mem_of_getElem? hplace)
    (one_le_refsTo (rfl : (unrefs token following).keeping = some token))
  have hrefs (goal : Nat) : (forest.modify token fun token =>
      { token with refs := token.refs - 1 }).refsAt goal + headRef goal [token] =
      forest.refsAt goal := by
    by_cases hgoal : goal = token
    · subst hgoal
      rw [headRef_self, refsAt_modify_self htoken, refsAt_eq htoken]
      push_cast
      omega
    · rw [headRef_ne hgoal, refsAt_modify_ne hgoal, add_zero]
  refine hheld.moves hplace (fun _ => node_modify_same rfl)
    (fun _ => weigh_tokens_modify rfl rfl) (fun goal => ?_) fun goal => Or.inl ?_
  · have hgoal := hrefs goal
    change _ + (headRef goal [token] + following.refsTo goal) = _ + following.refsTo goal + 0
    omega
  · have hgoal := hrefs goal
    have hnonneg : 0 ≤ headRef goal [token] := headRef_nonneg
    omega

theorem refsTo_unmark {mark : List Nat} :
    (unmark mark following).refsTo goal = headRef goal mark + following.refsTo goal := by
  cases mark with
  | nil => simp [unmark, headRef]
  | cons => rfl

section

variable (hheld : forest.Held parties) {action : HoldAction}

include hheld

/-- The last reference: the token is dropped, and its own reference to its parent is
let go of next. -/
theorem Held.drops (hplace : parties[i]? = some (.unrefs token following))
    (hlast : (forest.node token).refs ≤ 1) :
    (forest.modify token fun token => { token with refs := 0, gone := true }).Held
      (parties.set i (.wakes token (unmark (forest.node token).above following)) ++ []) := by
  have hone : 1 ≤ (unrefs token following).refsTo token := one_le_refsTo rfl
  obtain ⟨htoken, hkept⟩ := hheld.not_gone_of_ref (List.mem_of_getElem? hplace) hone
  have hrefs : (forest.node token).refs = 1 := by
    have hle : (unrefs token following).refsTo token ≤
        Pool.weigh (refsTo token) parties :=
      Pool.weight_le_weigh (fun _ => refsTo_nonneg) hplace
    have htokens : 0 ≤ Pool.weigh (Token.refTo token) forest.nodes :=
      Pool.weigh_nonneg fun _ _ => Token.refTo_nonneg
    have hsum := hheld.refs token
    rw [refsAt_eq htoken] at hsum
    omega
  constructor
  · intro goal
    have hstep : Pool.weigh (refsTo goal)
        (parties.set i (.wakes token (unmark (forest.node token).above following)) ++ []) +
          (unrefs token following).refsTo goal =
        Pool.weigh (refsTo goal) parties +
          (wakes token (unmark (forest.node token).above following)).refsTo goal +
            Pool.weigh (refsTo goal) [] := Pool.weigh_step hplace
    have hset : Pool.weigh (Token.refTo goal) (forest.modify token fun token =>
        { token with refs := 0, gone := true }).nodes + (forest.node token).refTo goal =
        Pool.weigh (Token.refTo goal) forest.nodes + 0 := weigh_nodes_change htoken
    have hown : (forest.node token).refTo goal = headRef goal (forest.node token).above := by
      simp [Token.refTo, hkept]
    have hwakes : (wakes token (unmark (forest.node token).above following)).refsTo goal =
        headRef goal (forest.node token).above + following.refsTo goal := refsTo_unmark
    have hunrefs : (unrefs token following).refsTo goal =
        headRef goal [token] + following.refsTo goal := rfl
    have hsum := hheld.refs goal
    rw [Pool.weigh_nil, hwakes, hunrefs] at hstep
    by_cases hgoal : goal = token
    · subst hgoal
      rw [headRef_self] at hstep
      rw [refsAt_eq htoken, hrefs] at hsum
      rw [refsAt_modify_self htoken]
      push_cast at hsum ⊢
      omega
    · rw [headRef_ne hgoal] at hstep
      rw [refsAt_modify_ne hgoal]
      omega
  · intro goal hgone
    by_cases hgoal : goal = token
    · subst hgoal
      rw [refsAt_modify_self htoken]
      rfl
    · rw [node_modify_ne hgoal] at hgone
      rw [refsAt_modify_ne hgoal]
      exact hheld.gone goal hgone

/-- A new token with its one reference enters, and its own reference to its parent is
counted on the parent. -/
theorem Held.add (hrefs : fresh.refs = 1)
    (hkept : fresh.gone = false) (hsize : after.size = forest.size)
    (hparent : ∀ goal, after.refsAt goal = forest.refsAt goal + headRef goal fresh.above)
    (hgone : ∀ goal, (after.node goal).gone = true → after.refsAt goal = 0)
    (htokens : ∀ goal, Pool.weigh (Token.refTo goal) after.nodes =
      Pool.weigh (Token.refTo goal) forest.nodes)
    (hplace : ∀ goal, place.refsTo goal = headRef goal [after.size]) :
    (after.add fresh).Held (parties ++ [place]) := by
  have hself : (after.add fresh).refsAt after.size = 1 := by
    unfold refsAt
    rw [size_add, if_pos (Nat.lt_succ_self _), node_add_self, hrefs]
    rfl
  have hother {goal : Nat} (hne : goal ≠ after.size) :
      (after.add fresh).refsAt goal = after.refsAt goal := by
    unfold refsAt
    rw [size_add, node_add_ne hne]
    have hiff : goal < after.size + 1 ↔ goal < after.size := by omega
    simp only [hiff]
  have hfresh (goal : Nat) : fresh.refTo goal = headRef goal fresh.above := by
    simp [Token.refTo, hkept]
  constructor
  · intro goal
    have hold := hheld.refs goal
    have hat := hparent goal
    rw [nodes_add, Pool.weigh_append, Pool.weigh_append, htokens goal,
      Pool.weigh_cons, Pool.weigh_cons, Pool.weigh_nil,
      Pool.weigh_nil, hplace, hfresh]
    by_cases hgoal : goal = after.size
    · have hbefore : forest.refsAt goal = 0 := if_neg (by omega)
      have hafter : after.refsAt goal = 0 := if_neg (by omega)
      subst hgoal
      rw [hself, headRef_self]
      omega
    · rw [hother hgoal, headRef_ne hgoal]
      omega
  · intro goal hdropped
    by_cases hgoal : goal = after.size
    · rw [hgoal, node_add_self, hkept] at hdropped
      cases hdropped
    · rw [node_add_ne hgoal] at hdropped
      rw [hother hgoal]
      exact hgone goal hdropped

theorem Held.still (hplace : parties[i]? = some place)
    (hsame : ∀ goal, place'.refsTo goal = place.refsTo goal) :
    forest.Held (parties.set i place' ++ []) :=
  hheld.moves hplace (fun _ => rfl) (fun _ => rfl)
    (fun goal => by rw [hsame goal, Pool.weigh_nil, add_zero]) fun _ => Or.inl le_rfl

theorem Held.world (hplace : parties[i]? = some .world)
    (hnext : forest.next .world action = some (after, place', entering)) :
    after.Held (parties.set i place' ++ entering) := by
  have hsame : parties.set i .world = parties := by
    obtain ⟨hi, hget⟩ := List.getElem?_eq_some_iff.mp hplace
    rw [← hget]
    exact List.set_getElem_self hi
  have hkept {token : Nat} (htoken : token < forest.size) (hrefs : 0 < (forest.node token).refs) :
      (forest.node token).gone = false := by
    cases hgone : (forest.node token).gone with
    | false => rfl
    | true =>
      have hzero := hheld.gone token hgone
      rw [refsAt_eq htoken] at hzero
      omega
  cases action with
  | go => cases hnext
  | root =>
    cases hnext
    rw [hsame]
    refine hheld.add rfl rfl rfl (fun goal => (add_zero _).symm) hheld.gone (fun _ => rfl) ?_
    exact fun _ => add_zero _
  | attach parent =>
    rw [next, Option.ite_none_right_eq_some] at hnext
    obtain ⟨⟨hparent, hrefs⟩, hnext⟩ := hnext
    cases hnext
    rw [hsame]
    refine hheld.add rfl rfl rfl (fun goal => ?_) (fun goal hgone => ?_)
      (fun _ => weigh_tokens_modify rfl rfl) fun _ => rfl
    · by_cases hgoal : goal = parent
      · subst hgoal
        rw [refsAt_modify_self hparent, refsAt_eq hparent, headRef_self]
        rfl
      · rw [refsAt_modify_ne hgoal, headRef_ne hgoal, add_zero]
    · by_cases hgoal : goal = parent
      · subst hgoal
        rw [node_modify_self] at hgone
        cases (hkept hparent hrefs).symm.trans hgone
      · rw [node_modify_ne hgoal] at hgone
        rw [refsAt_modify_ne hgoal]
        exact hheld.gone goal hgone
  | keep =>
    rw [next, Option.ite_none_right_eq_some] at hnext
    obtain ⟨⟨htoken, hrefs⟩, hnext⟩ := hnext
    cases hnext
    refine hheld.takes hplace htoken (hkept htoken hrefs) fun goal => ?_
    simp [refsTo]
  | aborts =>
    rw [next, Option.ite_none_right_eq_some] at hnext
    obtain ⟨_, hnext⟩ := hnext
    cases hnext
    refine hheld.quietly hplace rfl rfl rfl (fun _ => rfl) fun goal => ?_
    simp [refsTo]

theorem Held.next (hbudgeted : forest.Budgeted parties) (hplace : parties[i]? = some place)
    (hnext : forest.next place action = some (after, place', entering)) :
    after.Held (parties.set i place' ++ entering) := by
  by_cases hworld : place = .world
  · subst hworld
    exact hheld.world hplace hnext
  obtain rfl := action_of_next hworld hnext
  have hmem : place ∈ parties := List.mem_of_getElem? hplace
  cases place with
  | world => exact absurd rfl hworld
  | raises self chain =>
    have hraised (goal : Nat) : (forest.raised self).refsTo goal = headRef goal [self] := by
      unfold raised
      split
      · rfl
      · exact add_zero _
    cases chain with
    | nil =>
      cases hnext
      exact hheld.still hplace hraised
    | cons =>
      rw [Forest.next] at hnext
      split at hnext
      · cases hnext
        exact hheld.quietly hplace rfl rfl rfl (fun _ => rfl) fun _ => rfl
      · cases hnext
        exact hheld.still hplace hraised
  | bumps | releases | wakes =>
    cases hnext
    exact hheld.quietly hplace rfl rfl rfl (fun _ => rfl) fun _ => rfl
  | counts self rest done =>
    cases rest with
    | cons =>
      cases hnext
      exact hheld.quietly hplace rfl rfl rfl (fun _ => rfl) fun _ => rfl
    | nil =>
      cases done with
      | nil =>
        cases hnext
        exact hheld.still hplace fun _ => add_zero _
      | cons parent =>
        cases hnext
        obtain ⟨hself, _, habove⟩ := hbudgeted.fits _ hmem
        rw [List.append_nil] at habove
        obtain ⟨_, hkept⟩ := hheld.not_gone_of_ref hmem (one_le_refsTo rfl)
        obtain ⟨hparent, _⟩ := hbudgeted.rooted.parent hself habove.symm
        refine hheld.takes hplace (hparent.trans hself)
          (hheld.not_gone_parent hself hkept habove.symm) fun goal => ?_
        exact add_zero _
  | lives =>
    cases hnext
    exact hheld.still hplace fun _ => rfl
  | uncounts self mark rest =>
    cases rest with
    | cons =>
      cases hnext
      exact hheld.quietly hplace rfl rfl rfl (fun _ => rfl) fun _ => rfl
    | nil =>
      cases hnext
      exact hheld.still hplace fun _ => refsTo_unmark.trans (add_zero _)
  | keeps =>
    cases hnext
    exact hheld.still hplace fun _ => add_zero _
  | unrefs =>
    rw [Forest.next] at hnext
    split at hnext
    next hlast =>
      cases hnext
      exact hheld.drops hplace hlast
    next hmore =>
      cases hnext
      exact hheld.letsGo hplace hmore
  | finished => cases hnext

end

/-! ## Whole runs -/

variable {allowed : Pool Forest Hold → Nat × HoldAction → Prop} {pool : Pool Forest Hold}

theorem Held.reached (hreach : Reaches (Pool.step Forest.next) allowed start pool) :
    pool.shared.Held pool.parties := by
  refine @Pool.invariant_reached _ _ _ Forest.next allowed start pool
    (fun pool => pool.shared.Held pool.parties) ⟨fun goal => ?_, fun goal hgone => ?_⟩ ?_ hreach
  · rfl
  · cases hgone
  · intro pool i action place place' after entering hbefore hheld _ hplace hnext
    exact hheld.next (Budgeted.reached hbefore) hplace hnext

/-- A subtree that reads as gone has nobody left who keeps a token of it. -/
theorem not_keeping_of_gone
    (hreach : Reaches (Pool.step Forest.next) allowed start pool)
    (hgone : (pool.shared.node goal).gone = true) (hplace : place ∈ pool.parties)
    (hkeeping : place.keeping = some node) : node ≠ goal ∧ goal ∉ pool.shared.above node := by
  have hheld : pool.shared.Held pool.parties := Held.reached hreach
  obtain ⟨hnode, hkept⟩ := hheld.not_gone_of_ref hplace (one_le_refsTo hkeeping)
  constructor
  · rintro rfl
    cases hkept.symm.trans hgone
  · intro hmem
    have hrooted := (Budgeted.reached hreach).rooted
    cases (hheld.not_gone_above hrooted hnode hkept hmem).symm.trans hgone

/-- A hold that is counted on a token keeps the token. -/
theorem Held.not_gone_of_counted (hheld : forest.Held parties) (hbudgeted : forest.Budgeted parties)
    (hplace : place ∈ parties) (hcounted : 0 < place.counted goal) :
    (forest.node goal).gone = false := by
  have hkept {self : Nat} (href : 1 ≤ place.core.refsTo self)
      (hmem : goal = self ∨ goal ∈ forest.above self) : (forest.node goal).gone = false := by
    obtain ⟨hself, hgone⟩ := hheld.not_gone_of_ref hplace (href.trans refsTo_core_le)
    rcases hmem with rfl | hmem
    · exact hgone
    · exact hheld.not_gone_above hbudgeted.rooted hself hgone hmem
  have hpos {list : List Nat} (hcount : (0 : ℤ) < list.count goal) : goal ∈ list :=
    List.count_pos_iff.mp (by exact_mod_cast hcount)
  have hfits : forest.FitsCore place.core := hbudgeted.fits place hplace
  unfold counted at hcounted
  cases hcore : place.core with
  | counts =>
    rw [hcore] at hfits hcounted hkept
    obtain ⟨_, _, habove⟩ := hfits
    refine hkept (one_le_refsTo rfl) (Or.inr ?_)
    rw [← habove]
    exact List.mem_append_left _ (hpos hcounted)
  | lives self mark =>
    rw [hcore] at hfits hcounted hkept
    obtain ⟨_, hmark⟩ := hfits
    have hmem : goal ∈ mark := hpos hcounted
    refine hkept (one_le_refsTo rfl) (Or.inr ?_)
    split at hmark
    · exact hmark ▸ hmem
    · rw [hmark] at hmem
      cases hmem
  | uncounts self mark =>
    rw [hcore] at hfits hcounted hkept
    obtain ⟨hself, habove, before, hbefore⟩ := hfits
    have hmem : goal ∈ mark := hbefore ▸ List.mem_append_right _ (hpos hcounted)
    cases mark with
    | nil => cases hmem
    | cons parent =>
      obtain ⟨_, hrest⟩ := hbudgeted.rooted.parent hself habove
      refine hkept headRef_self.ge ?_
      rw [← hrest]
      exact List.mem_cons.mp hmem
  | _ =>
    rw [hcore] at hcounted
    exact absurd hcounted (lt_irrefl _)

/-- A subtree that reads as gone has no unbounded supervisor counted. -/
theorem infLive_of_gone
    (hreach : Reaches (Pool.step Forest.next) allowed start pool)
    (hgoal : goal < pool.shared.size) (hgone : (pool.shared.node goal).gone = true) :
    (pool.shared.node goal).infLive = 0 := by
  have hbudgeted := Budgeted.reached hreach
  have hheld := Held.reached hreach
  have hzero : Pool.weigh (counted goal) pool.parties = 0 := by
    refine Pool.weigh_zero fun place hplace => ?_
    by_contra hne
    have hpos : 0 < place.counted goal := lt_of_le_of_ne counted_nonneg (Ne.symm hne)
    cases (hheld.not_gone_of_counted hbudgeted hplace hpos).symm.trans hgone
  have hle := AtMost.reached hreach goal
  rw [hzero, countAt_eq hgoal] at hle
  omega

end

end Forest

end TokioActors.Subtree
