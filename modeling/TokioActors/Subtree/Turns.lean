/-
# What a step does to the tokens

The budgets and the counts of the tokens are raised and lowered by some of the
steps of the holds, and what is fixed of a token, its time and its chain of
ancestors, by none. A hold on its way up has with it what the times of its chain
come to so far.
-/

import TokioActors.Lib.Ancestry
import TokioActors.Subtree.Forest

namespace TokioActors.Subtree

namespace Hold

/-- What a hold still has to do on the budgets and the counts. -/
def core : Hold → Hold
  | .unrefs _ next | .wakes _ next => next.core
  | .releases _ | .keeps _ | .uncounts _ _ [] => .finished
  | place => place

end Hold

namespace Forest

open Machine.Family

def above (forest : Forest) (node : Nat) : List Nat := (forest.node node).above

def own (forest : Forest) (node : Nat) : Nat := (forest.node node).own

/-- The supervisors whose orderly stop has no bound. -/
def infinity (forest : Forest) (node : Nat) : Bool := (forest.node node).infinity

def below (forest : Forest) (node : Nat) : Nat := (forest.node node).belowNanos

/-- What a token adds to a budget that passes it. -/
def lift (forest : Forest) (node : Nat) : Nat → Nat := saturatingAdd (forest.own node)

/-- The saturating sum of the own times from `node` to below `goal`, when `goal` is
an ancestor of it. -/
def chainSum (forest : Forest) (goal node : Nat) : Option Nat :=
  Ancestry.climb forest.lift goal (forest.own node) (forest.above node)

/-- A change of one token that leaves alone what is fixed, the budget and the count. -/
structure Quiet (change : Token → Token) : Prop where
  own : ∀ token, (change token).own = token.own
  infinity : ∀ token, (change token).infinity = token.infinity
  above : ∀ token, (change token).above = token.above
  below : ∀ token, (change token).belowNanos = token.belowNanos
  count : ∀ token, (change token).infLive = token.infLive

/-- What one step does to the budgets and the counts, and to what is left to do on
them. -/
inductive Turn (forest : Forest) : Hold → Forest → Hold → List Hold → Prop
  | root : Turn forest .world (forest.add {}) .world [.lives forest.size []]
  | attach {parent own : Nat} {infinity : Bool} {change : Token → Token}
      (hparent : parent < forest.size) (hquiet : Quiet change) (hown : own ≤ u64Max) :
      Turn forest .world
        ((forest.modify parent change).add
          { own := own, infinity := infinity, above := parent :: forest.above parent })
        .world [.raises forest.size (parent :: forest.above parent) own]
  | raise {self token candidate : Nat} {rest : List Nat}
      (hlt : (forest.node token).belowNanos < candidate) :
      Turn forest (.raises self (token :: rest) candidate)
        (forest.modify token fun token => { token with belowNanos := candidate })
        (.bumps self token rest candidate) []
  | stop {self candidate : Nat} {chain : List Nat}
      (hle : ∀ token rest, chain = token :: rest → candidate ≤ (forest.node token).belowNanos) :
      Turn forest (.raises self chain candidate) forest (forest.raised self) []
  | bump {self token candidate : Nat} {rest : List Nat} {change : Token → Token}
      (hquiet : Quiet change) :
      Turn forest (.bumps self token rest candidate) (forest.modify token change)
        (.wakes token (.raises self rest (forest.lift token candidate))) []
  | count {self token : Nat} {rest done : List Nat} :
      Turn forest (.counts self (token :: rest) done)
        (forest.modify token fun token =>
          { token with
            infLive := min (token.infLive + 1) u32Max
            infGen := wrappingAdd token.infGen 1 })
        (.wakes token (.counts self rest (done ++ [token]))) []
  | counted {self token : Nat} {done : List Nat} {change : Token → Token} (hquiet : Quiet change) :
      Turn forest (.counts self [] done) (forest.modify token change) (.lives self done) []
  | ends {self : Nat} {mark : List Nat} :
      Turn forest (.lives self mark) forest (.unrefs self (.uncounts self mark mark)) []
  | uncount {self token : Nat} {mark rest : List Nat} :
      Turn forest (.uncounts self mark (token :: rest))
        (forest.modify token fun token =>
          { token with infLive := token.infLive - 1, infGen := wrappingAdd token.infGen 1 })
        (.wakes token (.uncounts self mark rest)) []
  | quiet {place place' : Hold} {token : Nat} {entering : List Hold} {change : Token → Token}
      (hquiet : Quiet change) (hcore : place'.core = place.core)
      (hentering : ∀ other ∈ entering, other.core = .finished) :
      Turn forest place (forest.modify token change) place' entering

section

variable {forest after : Forest} {place place' : Hold} {entering : List Hold} {action : HoldAction}

theorem modify_still : forest.modify 0 id = forest := modify_id

theorem core_unmark {mark : List Nat} {next : Hold} : (unmark mark next).core = next.core := by
  cases mark <;> rfl

theorem quiet_id : Quiet id :=
  ⟨fun _ => rfl, fun _ => rfl, fun _ => rfl, fun _ => rfl, fun _ => rfl⟩

theorem Turn.still (hcore : place'.core = place.core) : Turn forest place forest place' [] := by
  have hturn : Turn forest place (forest.modify 0 id) place' [] :=
    .quiet quiet_id hcore (by simp)
  rwa [modify_still] at hturn

theorem turn_of_world (hnext : forest.next .world action = some (after, place', entering)) :
    Turn forest .world after place' entering := by
  cases action with
  | go => cases hnext
  | root =>
    cases hnext
    exact .root
  | attach =>
    rw [next, Option.ite_none_right_eq_some] at hnext
    obtain ⟨⟨hparent, _⟩, hnext⟩ := hnext
    cases hnext
    exact .attach hparent
      ⟨fun _ => rfl, fun _ => rfl, fun _ => rfl, fun _ => rfl, fun _ => rfl⟩ (Nat.min_le_right ..)
  | keep | aborts =>
    rw [next, Option.ite_none_right_eq_some] at hnext
    obtain ⟨_, hnext⟩ := hnext
    cases hnext
    exact .quiet ⟨fun _ => rfl, fun _ => rfl, fun _ => rfl, fun _ => rfl, fun _ => rfl⟩ rfl
      (by simp [Hold.core])

theorem turn_of_next (hnext : forest.next place action = some (after, place', entering)) :
    Turn forest place after place' entering := by
  have hquiet {change : Token → Token}
      (hsame : ∀ token, (change token).own = token.own ∧ (change token).infinity = token.infinity ∧
        (change token).above = token.above ∧ (change token).belowNanos = token.belowNanos ∧
        (change token).infLive = token.infLive) : Quiet change :=
    ⟨fun t => (hsame t).1, fun t => (hsame t).2.1, fun t => (hsame t).2.2.1,
      fun t => (hsame t).2.2.2.1, fun t => (hsame t).2.2.2.2⟩
  by_cases hworld : place = .world
  · subst hworld
    exact turn_of_world hnext
  obtain rfl := action_of_next hworld hnext
  cases place with
  | world => exact absurd rfl hworld
  | raises self chain =>
    cases chain with
    | nil =>
      cases hnext
      exact .stop (by simp)
    | cons token rest =>
      rw [next] at hnext
      split at hnext
      next hlt =>
        cases hnext
        exact .raise hlt
      next hle =>
        cases hnext
        refine .stop fun token rest hchain => ?_
        obtain ⟨rfl, rfl⟩ := List.cons.inj hchain
        exact Nat.le_of_not_lt hle
  | bumps =>
    cases hnext
    exact .bump (hquiet fun _ => ⟨rfl, rfl, rfl, rfl, rfl⟩)
  | counts self rest done =>
    cases rest with
    | cons =>
      cases hnext
      exact .count
    | nil =>
      cases done with
      | nil =>
        cases hnext
        have hturn : Turn forest (.counts self [] []) (forest.modify 0 id) (.lives self []) [] :=
          .counted quiet_id
        rwa [modify_still] at hturn
      | cons =>
        cases hnext
        exact .counted (hquiet fun _ => ⟨rfl, rfl, rfl, rfl, rfl⟩)
  | lives =>
    cases hnext
    exact .ends
  | uncounts self mark rest =>
    cases rest with
    | cons =>
      cases hnext
      exact .uncount
    | nil =>
      cases hnext
      exact .still core_unmark
  | releases | wakes =>
    cases hnext
    exact .quiet (hquiet fun _ => ⟨rfl, rfl, rfl, rfl, rfl⟩) rfl (by simp)
  | keeps =>
    cases hnext
    exact .still rfl
  | unrefs =>
    rw [next] at hnext
    split at hnext
    · cases hnext
      exact .quiet (hquiet fun _ => ⟨rfl, rfl, rfl, rfl, rfl⟩) core_unmark (by simp)
    · cases hnext
      exact .quiet (hquiet fun _ => ⟨rfl, rfl, rfl, rfl, rfl⟩) rfl (by simp)
  | finished => cases hnext

end

/-! ## What the raises see -/

/-- Two forests of the same tokens, with the same times and chains. -/
structure Alike (forest after : Forest) : Prop where
  size : after.size = forest.size
  above : after.above = forest.above
  own : after.own = forest.own
  infinity : after.infinity = forest.infinity

/-- A value on its way from the hold `self` up the rest of its ancestors: it is what
the chain from `self` comes to at each of them. -/
def Along (forest : Forest) (self : Nat) (chain : List Nat) (candidate : Nat) : Prop :=
  self < forest.size ∧ (∃ before, forest.above self = before ++ chain) ∧
    ∀ goal ∈ chain, Ancestry.climb forest.lift goal candidate chain = forest.chainSum goal self

/-- What is known of a hold by what it still has to do. -/
def FitsCore (forest : Forest) : Hold → Prop
  | .raises self chain candidate => forest.Along self chain candidate
  | .bumps self token rest candidate => forest.Along self (token :: rest) candidate
  | .counts self rest done =>
    self < forest.size ∧ forest.infinity self = true ∧ done ++ rest = forest.above self
  | .lives self mark =>
    self < forest.size ∧ mark = if forest.infinity self then forest.above self else []
  | .uncounts self mark rest =>
    self < forest.size ∧ forest.above self = mark ∧ ∃ before, mark = before ++ rest
  | _ => True

/-- The hold is one that a run can have over the forest. -/
def Fits (forest : Forest) (place : Hold) : Prop := forest.FitsCore place.core

section

variable {forest after : Forest} {goal node token : Nat} {change : Token → Token} {fresh : Token}
  {parties entering : List Hold} {place place' : Hold} {i : Nat}

theorem Alike.trans {last : Forest} (hfirst : forest.Alike after) (hlast : after.Alike last) :
    forest.Alike last :=
  ⟨hlast.size.trans hfirst.size, hlast.above.trans hfirst.above, hlast.own.trans hfirst.own,
    hlast.infinity.trans hfirst.infinity⟩

theorem alike_modify (hown : (change (forest.node token)).own = (forest.node token).own)
    (hinfinity : (change (forest.node token)).infinity = (forest.node token).infinity)
    (habove : (change (forest.node token)).above = (forest.node token).above) :
    forest.Alike (forest.modify token change) :=
  ⟨Eq.refl _, funext fun _ => node_modify_same habove, funext fun _ => node_modify_same hown,
    funext fun _ => node_modify_same hinfinity⟩

theorem Quiet.alike (hquiet : Quiet change) : forest.Alike (forest.modify token change) :=
  alike_modify (hquiet.own _) (hquiet.infinity _) (hquiet.above _)

theorem below_modify
    (hbelow : (change (forest.node token)).belowNanos = (forest.node token).belowNanos) :
    (forest.modify token change).below = forest.below :=
  funext fun _ => node_modify_same hbelow

theorem Quiet.below_eq (hquiet : Quiet change) :
    (forest.modify token change).below = forest.below :=
  below_modify (hquiet.below _)

theorem Alike.lift (halike : forest.Alike after) : after.lift = forest.lift := by
  unfold Forest.lift
  rw [halike.own]

theorem Alike.chainSum (halike : forest.Alike after) : after.chainSum = forest.chainSum := by
  funext goal node
  unfold Forest.chainSum
  rw [halike.lift, halike.above, halike.own]

theorem Alike.fits (halike : forest.Alike after) (hfits : forest.Fits place) :
    after.Fits place := by
  unfold Fits at hfits ⊢
  cases hcore : place.core with
  | raises | bumps | counts | lives | uncounts =>
    rw [hcore] at hfits
    simpa only [FitsCore, Along, halike.size, halike.above, halike.infinity, halike.lift,
      halike.chainSum] using hfits
  | _ => trivial

theorem lift_mono : Monotone (forest.lift node) := by
  intro first second hle
  exact min_le_min_right _ (Nat.add_le_add_left hle _)

/-- The raise of a token takes its value one token further. -/
theorem Along.pass (hrooted : Ancestry.Rooted forest.size forest.above) {self candidate : Nat}
    {rest : List Nat} (halong : forest.Along self (token :: rest) candidate) :
    forest.Along self rest (forest.lift token candidate) := by
  obtain ⟨hself, ⟨before, hbefore⟩, hsum⟩ := halong
  refine ⟨hself, ⟨before ++ [token], by simp [hbefore]⟩, fun goal hgoal => ?_⟩
  have hne : token ≠ goal := by
    rintro rfl
    exact hrooted.not_mem_behind hself hbefore hgoal
  rw [← hsum goal (List.mem_cons_of_mem _ hgoal), Ancestry.climb_cons_ne hne]

/-! ## A token more -/

theorem above_add_lt (hnode : node < forest.size) :
    (forest.add fresh).above node = forest.above node := by
  unfold above
  rw [node_add_lt hnode]

theorem own_add_lt (hnode : node < forest.size) :
    (forest.add fresh).own node = forest.own node := by
  unfold own
  rw [node_add_lt hnode]

theorem below_add_lt (hnode : node < forest.size) :
    (forest.add fresh).below node = forest.below node := by
  unfold below
  rw [node_add_lt hnode]

theorem lift_add_lt (hnode : node < forest.size) :
    (forest.add fresh).lift node = forest.lift node := by
  unfold lift
  rw [own_add_lt hnode]

theorem infinity_add_lt (hnode : node < forest.size) :
    (forest.add fresh).infinity node = forest.infinity node := by
  unfold infinity
  rw [node_add_lt hnode]

/-- A climb from a token of before is the climb of before. -/
theorem climb_add (hrooted : Ancestry.Rooted forest.size forest.above) {value : Nat}
    {before chain : List Nat} (hnode : node < forest.size)
    (hchain : forest.above node = before ++ chain) :
    Ancestry.climb (forest.add fresh).lift goal value chain =
      Ancestry.climb forest.lift goal value chain := by
  refine Ancestry.climb_congr fun ancestor hmem => lift_add_lt ?_
  have habove : ancestor ∈ forest.above node := hchain ▸ List.mem_append_right _ hmem
  exact (hrooted.lt hnode habove).trans hnode

theorem chainSum_add (hrooted : Ancestry.Rooted forest.size forest.above)
    (hnode : node < forest.size) :
    (forest.add fresh).chainSum goal node = forest.chainSum goal node := by
  unfold chainSum
  rw [own_add_lt hnode, above_add_lt hnode, climb_add hrooted hnode (List.nil_append _).symm]

theorem fits_add (hrooted : Ancestry.Rooted forest.size forest.above)
    (hfits : forest.Fits place) : (forest.add fresh).Fits place := by
  have halong {self candidate : Nat} {chain : List Nat}
      (h : forest.Along self chain candidate) : (forest.add fresh).Along self chain candidate := by
    obtain ⟨hself, ⟨before, hbefore⟩, hsum⟩ := h
    refine ⟨Nat.lt_succ_of_lt hself, ⟨before, (above_add_lt hself).trans hbefore⟩, ?_⟩
    intro goal hgoal
    rw [climb_add hrooted hself hbefore, chainSum_add hrooted hself, hsum goal hgoal]
  unfold Fits at hfits ⊢
  cases hcore : place.core with
  | raises | bumps =>
    rw [hcore] at hfits
    exact halong hfits
  | counts =>
    rw [hcore] at hfits
    obtain ⟨hself, hinfinity, habove⟩ := hfits
    exact ⟨Nat.lt_succ_of_lt hself, (infinity_add_lt hself).trans hinfinity,
      habove.trans (above_add_lt hself).symm⟩
  | lives =>
    rw [hcore] at hfits
    obtain ⟨hself, hmark⟩ := hfits
    refine ⟨Nat.lt_succ_of_lt hself, ?_⟩
    rw [infinity_add_lt hself, above_add_lt hself]
    exact hmark
  | uncounts =>
    rw [hcore] at hfits
    obtain ⟨hself, habove, hbefore⟩ := hfits
    exact ⟨Nat.lt_succ_of_lt hself, (above_add_lt hself).trans habove, hbefore⟩
  | _ => trivial

end

end Forest

end TokioActors.Subtree
