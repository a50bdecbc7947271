/-
# The unbounded supervisors below a token

A supervisor whose orderly stop has no bound is counted on every token above it
while its hold lives. The counts of the chain are changed one by one, so that a
token's count is the number of holds that have counted themselves on it and have
not taken themselves off it. The count is a 32-bit word that saturates.
-/

import Mathlib.Data.List.Nodup
import TokioActors.Subtree.Budget

namespace TokioActors.Subtree

open Machine Hold

namespace Hold

/-- How often a hold with this left to do is counted on the token. -/
def countedCore (goal : Nat) : Hold → ℤ
  | .counts _ _ list | .lives _ list | .uncounts _ _ list => list.count goal
  | _ => 0

def counted (goal : Nat) (place : Hold) : ℤ := countedCore goal place.core

/-- The hold is on its way to count itself, or to take itself off. -/
def shifting (place : Hold) : Bool :=
  match place.core with
  | .counts .. | .uncounts .. => true
  | _ => false

theorem counted_nonneg {goal : Nat} {place : Hold} : 0 ≤ place.counted goal := by
  unfold counted countedCore
  cases place.core <;> simp

end Hold

namespace Forest

open Machine.Family

/-- A live hold of an unbounded supervisor below the token. -/
def isLiveInfinity (forest : Forest) (goal : Nat) (place : Hold) : Bool :=
  match place.core with
  | .lives self _ => forest.infinity self && (forest.above self).contains goal
  | _ => false

/-- No count has reached the largest value of its word. -/
def Unsaturated (forest : Forest) : Prop :=
  ∀ node < forest.size, (forest.node node).infLive < u32Max

instance {forest : Forest} : Decidable forest.Unsaturated :=
  inferInstanceAs (Decidable (∀ node < forest.size, (forest.node node).infLive < u32Max))

/-- The count of a token that is there. -/
def countAt (forest : Forest) (node : Nat) : Nat :=
  if node < forest.size then (forest.node node).infLive else 0

/-- What a step can do to a count and to how often the holds are counted. -/
inductive Shift (count : Nat) (weight : ℤ) (count' : Nat) (weight' : ℤ) : Prop
  | same (hcount : count' = count) (hweight : weight' = weight)
  | up (hcount : count' = min (count + 1) u32Max) (hweight : weight' = weight + 1)
  | down (hcount : count' = count - 1) (hweight : weight' = weight - 1)

def Counted (forest : Forest) (parties : List Hold) : Prop :=
  ∀ node, (forest.countAt node : ℤ) = Pool.weigh (Hold.counted node) parties

def AtMost (forest : Forest) (parties : List Hold) : Prop :=
  ∀ node, (forest.countAt node : ℤ) ≤ Pool.weigh (Hold.counted node) parties

section

variable {forest after : Forest} {goal node token : Nat} {change : Token → Token} {fresh : Token}
  {parties entering : List Hold} {place place' : Hold} {i : Nat}

theorem countAt_modify_same
    (hcount : (change (forest.node token)).infLive = (forest.node token).infLive) :
    (forest.modify token change).countAt node = forest.countAt node := by
  unfold countAt
  rw [size_modify, node_modify_same hcount]

theorem countAt_modify_ne (hne : node ≠ token) :
    (forest.modify token change).countAt node = forest.countAt node := by
  unfold countAt
  rw [size_modify, node_modify_ne hne]

theorem countAt_modify_self (htoken : token < forest.size) :
    (forest.modify token change).countAt token = (change (forest.node token)).infLive := by
  unfold countAt
  rw [size_modify, if_pos htoken, node_modify_self]

theorem countAt_eq (hnode : node < forest.size) :
    forest.countAt node = (forest.node node).infLive := if_pos hnode

theorem countAt_add (hfresh : fresh.infLive = 0) :
    (forest.add fresh).countAt node = forest.countAt node := by
  unfold countAt
  rw [size_add]
  by_cases hnode : node = forest.size
  · rw [hnode, node_add_self, if_pos (Nat.lt_succ_self _), if_neg (lt_irrefl _), hfresh]
  · have hiff : node < forest.size + 1 ↔ node < forest.size := by omega
    rw [node_add_ne hnode]
    simp only [hiff]

theorem shift_still (hplace : parties[i]? = some place)
    (hcount : after.countAt node = forest.countAt node)
    (hsame : place'.counted node = place.counted node)
    (hentering : ∀ other ∈ entering, other.counted node = 0) :
    Shift (forest.countAt node) (Pool.weigh (Hold.counted node) parties)
      (after.countAt node)
      (Pool.weigh (Hold.counted node) (parties.set i place' ++ entering)) := by
  have hstep : Pool.weigh (Hold.counted node) (parties.set i place' ++ entering) +
      place.counted node = Pool.weigh (Hold.counted node) parties +
        place'.counted node + Pool.weigh (Hold.counted node) entering :=
    Pool.weigh_step hplace
  rw [Pool.weigh_zero hentering, hsame] at hstep
  exact .same hcount (by omega)

theorem weigh_counted_set (hplace : parties[i]? = some place) :
    Pool.weigh (Hold.counted node) (parties.set i place' ++ []) =
      Pool.weigh (Hold.counted node) parties +
        (place'.counted node - place.counted node) := by
  have hset : Pool.weigh (Hold.counted node) (parties.set i place') +
      place.counted node = Pool.weigh (Hold.counted node) parties +
        place'.counted node := Pool.weigh_set hplace
  rw [List.append_nil]
  omega

theorem counted_raised {self : Nat} : (forest.raised self).counted goal = 0 := by
  unfold raised
  split <;> rfl

theorem counted_uncounts {self : Nat} {mark rest : List Nat} :
    (uncounts self mark rest).counted goal = rest.count goal := by
  cases rest <;> rfl

theorem Turn.shift (hbudgeted : forest.Budgeted parties) (hplace : parties[i]? = some place)
    (hturn : Turn forest place after place' entering) :
    Shift (forest.countAt node) (Pool.weigh (Hold.counted node) parties)
      (after.countAt node)
      (Pool.weigh (Hold.counted node) (parties.set i place' ++ entering)) := by
  have hfits : forest.Fits place := hbudgeted.fits place (List.mem_of_getElem? hplace)
  cases hturn with
  | root => exact shift_still hplace (countAt_add rfl) rfl (by simp [Hold.counted, core,
      countedCore])
  | attach hparent hquiet =>
    refine shift_still hplace ?_ rfl (by simp [Hold.counted, core, countedCore])
    exact (countAt_add rfl).trans (countAt_modify_same (hquiet.count _))
  | raise => exact shift_still hplace (countAt_modify_same rfl) rfl (by simp)
  | stop => exact shift_still hplace rfl counted_raised (by simp)
  | bump hquiet | counted hquiet =>
    exact shift_still hplace (countAt_modify_same (hquiet.count _)) rfl (by simp)
  | @count self token rest done =>
    obtain ⟨hself, _, habove⟩ := hfits
    have hmem : token ∈ forest.above self := by simp [← habove]
    have htoken : token < forest.size := (hbudgeted.rooted.lt hself hmem).trans hself
    have hcounted : (wakes token (.counts self rest (done ++ [token]))).counted node =
        (done.count node : ℤ) + [token].count node := by
      change (((done ++ [token]).count node : Nat) : ℤ) = _
      rw [List.count_append]
      push_cast
      rfl
    have hbefore : (counts self (token :: rest) done).counted node = done.count node := rfl
    by_cases hnode : node = token
    · subst hnode
      refine .up ?_ ?_
      · rw [countAt_modify_self htoken, countAt_eq htoken]
      · rw [weigh_counted_set hplace, hcounted, hbefore, List.count_singleton_self]
        push_cast
        omega
    · refine .same (countAt_modify_ne hnode) ?_
      have hzero : [token].count node = 0 :=
        List.count_eq_zero_of_not_mem fun hmem => hnode (List.mem_singleton.mp hmem)
      rw [weigh_counted_set hplace, hcounted, hbefore, hzero]
      push_cast
      omega
  | ends => exact shift_still hplace rfl counted_uncounts (by simp)
  | @uncount self token mark rest =>
    obtain ⟨hself, habove, before, hbefore⟩ := hfits
    have htoken : token < forest.size :=
      (hbudgeted.rooted.behind hself (habove.trans hbefore)).1.trans hself
    have hcounted : (wakes token (.uncounts self mark rest)).counted node =
        rest.count node := counted_uncounts
    by_cases hnode : node = token
    · subst hnode
      refine .down ?_ ?_
      · rw [countAt_modify_self htoken, countAt_eq htoken]
      · rw [weigh_counted_set hplace, hcounted, counted_uncounts, List.count_cons_self]
        push_cast
        omega
    · refine .same (countAt_modify_ne hnode) ?_
      rw [weigh_counted_set hplace, hcounted, counted_uncounts,
        List.count_cons_of_ne (Ne.symm hnode)]
      omega
  | quiet hquiet hcore hentering =>
    refine shift_still hplace (countAt_modify_same (hquiet.count _)) ?_ fun other hother => ?_
    · unfold Hold.counted
      rw [hcore]
    · unfold Hold.counted
      rw [hentering other hother]
      rfl

theorem weigh_counted_nonneg : 0 ≤ Pool.weigh (Hold.counted node) parties :=
  Pool.weigh_nonneg fun _ _ => counted_nonneg

theorem Counted.turn (hbudgeted : forest.Budgeted parties) (hcounted : forest.Counted parties)
    (hunsaturated : forest.Unsaturated) (hplace : parties[i]? = some place)
    (hturn : Turn forest place after place' entering) :
    after.Counted (parties.set i place' ++ entering) := by
  intro node
  have hbefore := hcounted node
  have hlt : forest.countAt node < u32Max := by
    unfold countAt
    split
    next hnode => exact hunsaturated node hnode
    next => decide
  have hnonneg : 0 ≤ Pool.weigh (Hold.counted node) (parties.set i place' ++ entering) :=
    weigh_counted_nonneg
  rcases hturn.shift hbudgeted hplace with ⟨hcount, hweight⟩ | ⟨hcount, hweight⟩ | ⟨hcount, hweight⟩
  · rw [hcount, hweight, hbefore]
  · rw [hcount, hweight, Nat.min_eq_left hlt]
    push_cast
    omega
  · rw [hcount]
    omega

/-- A saturated count is less than what is counted, never more. -/
theorem AtMost.turn (hbudgeted : forest.Budgeted parties) (hatMost : forest.AtMost parties)
    (hplace : parties[i]? = some place) (hturn : Turn forest place after place' entering) :
    after.AtMost (parties.set i place' ++ entering) := by
  intro node
  have hbefore := hatMost node
  have hnonneg : 0 ≤ Pool.weigh (Hold.counted node) (parties.set i place' ++ entering) :=
    weigh_counted_nonneg
  rcases hturn.shift hbudgeted hplace with ⟨hcount, hweight⟩ | ⟨hcount, hweight⟩ | ⟨hcount, hweight⟩
  · rw [hcount, hweight]
    exact hbefore
  · have hmin : after.countAt node ≤ forest.countAt node + 1 := hcount ▸ Nat.min_le_left _ _
    omega
  · rw [hcount]
    omega

/-- While no hold is on its way, a hold is counted where it lives unbounded below. -/
theorem Fits.counted_eq_one (hrooted : Ancestry.Rooted forest.size forest.above)
    (hfits : forest.Fits place) (hquiet : place.shifting = false) :
    place.counted goal = if forest.isLiveInfinity goal place then 1 else 0 := by
  unfold Fits at hfits
  unfold shifting at hquiet
  unfold Hold.counted isLiveInfinity
  cases hcore : place.core with
  | counts | uncounts => simp [hcore] at hquiet
  | lives self =>
    rw [hcore] at hfits
    obtain ⟨hself, rfl⟩ := hfits
    cases hinfinity : forest.infinity self with
    | false => simp [countedCore, hinfinity]
    | true =>
      by_cases hmem : goal ∈ forest.above self
      · have hone : (forest.above self).count goal = 1 :=
          List.count_eq_one_of_mem (hrooted.nodup hself) hmem
        simp [countedCore, hinfinity, hmem, hone]
      · simp [countedCore, hinfinity, hmem, List.count_eq_zero_of_not_mem hmem]
  | _ => simp [countedCore]

/-- Once the holds have counted themselves, a count is the number of live unbounded
supervisors below. -/
theorem Counted.infLive_eq (hbudgeted : forest.Budgeted parties) (hcounted : forest.Counted parties)
    (hquiet : ∀ place ∈ parties, place.shifting = false) (hgoal : goal < forest.size) :
    (forest.node goal).infLive = parties.countP (forest.isLiveInfinity goal) := by
  have hsum : Pool.weigh (Hold.counted goal) parties =
      Pool.weigh (fun place => if forest.isLiveInfinity goal place then 1 else 0) parties :=
    Pool.weigh_congr fun place hplace =>
      (hbudgeted.fits place hplace).counted_eq_one hbudgeted.rooted (hquiet place hplace)
  rw [Pool.weigh_countP, ← hcounted goal, countAt_eq hgoal] at hsum
  exact_mod_cast hsum

/-! ## Whole runs -/

variable {allowed : Pool Forest Hold → Nat × HoldAction → Prop} {pool : Pool Forest Hold}

theorem Counted.reached (hunsaturated : ∀ pool label, allowed pool label → pool.shared.Unsaturated)
    (hreach : Reaches (Pool.step next) allowed start pool) :
    pool.shared.Counted pool.parties := by
  refine @Pool.invariant_reached _ _ _ next allowed start pool
    (fun pool => pool.shared.Counted pool.parties) (fun _ => rfl) ?_ hreach
  intro pool i action place place' after entering hbefore hcounted hmeets hplace hnext
  exact hcounted.turn (Budgeted.reached hbefore) (hunsaturated pool _ hmeets) hplace
    (turn_of_next hnext)

theorem AtMost.reached (hreach : Reaches (Pool.step next) allowed start pool) :
    pool.shared.AtMost pool.parties := by
  refine @Pool.invariant_reached _ _ _ next allowed start pool
    (fun pool => pool.shared.AtMost pool.parties) (fun _ => le_rfl) ?_ hreach
  intro pool i action place place' after entering hbefore hatMost _ hplace hnext
  exact hatMost.turn (Budgeted.reached hbefore) hplace (turn_of_next hnext)

/-- In every run of attaches, raises and ends: no budget ever becomes smaller; once
the raises have finished the budget of every token is the largest sum of own times
along a chain of tokens ever attached below it, whatever the order of attaches and
raises was; and when no count saturates on the way, then once the holds have counted
themselves every count is the number of live unbounded supervisors below. -/
theorem budget_is_largest_chain
    (hreach : Reaches (Pool.step next) allowed start pool) :
    (∀ later, Reaches (Pool.step next) allowed pool later →
      ∀ node < pool.shared.size,
        (pool.shared.node node).belowNanos ≤ (later.shared.node node).belowNanos) ∧
    ((∀ place ∈ pool.parties, place.raising = false) →
      ∀ node < pool.shared.size,
        (pool.shared.node node).belowNanos = pool.shared.largestBelow node) ∧
    ((∀ before label, allowed before label → before.shared.Unsaturated) →
      (∀ place ∈ pool.parties, place.shifting = false) →
      ∀ node < pool.shared.size,
        (pool.shared.node node).infLive =
          pool.parties.countP (pool.shared.isLiveInfinity node)) := by
  have hbudgeted : pool.shared.Budgeted pool.parties := Budgeted.reached hreach
  refine ⟨fun later hlater node hnode => below_le_later hlater hnode,
    fun hquiet node hnode => hbudgeted.below_eq_largest hquiet hnode, ?_⟩
  intro hunsaturated hquiet node hnode
  exact (Counted.reached hunsaturated hreach).infLive_eq hbudgeted hquiet hnode

end

/-- A supervisor and a worker below it raise the root's budget; the worker's larger
sum comes first, so that the supervisor's raise stops at it. -/
def crossedRaises : List (Nat × HoldAction) :=
  [(0, .root), (0, .attach 0 true .infinity 5), (0, .attach 1 false .infinity 7), (3, .go),
    (3, .go),
    (3, .go), (3, .go), (2, .go), (2, .go), (3, .go), (2, .go), (3, .go), (2, .go), (3, .go)]

theorem crossedRaises_goes :
    (runWhere (Pool.step next) (fun pool _ => pool.shared.Unsaturated) start
      crossedRaises).isSome = true := by
  decide +kernel

theorem budget_is_largest_chain_crossed :
    let pool := (runWhere (Pool.step next) (fun pool _ => pool.shared.Unsaturated)
      start crossedRaises).get crossedRaises_goes
    (pool.shared.node 0).belowNanos = pool.shared.largestBelow 0 ∧
      pool.shared.largestBelow 0 = 12 + 2 * abortSettle ∧
      (pool.shared.node 0).infLive = pool.parties.countP (pool.shared.isLiveInfinity 0) ∧
      pool.parties.countP (pool.shared.isLiveInfinity 0) = 1 := by
  have hall := budget_is_largest_chain (reaches_getWhere crossedRaises_goes)
  refine ⟨hall.2.1 (by decide +kernel) 0 (by decide +kernel), by decide +kernel,
    hall.2.2 (fun _ _ hmeets => hmeets) (by decide +kernel) 0 (by decide +kernel),
    by decide +kernel⟩

/-! ## The saturated count -/

/-- The time of an unbounded supervisor without a grace. -/
def bareOwn : Nat := saturatingNanos (ownFin true .infinity 0)

/-- A root with `crowd` unbounded supervisors that run below it. -/
structure Crowded (crowd : Nat) (forest : Forest) (parties : List Hold) : Prop where
  reached : Reaches (Pool.step next) always start
    ⟨forest, .world :: parties⟩
  size : 0 < forest.size
  root : forest.above 0 = []
  refs : 0 < (forest.node 0).refs
  below : bareOwn ≤ forest.below 0
  count : (forest.node 0).infLive = min crowd u32Max
  live : parties.countP (forest.isLiveInfinity 0) = crowd
  quiet : ∀ place ∈ parties, place.raising = false ∧ place.shifting = false

section

variable {forest after : Forest} {parties : List Hold} {place place' : Hold}

theorem newest_step (hnext : forest.next place .go = some (after, place', [])) :
    (Pool.step next ⟨forest, parties ++ [place]⟩ (parties.length, .go)) =
      some ⟨after, parties ++ [place']⟩ := by
  simp [Pool.step, hnext]

theorem Alike.isLiveInfinity (halike : forest.Alike after) :
    after.isLiveInfinity = forest.isLiveInfinity := by
  funext goal place
  unfold Forest.isLiveInfinity
  rw [halike.infinity, halike.above]

theorem isLiveInfinity_add {goal : Nat} {fresh : Token} (hfits : forest.Fits place) :
    (forest.add fresh).isLiveInfinity goal place = forest.isLiveInfinity goal place := by
  unfold Fits at hfits
  unfold isLiveInfinity
  cases hcore : place.core with
  | lives =>
    rw [hcore] at hfits
    simp only [infinity_add_lt hfits.1, above_add_lt hfits.1]
  | _ => rfl

/-- One more supervisor attaches below the root and counts itself. -/
theorem Crowded.attach {crowd : Nat} (hcrowded : Crowded crowd forest parties) :
    ∃ forest parties, Crowded (crowd + 1) forest parties := by
  let fresh : Token := { own := bareOwn, infinity := true, above := [0] }
  let held := forest.modify 0 fun token => { token with refs := token.refs + 1 }
  let attached := held.add fresh
  let counted := attached.modify 0 fun token =>
    { token with infLive := min (token.infLive + 1) u32Max, infGen := wrappingAdd token.infGen 1 }
  let woken := counted.modify 0 fun token => { token with wakes := token.wakes + 1 }
  let marked := woken.modify 0 fun token => { token with refs := token.refs + 1 }
  have hheld : forest.Alike held := alike_modify rfl rfl rfl
  have halike : attached.Alike marked :=
    ((alike_modify rfl rfl rfl : attached.Alike counted).trans
      (alike_modify rfl rfl rfl : counted.Alike woken)).trans (alike_modify rfl rfl rfl)
  have hroot : attached.node 0 = held.node 0 := node_add_lt hcrowded.size
  have hfresh : attached.node forest.size = fresh := node_add_self
  have hbudgeted : held.Budgeted (.world :: parties) :=
    (Budgeted.reached hcrowded.reached).alike hheld (below_modify rfl)
  refine ⟨marked, parties ++ [.lives forest.size [0]], ?_, Nat.succ_pos _, ?_, ?_, ?_, ?_, ?_, ?_⟩
  · have hattach : Pool.step next ⟨forest, .world :: parties⟩
        (0, .attach 0 true .infinity 0) =
        some ⟨attached, .world :: parties ++ [.raises forest.size [0] bareOwn]⟩ := by
      have habove : (forest.node 0).above = [] := hcrowded.root
      simp [Pool.step, next, hcrowded.size, hcrowded.refs, habove, attached, held, fresh,
        bareOwn]
    have hstop : attached.next (.raises forest.size [0] bareOwn) .go =
        some (attached, .counts forest.size [0] [], []) := by
      have hle : ¬ bareOwn > (attached.node 0).belowNanos := by
        rw [hroot]
        exact Nat.not_lt.mpr hcrowded.below
      rw [next, if_neg hle, raised, hfresh]
      rfl
    have hmark : woken.next (.counts forest.size [] [0]) .go =
        some (marked, .lives forest.size [0], []) := rfl
    have hcount : attached.next (.counts forest.size [0] []) .go =
        some (counted, .wakes 0 (.counts forest.size [] [0]), []) := rfl
    have hwake : counted.next (.wakes 0 (.counts forest.size [] [0])) .go =
        some (woken, .counts forest.size [] [0], []) := rfl
    exact ((((hcrowded.reached.tail trivial hattach).tail trivial (newest_step hstop)).tail trivial
      (newest_step hcount)).tail trivial (newest_step hwake)).tail trivial (newest_step hmark)
  · rw [halike.above]
    unfold above
    rw [hroot]
    exact hcrowded.root
  · simp [marked, woken]
  · have hbelow : marked.below 0 = attached.below 0 := by
      simp [marked, woken, counted, Forest.below]
    rw [hbelow]
    unfold Forest.below
    rw [hroot]
    exact hcrowded.below
  · have hcount : (forest.node 0).infLive = min crowd u32Max := hcrowded.count
    have hlast : (marked.node 0).infLive = min ((forest.node 0).infLive + 1) u32Max := by
      simp [marked, woken, counted, hroot, held]
    rw [hlast, hcount]
    omega
  · have hold : parties.countP (attached.isLiveInfinity 0) = crowd := by
      rw [← hcrowded.live]
      refine List.countP_congr fun place hplace => ?_
      rw [isLiveInfinity_add (hbudgeted.fits place (List.mem_cons_of_mem _ hplace)),
        hheld.isLiveInfinity]
    have hnew : attached.isLiveInfinity 0 (.lives forest.size [0]) = true := by
      unfold isLiveInfinity infinity above
      simp only [core, hfresh]
      rfl
    rw [halike.isLiveInfinity, List.countP_append, hold, List.countP_singleton, if_pos hnew]
  · intro place hplace
    rcases List.mem_append.mp hplace with hold | hnew
    · exact hcrowded.quiet place hold
    · rw [List.mem_singleton.mp hnew]
      exact ⟨rfl, rfl⟩

end

def firstSupervisor : List (Nat × HoldAction) :=
  [(0, .root), (0, .attach 0 true .infinity 0), (2, .go), (2, .go), (2, .go), (2, .go), (2, .go),
    (2, .go), (2, .go)]

theorem firstSupervisor_goes :
    (run (Pool.step next) start firstSupervisor).isSome = true := by
  decide +kernel

theorem reached_cons {pool : Pool Forest Hold} {parties : List Hold}
    (hreach : Reaches (Pool.step next) always start pool)
    (hparties : pool.parties = .world :: parties) :
    Reaches (Pool.step next) always start
      ⟨pool.shared, .world :: parties⟩ := by
  rw [← hparties]
  exact hreach

theorem crowded_first : ∃ forest parties, Crowded 1 forest parties :=
  ⟨_, [.lives 0 [], .lives 1 [0]],
    reached_cons (reaches_get firstSupervisor_goes) (by decide +kernel),
    by decide +kernel, by decide +kernel, by decide +kernel, by decide +kernel, by decide +kernel,
    by decide +kernel, by decide +kernel⟩

theorem crowded_succ (crowd : Nat) : ∃ forest parties, Crowded (crowd + 1) forest parties := by
  induction crowd with
  | zero => exact crowded_first
  | succ crowd ih =>
    obtain ⟨forest, parties, hcrowded⟩ := ih
    exact hcrowded.attach

theorem Crowded.infLive_lt {crowd : Nat} {forest : Forest} {parties : List Hold}
    (hcrowded : Crowded crowd forest parties) (hmany : u32Max < crowd) :
    (forest.node 0).infLive < (world :: parties).countP (forest.isLiveInfinity 0) := by
  have hworld : ¬ forest.isLiveInfinity 0 .world = true := Bool.false_ne_true
  rw [List.countP_cons_of_neg hworld, hcrowded.live, hcrowded.count, Nat.min_eq_right hmany.le]
  exact hmany

/-- With as many unbounded supervisors alive below a root as a 32-bit word has values,
the root's count is one short of their number. -/
theorem count_saturates :
    ∃ pool, Reaches (Pool.step next) always start pool ∧
      (∀ place ∈ pool.parties, place.raising = false ∧ place.shifting = false) ∧
      (pool.shared.node 0).infLive ≠ pool.parties.countP (pool.shared.isLiveInfinity 0) := by
  obtain ⟨crowd, hcrowd⟩ : ∃ crowd, crowd = u32Max := ⟨_, rfl⟩
  obtain ⟨forest, parties, hcrowded⟩ := crowded_succ crowd
  refine ⟨⟨forest, .world :: parties⟩, hcrowded.reached, ?_, ?_⟩
  · intro place hplace
    rcases List.mem_cons.mp hplace with rfl | hold
    · exact ⟨rfl, rfl⟩
    · exact hcrowded.quiet place hold
  · exact (hcrowded.infLive_lt (hcrowd ▸ Nat.lt_succ_self crowd)).ne

end Forest

end TokioActors.Subtree
