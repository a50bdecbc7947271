/-
# Parties over a shared state

A pool is a shared state and a list of parties, each at a place of its own
program. One step of the pool is one step of one party: it may change the shared
state, moves the party to its next place, and may bring new parties in. Every
interleaving of the parties is a run of the pool.

What the parties hold together is a sum of weights over their places, so that
one party's step changes the sum by what that party alone gained or lost.
-/

import Mathlib.Algebra.BigOperators.Group.List.Lemmas
import Mathlib.Algebra.Order.BigOperators.Group.List
import Mathlib.Algebra.Order.Ring.Int
import TokioActors.Lib.Reach

namespace Machine

universe u v w

variable {σ : Type u} {π : Type v} {ι : Type w}

/-- A shared state and the parties that run over it. -/
structure Pool (σ : Type u) (π : Type v) where
  shared : σ
  parties : List π

namespace Pool

/-- One step of the party at the position, by its program `next`. -/
def step (next : σ → π → ι → Option (σ × π × List π)) (pool : Pool σ π) (label : Nat × ι) :
    Option (Pool σ π) :=
  pool.parties[label.1]?.bind fun place =>
    (next pool.shared place label.2).map fun after =>
      ⟨after.1, pool.parties.set label.1 after.2.1 ++ after.2.2⟩

/-- What the parties hold together, when a party at `place` holds `weight place`. -/
def weigh (weight : π → ℤ) (parties : List π) : ℤ := (parties.map weight).sum

/-- What one step of a pool is. -/
theorem step_eq_some {next : σ → π → ι → Option (σ × π × List π)} {pool after : Pool σ π}
    {label : Nat × ι} (htaken : pool.step next label = some after) :
    ∃ place shared place' entering, pool.parties[label.1]? = some place ∧
      next pool.shared place label.2 = some (shared, place', entering) ∧
      after = ⟨shared, pool.parties.set label.1 place' ++ entering⟩ := by
  obtain ⟨place, hplace, hnext⟩ := Option.bind_eq_some_iff.mp htaken
  obtain ⟨⟨shared, place', entering⟩, hpair, rfl⟩ := Option.map_eq_some_iff.mp hnext
  exact ⟨place, shared, place', entering, hplace, hpair, rfl⟩

/-- Where a party of the pool after a step comes from. -/
theorem getElem?_after {parties entering : List π} {i k : Nat} {place place' other : π}
    (hplace : parties[i]? = some place)
    (hother : (parties.set i place' ++ entering)[k]? = some other) :
    (k = i ∧ other = place') ∨ (k ≠ i ∧ parties[k]? = some other) ∨
      (parties.length ≤ k ∧ entering[k - parties.length]? = some other) := by
  obtain ⟨hi, _⟩ := List.getElem?_eq_some_iff.mp hplace
  rw [List.getElem?_append, List.length_set] at hother
  split at hother
  · by_cases hk : k = i
    · subst hk
      rw [List.getElem?_set_self hi] at hother
      exact .inl ⟨rfl, (Option.some.inj hother).symm⟩
    · rw [List.getElem?_set_ne (Ne.symm hk)] at hother
      exact .inr (.inl ⟨hk, hother⟩)
  · exact .inr (.inr ⟨Nat.le_of_not_lt ‹_›, hother⟩)

/-- Some party has what one had before a step, if the one that steps keeps it. -/
theorem exists_after {each : π → Prop} {parties entering : List π} {i : Nat} {place place' : π}
    (hplace : parties[i]? = some place) (hkeeps : each place → each place')
    (hsome : ∃ other ∈ parties, each other) :
    ∃ other ∈ parties.set i place' ++ entering, each other := by
  obtain ⟨other, hother, heach⟩ := hsome
  obtain ⟨j, hj⟩ := List.mem_iff_getElem?.mp hother
  obtain ⟨hi, _⟩ := List.getElem?_eq_some_iff.mp hplace
  by_cases hij : i = j
  · subst hij
    obtain rfl : place = other := Option.some.inj (hplace.symm.trans hj)
    exact ⟨place', List.mem_append_left _ (List.mem_set hi _), hkeeps heach⟩
  · have hset : (parties.set i place')[j]? = some other := by rw [List.getElem?_set_ne hij, hj]
    exact ⟨other, List.mem_append_left _ (List.mem_of_getElem? hset), heach⟩

section Rules

variable {next : σ → π → ι → Option (σ × π × List π)} {allowed : Pool σ π → Nat × ι → Prop}
  {start pool : Pool σ π}

/-- The invariant rule of a pool: it is enough to look at one step of one party,
from a state already reached. -/
theorem invariant_reached {inv : Pool σ π → Prop} (hstart : inv start)
    (hnext : ∀ (pool : Pool σ π) (i : Nat) (input : ι) (place place' : π) (shared : σ)
      (entering : List π), Reaches (step next) allowed start pool → inv pool →
        allowed pool (i, input) → pool.parties[i]? = some place →
        next pool.shared place input = some (shared, place', entering) →
        inv ⟨shared, pool.parties.set i place' ++ entering⟩)
    (hreach : Reaches (step next) allowed start pool) : inv pool := by
  induction hreach with
  | refl => exact hstart
  | @tail state after label hbefore hallowed htaken ih =>
    obtain ⟨place, shared, place', entering, hplace, hpair, rfl⟩ := step_eq_some htaken
    exact hnext state label.1 label.2 place place' shared entering hbefore ih hallowed hplace hpair

theorem invariant {inv : Pool σ π → Prop} (hstart : inv start)
    (hnext : ∀ (pool : Pool σ π) (i : Nat) (input : ι) (place place' : π) (shared : σ)
      (entering : List π), inv pool → allowed pool (i, input) → pool.parties[i]? = some place →
        next pool.shared place input = some (shared, place', entering) →
        inv ⟨shared, pool.parties.set i place' ++ entering⟩)
    (hreach : Reaches (step next) allowed start pool) : inv pool :=
  invariant_reached hstart (fun pool i input place place' shared entering _ =>
    hnext pool i input place place' shared entering) hreach

/-- The rule for a property of each party: a step keeps it for the parties that
wait, for the one that steps, and gives it to those that enter. -/
theorem each_reached {each : σ → π → Prop}
    (hstart : ∀ place ∈ start.parties, each start.shared place)
    (hnext : ∀ (pool : Pool σ π) (i : Nat) (input : ι) (place place' : π) (shared : σ)
      (entering : List π), Reaches (step next) allowed start pool →
        (∀ place ∈ pool.parties, each pool.shared place) →
        allowed pool (i, input) → pool.parties[i]? = some place →
        next pool.shared place input = some (shared, place', entering) →
        (∀ j other, j ≠ i → pool.parties[j]? = some other → each shared other) ∧
          each shared place' ∧ ∀ other ∈ entering, each shared other)
    (hreach : Reaches (step next) allowed start pool) :
    ∀ place ∈ pool.parties, each pool.shared place := by
  refine @invariant_reached _ _ _ next allowed start pool
    (fun pool => ∀ place ∈ pool.parties, each pool.shared place) hstart ?_ hreach
  intro pool i input place place' shared entering hbefore heach hallowed hplace hpair
  obtain ⟨hothers, hown, hentering⟩ :=
    hnext pool i input place place' shared entering hbefore heach hallowed hplace hpair
  intro other hother
  obtain ⟨j, hj⟩ := List.mem_iff_getElem?.mp hother
  rcases getElem?_after hplace hj with ⟨_, rfl⟩ | ⟨hij, hold⟩ | ⟨_, hnew⟩
  · exact hown
  · exact hothers j other hij hold
  · exact hentering other (List.mem_of_getElem? hnew)

/-- The rule for a property of every two parties: a step keeps it for two that
wait, and for the one that steps with one that waits, and gives it to the one
that enters. -/
theorem pairs_reached {pair : σ → π → π → Prop}
    (hstart : ∀ (i j : Nat) (first second : π), i ≠ j → start.parties[i]? = some first →
      start.parties[j]? = some second → pair start.shared first second)
    (hnext : ∀ (pool : Pool σ π) (i : Nat) (input : ι) (place place' : π) (shared : σ)
      (entering : List π), Reaches (step next) allowed start pool →
        (∀ (i j : Nat) (first second : π), i ≠ j → pool.parties[i]? = some first →
          pool.parties[j]? = some second → pair pool.shared first second) →
        allowed pool (i, input) → pool.parties[i]? = some place →
        next pool.shared place input = some (shared, place', entering) →
        (∀ (j k : Nat) (first second : π), j ≠ i → k ≠ i → j ≠ k → pool.parties[j]? = some first →
          pool.parties[k]? = some second → pair shared first second) ∧
        (∀ (j : Nat) (other : π), j ≠ i → pool.parties[j]? = some other →
          pair shared place' other ∧ pair shared other place') ∧
        entering.length ≤ 1 ∧
        ∀ newcomer ∈ entering, (pair shared place' newcomer ∧ pair shared newcomer place') ∧
          ∀ (j : Nat) (other : π), j ≠ i → pool.parties[j]? = some other →
            pair shared newcomer other ∧ pair shared other newcomer)
    (hreach : Reaches (step next) allowed start pool) :
    ∀ (i j : Nat) (first second : π), i ≠ j → pool.parties[i]? = some first →
      pool.parties[j]? = some second → pair pool.shared first second := by
  refine @invariant_reached _ _ _ next allowed start pool
    (fun pool => ∀ (i j : Nat) (first second : π), i ≠ j → pool.parties[i]? = some first →
      pool.parties[j]? = some second → pair pool.shared first second) hstart ?_ hreach
  intro pool i input place place' shared entering hbefore hpairs hallowed hplace hpair
  obtain ⟨hothers, hown, hone, hentering⟩ :=
    hnext pool i input place place' shared entering hbefore hpairs hallowed hplace hpair
  have hlast (k : Nat) (newcomer : π) (hk : entering[k]? = some newcomer) : k = 0 := by
    have := (List.getElem?_eq_some_iff.mp hk).1
    omega
  intro j k first second hjk hj hk
  rcases getElem?_after hplace hj with ⟨rfl, rfl⟩ | ⟨hji, hfirst⟩ | ⟨hle, hfirst⟩
  · rcases getElem?_after hplace hk with ⟨rfl, _⟩ | ⟨hki, hsecond⟩ | ⟨_, hsecond⟩
    · exact absurd rfl hjk
    · exact (hown k second hki hsecond).1
    · exact (hentering second (List.mem_of_getElem? hsecond)).1.1
  · rcases getElem?_after hplace hk with ⟨_, rfl⟩ | ⟨hki, hsecond⟩ | ⟨_, hsecond⟩
    · exact (hown j first hji hfirst).2
    · exact hothers j k first second hji hki hjk hfirst hsecond
    · exact ((hentering second (List.mem_of_getElem? hsecond)).2 j first hji hfirst).2
  · have hnew := hentering first (List.mem_of_getElem? hfirst)
    rcases getElem?_after hplace hk with ⟨_, rfl⟩ | ⟨hki, hsecond⟩ | ⟨hle', hsecond⟩
    · exact hnew.1.2
    · exact (hnew.2 k second hki hsecond).1
    · have := hlast _ _ hfirst
      have := hlast _ _ hsecond
      omega

end Rules

variable {weight other : π → ℤ} {parties entering : List π} {place place' : π} {i : Nat}

@[simp] theorem weigh_nil : weigh weight [] = 0 := rfl

@[simp] theorem weigh_cons :
    weigh weight (place :: parties) = weight place + weigh weight parties := by
  simp [weigh]

@[simp] theorem weigh_append {more : List π} :
    weigh weight (parties ++ more) = weigh weight parties + weigh weight more := by
  simp [weigh]

/-- A party that moves changes the sum by its own difference. -/
theorem weigh_set (hplace : parties[i]? = some place) :
    weigh weight (parties.set i place') + weight place = weigh weight parties + weight place' := by
  induction parties generalizing i with
  | nil => cases hplace
  | cons first rest ih =>
    cases i with
    | zero =>
      obtain rfl : first = place := by simpa using hplace
      simp only [List.set_cons_zero, weigh_cons]
      omega
    | succ i =>
      have hrest := ih (i := i) (by simpa using hplace)
      simp only [List.set_cons_succ, weigh_cons]
      omega

/-- One step changes the sum by what the party gained and what the new ones bring. -/
theorem weigh_step (hplace : parties[i]? = some place) :
    weigh weight (parties.set i place' ++ entering) + weight place =
      weigh weight parties + weight place' + weigh weight entering := by
  have hset : weigh weight (parties.set i place') + weight place =
      weigh weight parties + weight place' := weigh_set hplace
  rw [weigh_append]
  omega

theorem weigh_nonneg (hnonneg : ∀ place ∈ parties, 0 ≤ weight place) :
    0 ≤ weigh weight parties :=
  List.sum_nonneg (by simpa using hnonneg)

theorem weigh_mono (hle : ∀ place ∈ parties, weight place ≤ other place) :
    weigh weight parties ≤ weigh other parties :=
  List.sum_le_sum hle

theorem weigh_le_length (hle : ∀ place ∈ parties, weight place ≤ 1) :
    weigh weight parties ≤ parties.length := by
  have hone : weigh weight parties ≤ weigh (fun _ => 1) parties := weigh_mono hle
  simpa [weigh] using hone

theorem weigh_congr (heq : ∀ place ∈ parties, weight place = other place) :
    weigh weight parties = weigh other parties := by
  unfold weigh
  rw [List.map_congr_left heq]

theorem weigh_add :
    weigh (fun place => weight place + other place) parties =
      weigh weight parties + weigh other parties := by
  simp [weigh, List.sum_map_add]

theorem weigh_zero (hzero : ∀ place ∈ parties, weight place = 0) : weigh weight parties = 0 := by
  have heq : weigh weight parties = weigh (fun _ => 0) parties := weigh_congr hzero
  simpa [weigh] using heq

/-- Weights of one and nothing count the parties. -/
theorem weigh_countP {holds : π → Bool} :
    weigh (fun place => if holds place then 1 else 0) parties = parties.countP holds := by
  induction parties with
  | nil => rfl
  | cons first rest ih =>
    rw [weigh_cons, ih, List.countP_cons]
    push_cast
    exact add_comm _ _

/-- Weights that are never negative and sum to nothing are all nothing. -/
theorem eq_zero_of_weigh (hnonneg : ∀ place, 0 ≤ weight place) (hzero : weigh weight parties = 0)
    (hmem : place ∈ parties) : weight place = 0 := by
  induction parties with
  | nil => cases hmem
  | cons first rest ih =>
    have hrest : 0 ≤ weigh weight rest := weigh_nonneg fun place _ => hnonneg place
    have hfirst := hnonneg first
    rw [weigh_cons] at hzero
    rcases List.mem_cons.mp hmem with rfl | hmem
    · omega
    · exact ih (by omega) hmem

theorem weigh_map {κ : Type*} {view : κ → π} {others : List κ} :
    weigh weight (others.map view) = weigh (fun other => weight (view other)) others := by
  simp [weigh, Function.comp_def]

/-- Of weights that are never negative, one party holds no more than all. -/
theorem weight_le_weigh (hnonneg : ∀ place, 0 ≤ weight place)
    (hplace : parties[i]? = some place) : weight place ≤ weigh weight parties := by
  induction parties generalizing i with
  | nil => cases hplace
  | cons first rest ih =>
    have hrest : 0 ≤ weigh weight rest := weigh_nonneg fun place _ => hnonneg place
    have hfirst := hnonneg first
    cases i with
    | zero =>
      obtain rfl : first = place := by simpa using hplace
      simp only [weigh_cons]
      omega
    | succ i =>
      have hle := ih (i := i) (by simpa using hplace)
      simp only [weigh_cons]
      omega

theorem weight_add_le_weigh {first second : π} {j : Nat} (hnonneg : ∀ place, 0 ≤ weight place)
    (hfirst : parties[i]? = some first) (hsecond : parties[j]? = some second) (hij : i ≠ j) :
    weight first + weight second ≤ weigh weight parties := by
  induction parties generalizing i j with
  | nil => cases hfirst
  | cons head rest ih =>
    rw [weigh_cons]
    cases i with
    | zero =>
      obtain rfl : head = first := by simpa using hfirst
      cases j with
      | zero => exact absurd rfl hij
      | succ j =>
        have hle : weight second ≤ weigh weight rest :=
          weight_le_weigh (i := j) hnonneg (by simpa using hsecond)
        omega
    | succ i =>
      cases j with
      | zero =>
        obtain rfl : head = second := by simpa using hsecond
        have hle : weight first ≤ weigh weight rest :=
          weight_le_weigh (i := i) hnonneg (by simpa using hfirst)
        omega
      | succ j =>
        have hhead := hnonneg head
        have hle := ih (i := i) (j := j) (by simpa using hfirst) (by simpa using hsecond)
          (fun h => hij (congrArg Nat.succ h))
        omega

end Pool

end Machine
