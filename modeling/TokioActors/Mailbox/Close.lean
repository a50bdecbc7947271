/-
# A closed mailbox has no waiters

The close sets its flag and then takes every list's lock in turn and empties the
list. A sender that parks reads the flag under its list's lock, so once the close has
passed a list, nobody is in it and nobody enters it any more: the close found the
entry of every sender that had read the flag as open. When the close is through, no
reservation waits, and every later call reads the flag.
-/

import TokioActors.Mailbox.Watch

namespace TokioActors.Mailbox

open Machine.Pool

universe u

variable {α : Type u} {s s' : Shared α} {place place' : Place α} {entering : List (Place α)}
  {index : Nat} {input : Input α}

/-! ## The places of the close, of a sender that parks and of a grant -/

/-- The first list a close has not passed yet. -/
def Place.sweeping : Place α → Option Nat
  | closeFlag _ => some 0
  | closeLane _ index => some index
  | closeState _ index _ _ => some index
  | closeCount _ index _ => some index
  | closeTotal _ index _ => some index
  | _ => none

/-- The list a close has emptied and still holds the lock of. -/
def Place.emptied : Place α → Option Nat
  | closeState _ index _ _ => some index
  | closeCount _ index _ => some index
  | closeTotal _ index _ => some index
  | _ => none

/-- The list a parking sender is in, or a grant took its waiter out of, with its lock. -/
def Place.handling : Place α → Option Nat
  | grantState _ index _ => some index
  | parkPush index => some index
  | parkCount index _ => some index
  | parkTotal index _ => some index
  | _ => none

theorem Place.critical_of_emptied (hemptied : place.emptied = some index) :
    place.holding.critical = some index := by
  cases place with
  | closeState | closeCount | closeTotal => exact hemptied
  | _ => cases hemptied

theorem Place.critical_of_handling (henters : place.handling = some index) :
    place.holding.critical = some index := by
  cases place with
  | grantState | parkPush | parkCount | parkTotal => exact henters
  | _ => cases henters

/-! ## What one step does to a list -/

/-- What a step of a party does to the lists, as far as entries come in. -/
structure Sweeps (s : Shared α) (place : Place α) (s' : Shared α) (place' : Place α) : Prop where
  waiters : ∀ index, (s.lanes index).waiters = [] →
    (s'.lanes index).waiters = [] ∨ place.handling = some index
  /-- A sender enters a list only while the mailbox is open, and a grant one with entries. -/
  enters : ∀ index, place'.handling = some index →
    place.handling = some index ∨ s.closed = false ∨ (s.lanes index).waiters ≠ []
  /-- A closed mailbox stays closed, and one that is closed now is swept from the start. -/
  closed : s'.closed = s.closed ∨ s'.closed = true ∧ place'.sweeping = some 0
  emptied : ∀ index, place'.emptied = some index →
    (s'.lanes index).waiters = [] ∨ place.emptied = some index
  /-- A close passes a list that does not exist, or one it has emptied. -/
  passed : ∀ index first, place.sweeping = some first → first ≤ index →
    (∀ first', place'.sweeping = some first' → index < first') →
      s.laneCount ≤ index ∨ s.hasLane index = false ∧ s' = s ∨ place.emptied = some index

theorem Sweeps.plain
    (hwaiters : ∀ index, (s.lanes index).waiters = [] → (s'.lanes index).waiters = [])
    (hclosed : s'.closed = s.closed) (henters : place'.handling = none)
    (hemptied : place'.emptied = none) (hsweeping : place.sweeping = none) :
    Sweeps s place s' place' where
  waiters index h := .inl (hwaiters index h)
  enters index h := by cases henters.symm.trans h
  closed := .inl hclosed
  emptied index h := by cases hemptied.symm.trans h
  passed index first h := by cases hsweeping.symm.trans h

/-- One list changes, and has no more entries than before. -/
theorem waiters_update {lane : Lane} (hlanes : s'.lanes = Function.update s.lanes index lane)
    (hlane : (s.lanes index).waiters = [] → lane.waiters = []) (other : Nat)
    (hempty : (s.lanes other).waiters = []) : (s'.lanes other).waiters = [] := by
  rw [hlanes]
  by_cases hother : other = index
  · subst hother
    simpa using hlane hempty
  · simpa [hother] using hempty

theorem Resume.place_plain (resume : Resume α) :
    resume.place.handling = none ∧ resume.place.emptied = none := by
  cases resume <;> exact ⟨rfl, rfl⟩

theorem Rebalancer.place_plain (caller : Rebalancer α) :
    caller.place.handling = none ∧ caller.place.emptied = none := by
  cases caller <;> exact ⟨rfl, rfl⟩

theorem Woken.place_plain (next : Woken α) :
    next.place.handling = none ∧ next.place.emptied = none := by
  cases next with
  | resume resume => exact resume.place_plain
  | rebalance => exact ⟨rfl, rfl⟩

theorem Taker.attempt_plain (s : Shared α) (taker : Taker α) :
    (taker.attempt s).handling = none ∧ (taker.attempt s).emptied = none := by
  unfold attempt
  split
  · exact ⟨rfl, rfl⟩
  · cases taker with
    | reserve | trySend => exact ⟨rfl, rfl⟩
    | rebalance caller => exact caller.place_plain

theorem Taker.taken_plain (taker : Taker α) :
    taker.taken.handling = none ∧ taker.taken.emptied = none := by
  cases taker <;> exact ⟨rfl, rfl⟩

theorem Granter.granted_plain (granter : Granter α) :
    granter.granted.handling = none ∧ granter.granted.emptied = none := by
  cases granter with
  | release wake resume => exact resume.place_plain
  | rebalance => exact ⟨rfl, rfl⟩

theorem Granter.notGranted_plain (granter : Granter α) :
    granter.notGranted.handling = none ∧ granter.notGranted.emptied = none := by
  cases granter <;> exact ⟨rfl, rfl⟩

theorem Closer.place_plain (closer : Closer) :
    (closer.place : Place α).handling = none ∧ (closer.place : Place α).emptied = none ∧
      (closer.place : Place α).sweeping = none := by
  cases closer <;> exact ⟨rfl, rfl, rfl⟩

theorem Sweeps.quiet (hlanes : s'.lanes = s.lanes) (hclosed : s'.closed = s.closed)
    (hplace' : place'.handling = none ∧ place'.emptied = none) (hsweeping : place.sweeping = none) :
    Sweeps s place s' place' :=
  .plain (fun index h => by rw [hlanes]; exact h) hclosed hplace'.1 hplace'.2 hsweeping

theorem sweeps_advance (htaken : advance s place = some (s', place')) :
    Sweeps s place s' place' := by
  -- A close that stays at its list passes none, and one that goes on passes that one.
  have hstays {p : Prop} {index other first : Nat} (hfirst : some index = some first)
      (hle : first ≤ other) (hpassed : ∀ first', some index = some first' → other < first') :
      p := by
    cases hfirst
    exact absurd (hpassed index rfl) (Nat.not_lt.mpr hle)
  have hleaves {index other first : Nat} (hfirst : some index = some first) (hle : first ≤ other)
      (hpassed : ∀ first', some (index + 1) = some first' → other < first') : index = other := by
    cases hfirst
    exact Nat.le_antisymm hle (Nat.lt_succ_iff.mp (hpassed _ rfl))
  cases place with
  | grantPop granter start step =>
    simp only [advance] at htaken
    split at htaken
    · cases htaken
    · split at htaken
      · cases htaken
        exact .quiet rfl rfl ⟨rfl, rfl⟩ rfl
      · rename_i hfirst
        cases htaken
        refine ⟨fun other h => .inl (waiters_update rfl (fun h => ?_) other h), fun index h => ?_,
          .inl rfl, (by rintro _ ⟨⟩), (by rintro _ _ ⟨⟩)⟩
        · cases hfirst.symm.trans h
        · cases h
          exact .inr (.inr (by rw [hfirst]; nofun))
  | grantCount | cancelCount | cancelTotal | parkTotal =>
    cases htaken
    exact .plain (waiters_update rfl fun h => h) rfl rfl rfl rfl
  | grantTotal granter =>
    cases htaken
    obtain ⟨hhandling, hemptied⟩ := granter.granted_plain
    exact .plain (waiters_update rfl fun h => h) rfl hhandling hemptied rfl
  | parkLock index =>
    simp only [advance] at htaken
    split at htaken
    · cases htaken
    · split at htaken
      · cases htaken
        exact .quiet rfl rfl ⟨rfl, rfl⟩ rfl
      · rename_i hopen
        cases htaken
        exact ⟨fun other h => .inl (waiters_update rfl (by exact id) other h),
          fun _ _ => .inr (.inl (eq_false_of_ne_true hopen)), .inl rfl, (by rintro _ ⟨⟩),
          (by rintro _ _ ⟨⟩)⟩
  | parkPush index =>
    cases htaken
    refine ⟨fun other h => ?_, fun _ => .inl, .inl rfl, (by rintro _ ⟨⟩), (by rintro _ _ ⟨⟩)⟩
    by_cases hother : other = index
    · exact .inr (congrArg some hother.symm)
    · exact .inl (by simpa [Shared.setLane, Shared.setState, hother] using h)
  | parkCount =>
    cases htaken
    exact ⟨fun other h => .inl (waiters_update rfl (by exact id) other h), fun _ => .inl, .inl rfl,
      (by rintro _ ⟨⟩), (by rintro _ _ ⟨⟩)⟩
  | cancel =>
    simp only [advance] at htaken
    repeat' split at htaken
    all_goals cases htaken
    · refine .plain (waiters_update rfl fun h => ?_) rfl rfl rfl rfl
      dsimp only
      rw [h]
      rfl
    all_goals exact .quiet rfl rfl ⟨rfl, rfl⟩ rfl
  | closeFlag =>
    cases htaken
    refine ⟨fun _ => .inl, (by rintro _ ⟨⟩), .inr ⟨rfl, rfl⟩, (by rintro _ ⟨⟩),
      fun index first _ _ hpassed => ?_⟩
    cases hpassed 0 rfl
  | closeLane closer index =>
    simp only [advance] at htaken
    split at htaken
    · rename_i hbound
      split at htaken
      · split at htaken
        · cases htaken
        · cases htaken
          refine ⟨fun other h => .inl (waiters_update rfl (fun _ => rfl) other h),
            (by rintro _ ⟨⟩), .inl rfl, fun other h => .inl ?_, fun _ _ => hstays⟩
          obtain rfl : index = other := Option.some.inj h
          simp [Shared.setLane]
      · rename_i hmissing
        cases htaken
        refine ⟨fun _ => .inl, (by rintro _ ⟨⟩), .inl rfl, (by rintro _ ⟨⟩),
          fun other first hfirst hle hpassed => ?_⟩
        rw [← hleaves hfirst hle hpassed]
        exact .inr (.inl ⟨eq_false_of_ne_true hmissing, rfl⟩)
    · rename_i hbound
      cases htaken
      obtain ⟨hhandling, hemptied, -⟩ := closer.place_plain (α := α)
      refine ⟨fun _ => .inl, fun other h => ?_, .inl rfl, fun other h => ?_,
        fun other first hfirst hle _ => ?_⟩
      · cases hhandling.symm.trans h
      · cases hemptied.symm.trans h
      · obtain rfl : index = first := Option.some.inj hfirst
        exact .inl ((Nat.le_of_not_lt hbound).trans hle)
  | closeState closer index left =>
    cases left with
    | nil | cons =>
      cases htaken
      exact ⟨fun _ => .inl, (by rintro _ ⟨⟩), .inl rfl, fun _ => .inr, fun _ _ => hstays⟩
  | closeCount closer index =>
    cases htaken
    exact ⟨fun other h => .inl (waiters_update rfl (by exact id) other h), (by rintro _ ⟨⟩),
      .inl rfl, fun _ => .inr, fun _ _ => hstays⟩
  | closeTotal closer index =>
    cases htaken
    exact ⟨fun other h => .inl (waiters_update rfl (by exact id) other h), (by rintro _ ⟨⟩),
      .inl rfl, (by rintro _ ⟨⟩), fun _ _ hfirst hle hpassed =>
        .inr (.inr (congrArg some (hleaves hfirst hle hpassed)))⟩
  | closeQueue =>
    cases htaken
    refine .quiet rfl rfl ?_ rfl
    split <;> exact ⟨rfl, rfl⟩
  | _ =>
    -- The places left change no list and are neither a close's nor a park's.
    simp only [advance] at htaken
    repeat' split at htaken
    all_goals cases htaken
    all_goals
      first
      | exact .quiet rfl rfl ⟨rfl, rfl⟩ rfl
      | exact .quiet rfl rfl (Woken.place_plain _) rfl
      | exact .quiet rfl rfl (Resume.place_plain _) rfl
      | exact .quiet rfl rfl (Rebalancer.place_plain _) rfl
      | exact .quiet rfl rfl (Taker.attempt_plain s _) rfl
      | exact .quiet rfl rfl (Taker.taken_plain _) rfl
      | exact .quiet rfl rfl (Granter.notGranted_plain _) rfl

theorem sweeps_falter (htaken : falter s place = some (s', place')) : Sweeps s place s' place' := by
  cases place with
  | takeExchange taker =>
    cases htaken
    exact .quiet rfl rfl (taker.attempt_plain s) rfl
  | parkPush =>
    cases htaken
    exact .plain (waiters_update rfl fun h => h) rfl rfl rfl rfl
  | pollSettled =>
    cases htaken
    exact .quiet rfl rfl ⟨rfl, rfl⟩ rfl
  | pollWaker =>
    simp only [falter] at htaken
    split at htaken <;> cases htaken
    exact .quiet rfl rfl ⟨rfl, rfl⟩ rfl
  | _ => cases htaken

theorem sweeps_takeMessage {empty : Place α} (hplace : place.sweeping = none)
    (hempty : empty.handling = none ∧ empty.emptied = none) :
    Sweeps s place (takeMessage s empty).1 (takeMessage s empty).2 := by
  unfold takeMessage
  split
  · exact .quiet rfl rfl ⟨rfl, rfl⟩ hplace
  · exact .quiet rfl rfl hempty hplace

theorem sweeps_call (htaken : call s place input = some (s', place', entering)) :
    Sweeps s place s' place' ∧
      ∀ other ∈ entering, other.handling = none ∧ other.emptied = none ∧ other.sweeping = none := by
  unfold call at htaken
  split at htaken
  all_goals cases htaken
  all_goals refine ⟨?_, by simp [Place.handling, Place.emptied, Place.sweeping]⟩
  all_goals
    first
    | exact .quiet rfl rfl ⟨rfl, rfl⟩ rfl
    | exact sweeps_takeMessage rfl ⟨rfl, rfl⟩
    | exact sweeps_takeMessage rfl (by split <;> exact ⟨rfl, rfl⟩)
    | exact .quiet rfl rfl (by split <;> exact ⟨rfl, rfl⟩) rfl

theorem sweeps_next (htaken : next s place input = some (s', place', entering)) :
    Sweeps s place s' place' ∧
      ∀ other ∈ entering, other.handling = none ∧ other.emptied = none ∧ other.sweeping = none := by
  rcases next_eq_some htaken with ⟨hadvance, rfl⟩ | ⟨hfalter, rfl⟩ | hcall
  · exact ⟨sweeps_advance hadvance, by simp⟩
  · exact ⟨sweeps_falter hfalter, by simp⟩
  · exact sweeps_call hcall

/-! ## Every run -/

variable {state : State α} {capacity i : Nat} {waiter : WaiterId}

theorem Balanced.critical_unique {j : Nat} {first second : Place α}
    (hbalanced : Balanced capacity state) (hi : state.parties[i]? = some first)
    (hj : state.parties[j]? = some second) (hij : i ≠ j)
    (hfirst : first.holding.critical = some index)
    (hsecond : second.holding.critical = some index) : False := by
  have hle : first.holding.holds index + second.holding.holds index ≤
      weigh (Holding.holds index) (state.parties.map Place.holding) :=
    weight_add_le_weigh (Holding.holds_nonneg index) (i := i) (j := j) (by simp [hi]) (by simp [hj])
      hij
  rw [hbalanced.sound.locks] at hle
  simp only [Holding.holds, hfirst, hsecond, if_true] at hle
  split at hle <;> omega

theorem Place.handling_of_emptied (hemptied : place.emptied = some index) :
    place.handling = none := by
  cases place with
  | closeState | closeCount | closeTotal => rfl
  | _ => cases hemptied

/-- No close has the list before it. -/
def Swept (state : State α) (index : Nat) : Prop :=
  ∀ place ∈ state.parties, ∀ first, place.sweeping = some first → index < first

/-- The list has no entry and nobody enters it. -/
def Clear (state : State α) (index : Nat) : Prop :=
  (state.shared.lanes index).waiters = [] ∧ ∀ place ∈ state.parties, place.handling ≠ some index

/-- The lists a close took over are empty, and the lists every close has passed have
no entry and no sender that enters them. -/
structure Shutting (state : State α) : Prop where
  emptied : ∀ place ∈ state.parties, ∀ index, place.emptied = some index →
    (state.shared.lanes index).waiters = []
  clear : state.shared.closed = true → ∀ index < state.shared.laneCount, Swept state index →
    Clear state index

theorem Balanced.clear_of_missing (hbalanced : Balanced capacity state)
    (hmissing : state.shared.hasLane index = false) : Clear state index := by
  have hno : ¬ (index = 0 ∨ state.shared.more = true) := by
    intro h
    rw [Shared.hasLane, Bool.or_eq_false_iff] at hmissing
    rcases h with rfl | h
    · cases hmissing.1
    · cases hmissing.2.symm.trans h
  have hticket : ∀ place ∈ state.parties, ∀ waiter, place.holding.ticket ≠ some (index, waiter) :=
    fun place hmem waiter h =>
      hno ((hbalanced.sound.fit _ (List.mem_map_of_mem hmem)).ticket index waiter h).2
  have hentries (waiter : WaiterId) : ((state.shared.lanes index).waiters.count waiter : ℤ) +
      weigh (Holding.took index waiter) (state.parties.map Place.holding) ≤ 0 := by
    refine (hbalanced.sound.entries index waiter).trans_eq ?_
    rw [weigh_map]
    refine weigh_zero fun place hmem => ?_
    simp [Holding.ticketed, hticket place hmem waiter]
  refine ⟨List.eq_nil_iff_forall_not_mem.mpr fun waiter hlisted => ?_, fun place hmem hjoins => ?_⟩
  · have hcount : (0 : ℤ) < (state.shared.lanes index).waiters.count waiter := by
      exact_mod_cast List.count_pos_iff.mpr hlisted
    have htook : 0 ≤ weigh (Holding.took index waiter) (state.parties.map Place.holding) :=
      weigh_nonneg fun party _ => party.took_nonneg index waiter
    have hnone := hentries waiter
    omega
  · cases place with
    | grantState granter lane waiter =>
      obtain rfl : lane = index := Option.some.inj hjoins
      obtain ⟨i, hi⟩ := List.mem_iff_getElem?.mp (List.mem_map_of_mem (f := Place.holding) hmem)
      have htook := weight_le_weigh (fun party : Holding => party.took_nonneg lane waiter) hi
      have hone : (Place.grantState granter lane waiter).holding.took lane waiter = 1 := by
        simp [Place.holding, Holding.took, Holding.within]
      have hnone := hentries waiter
      omega
    | parkPush lane =>
      obtain rfl : lane = index := Option.some.inj hjoins
      have hlane : state.shared.hasLane lane = true := hbalanced.fits _ hmem
      cases hmissing.symm.trans hlane
    | parkCount lane waiter | parkTotal lane waiter =>
      obtain rfl : lane = index := Option.some.inj hjoins
      exact hticket _ hmem waiter rfl
    | _ => cases hjoins

/-- The list a close is about to pass is clear. -/
theorem Shutting.clear_of_passed {first : Nat} (hshutting : Shutting state)
    (hbalanced : Balanced capacity state) (hplace : state.parties[i]? = some place)
    (hsweeps : Sweeps state.shared place s' place') (hbound : index < state.shared.laneCount)
    (hfirst : place.sweeping = some first) (hle : first ≤ index)
    (hpassed : ∀ first', place'.sweeping = some first' → index < first') : Clear state index := by
  rcases hsweeps.passed index first hfirst hle hpassed with h | ⟨hmissing, _⟩ | hemptied
  · exact absurd hbound (Nat.not_lt.mpr h)
  · exact hbalanced.clear_of_missing hmissing
  · refine ⟨hshutting.emptied place (List.mem_of_getElem? hplace) index hemptied, ?_⟩
    intro other hother hjoins
    obtain ⟨j, hj⟩ := List.mem_iff_getElem?.mp hother
    by_cases hij : i = j
    · subst hij
      obtain rfl : place = other := Option.some.inj (hplace.symm.trans hj)
      cases (Place.handling_of_emptied hemptied).symm.trans hjoins
    · exact hbalanced.critical_unique hplace hj hij (Place.critical_of_emptied hemptied)
        (Place.critical_of_handling hjoins)

/-- A step of a closed mailbox leaves a clear list clear. -/
theorem Clear.next (hclear : Clear state index) (hplace : state.parties[i]? = some place)
    (hsweeps : Sweeps state.shared place s' place') (hentering : ∀ other ∈ entering,
      other.handling = none ∧ other.emptied = none ∧ other.sweeping = none)
    (hclosed : state.shared.closed = true) :
    Clear ⟨s', state.parties.set i place' ++ entering⟩ index := by
  have hown := hclear.2 place (List.mem_of_getElem? hplace)
  refine ⟨(hsweeps.waiters index hclear.1).resolve_right hown, ?_⟩
  intro other hother hjoins
  obtain ⟨j, hj⟩ := List.mem_iff_getElem?.mp hother
  rcases getElem?_after hplace hj with ⟨_, rfl⟩ | ⟨_, hold⟩ | ⟨_, hnew⟩
  · rcases hsweeps.enters index hjoins with hbefore | hopen | hlisted
    · exact hown hbefore
    · cases hopen.symm.trans hclosed
    · exact hlisted hclear.1
  · exact hclear.2 other (List.mem_of_getElem? hold) hjoins
  · cases (hentering other (List.mem_of_getElem? hnew)).1.symm.trans hjoins

/-- A step keeps the lists a close has passed as they are. -/
theorem Shutting.next (hshutting : Shutting state) (hbalanced : Balanced capacity state)
    (hplace : state.parties[i]? = some place)
    (htaken : next state.shared place input = some (s', place', entering)) :
    Shutting ⟨s', state.parties.set i place' ++ entering⟩ := by
  obtain ⟨hsweeps, hentering⟩ := sweeps_next htaken
  have hmem : place ∈ state.parties := List.mem_of_getElem? hplace
  have hlanes : s'.laneCount = state.shared.laneCount :=
    (change_next hbalanced.lanes (hbalanced.fits place hmem) htaken).laneCount
  -- A list whose lock another party holds is not entered by this one.
  have hlocked (j index : Nat) (other : Place α) (hj : state.parties[j]? = some other) (hji : j ≠ i)
      (hcritical : other.holding.critical = some index) : place.handling ≠ some index :=
    fun hjoins => hbalanced.critical_unique hplace hj hji.symm
      (Place.critical_of_handling hjoins) hcritical
  refine ⟨fun other hother index hemptied => ?_, fun hclosed index hbound hswept => ?_⟩
  · obtain ⟨j, hj⟩ := List.mem_iff_getElem?.mp hother
    rcases getElem?_after hplace hj with ⟨_, rfl⟩ | ⟨hji, hold⟩ | ⟨_, hnew⟩
    · rcases hsweeps.emptied index hemptied with h | hbefore
      · exact h
      · refine (hsweeps.waiters index (hshutting.emptied place hmem index hbefore)).resolve_right ?_
        rw [Place.handling_of_emptied hbefore]
        nofun
    · refine (hsweeps.waiters index
        (hshutting.emptied other (List.mem_of_getElem? hold) index hemptied)).resolve_right ?_
      exact hlocked j index other hold hji (Place.critical_of_emptied hemptied)
    · cases (hentering other (List.mem_of_getElem? hnew)).2.1.symm.trans hemptied
  · obtain ⟨hi, -⟩ := List.getElem?_eq_some_iff.mp hplace
    have hpassed : ∀ first, place'.sweeping = some first → index < first :=
      hswept place' (List.mem_append_left _ (List.mem_set hi _))
    have hopen : state.shared.closed = true := by
      rcases hsweeps.closed with h | ⟨_, h⟩
      · exact h.symm.trans hclosed
      · exact absurd (hpassed 0 h) (Nat.not_lt_zero index)
    rw [hlanes] at hbound
    refine Clear.next ?_ hplace hsweeps hentering hopen
    by_cases hbefore : Swept state index
    · exact hshutting.clear hopen index hbound hbefore
    · -- The close that had the list before it is the party that steps.
      simp only [Swept, not_forall, Nat.not_lt] at hbefore
      obtain ⟨other, hother, first, hfirst, hle⟩ := hbefore
      obtain ⟨j, hj⟩ := List.mem_iff_getElem?.mp hother
      by_cases hij : i = j
      · subst hij
        obtain rfl : place = other := Option.some.inj (hplace.symm.trans hj)
        exact hshutting.clear_of_passed hbalanced hplace hsweeps hbound hfirst hle hpassed
      · have hstays : (state.parties.set i place')[j]? = some other :=
          (List.getElem?_set_ne hij).trans hj
        have hlt := hswept other (List.mem_append_left _ (List.mem_of_getElem? hstays)) first hfirst
        exact absurd hlt (Nat.not_lt.mpr hle)

end TokioActors.Mailbox
