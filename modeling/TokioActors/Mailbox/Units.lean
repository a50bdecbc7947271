/-
# The units of a mailbox are conserved

A change of the books keeps them sound, so they are sound in every state any
interleaving of senders, reservations, permits, the receiver and the close
reaches. No unit is ever lost or made up, no counter leaves its range, and the
queue never holds more messages than the mailbox has units.
-/

import TokioActors.Mailbox.Balance

namespace TokioActors.Mailbox

open Machine.Pool

universe u

variable {b b' : Books} {h h' : Holding} {entering parties : List Holding} {i : Nat} {index : Nat}
  {waiter : WaiterId}

/-- One change moves a sum over the parties by what the changing party gained. -/
theorem Change.weighed (weight : Holding → ℤ) (hchange : Change b h b' h' entering)
    (hplace : parties[i]? = some h) (hzero : ∀ handles, weight { handles := handles } = 0) :
    weigh weight (parties.set i h' ++ entering) + weight h =
      weigh weight parties + weight h' := by
  have hstep : weigh weight (parties.set i h' ++ entering) + weight h =
      weigh weight parties + weight h' + weigh weight entering := weigh_step hplace
  rw [hchange.weigh_entering hzero] at hstep
  omega

namespace Sound

/-! ## What sound books say -/

/-- Nobody holds anything of a list whose lock is free. -/
theorem weigh_within_of_free (hsound : Sound b parties) (hfree : (b.lanes index).locked = false)
    (weight : Holding → ℤ) : weigh (Holding.within index weight) parties = 0 := by
  have hnone : weigh (Holding.holds index) parties = 0 := by simp [hsound.locks, hfree]
  refine weigh_zero fun other hmem => ?_
  have hholds := eq_zero_of_weigh (Holding.holds_nonneg index) hnone hmem
  unfold Holding.holds at hholds
  unfold Holding.within
  split at hholds
  · omega
  · rw [if_neg ‹_›]

theorem locked_of_critical (hsound : Sound b parties) (hplace : parties[i]? = some h)
    (hinside : h.critical = some index) : (b.lanes index).locked = true := by
  have hle := weight_le_weigh (Holding.holds_nonneg index) hplace
  rw [hsound.locks, Holding.holds, if_pos hinside] at hle
  by_contra hfree
  simp [hfree] at hle

/-- An entry a party took out of a list is nowhere else, still waits, and belongs
to one parked reservation. -/
theorem sole (hsound : Sound b parties) (hplace : parties[i]? = some h)
    (hinside : h.critical = some index) (hmem : waiter ∈ h.removed) :
    b.states waiter = .waiting ∧ weigh (Holding.owns waiter) parties = 1 ∧
      ∀ other, (b.lanes other).waiters.count waiter + weigh (Holding.took other waiter) parties =
        if other = index then 1 else 0 := by
  have htook : 1 ≤ weigh (Holding.took index waiter) parties := by
    refine le_trans ?_ (weight_le_weigh (Holding.took_nonneg index waiter) hplace)
    rw [Holding.took, Holding.within, if_pos hinside]
    exact_mod_cast List.count_pos_iff.mpr hmem
  have howned := hsound.owned waiter
  have hentries := hsound.entries index waiter
  have hticketed : weigh (Holding.ticketed (index, waiter)) parties ≤
      weigh (Holding.owns waiter) parties :=
    weigh_mono fun other _ => other.ticketed_le_owns (index, waiter)
  refine ⟨hsound.waiting index waiter (by omega), by omega, fun other => ?_⟩
  by_cases hother : other = index
  · subst hother
    rw [if_pos rfl]
    omega
  · have hboth : weigh (Holding.ticketed (other, waiter)) parties +
        weigh (Holding.ticketed (index, waiter)) parties ≤ weigh (Holding.owns waiter) parties := by
      rw [← weigh_add]
      exact weigh_mono fun party _ => party.ticketed_add_le_owns hother waiter
    have hnone := hsound.entries other waiter
    have hnonneg : 0 ≤ weigh (Holding.took other waiter) parties :=
      weigh_nonneg fun party _ => party.took_nonneg other waiter
    rw [if_neg hother]
    omega

theorem waiting_of_listed (hsound : Sound b parties) (hlisted : waiter ∈ (b.lanes index).waiters) :
    b.states waiter = .waiting := by
  refine hsound.waiting index waiter ?_
  have hcount := List.count_pos_iff.mpr hlisted
  have hnonneg : 0 ≤ weigh (Holding.took index waiter) parties :=
    weigh_nonneg fun party _ => party.took_nonneg index waiter
  omega

/-! ## One change keeps the books sound -/

section Step

variable (hsound : Sound b parties) (hchange : Change b h b' h' entering)
  (hplace : parties[i]? = some h) (hfit : h.Fit b)

include hsound hchange hplace

theorem locks_step (index : Nat) :
    weigh (Holding.holds index) (parties.set i h' ++ entering) =
      if (b'.lanes index).locked then 1 else 0 := by
  have hweighed := hchange.weighed (Holding.holds index) hplace fun _ => rfl
  have hlocks := hchange.locks (fun _ => hsound.locked_of_critical hplace) index
  rw [hsound.locks] at hweighed
  omega

include hfit

theorem counts_step (index : Nat) :
    (b'.lanes index).waiting = (b'.lanes index).waiters.length +
      weigh (Holding.within index Holding.debt) (parties.set i h' ++ entering) := by
  have hweighed := hchange.weighed (Holding.within index Holding.debt) hplace fun _ => rfl
  have hcounts := hchange.counts hfit index
  have hbefore := hsound.counts index
  omega

theorem total_step :
    b'.waitingTotal = b'.listed + weigh Holding.drawn (parties.set i h' ++ entering) -
      weigh Holding.added (parties.set i h' ++ entering) := by
  have hdrawn := hchange.weighed Holding.drawn hplace fun _ => rfl
  have hadded := hchange.weighed Holding.added hplace fun _ => rfl
  have htotal := hchange.total hfit
  have hbefore := hsound.total
  omega

theorem added_step (index : Nat) :
    weigh (Holding.within index Holding.added) (parties.set i h' ++ entering) ≤
      (b'.lanes index).waiters.length := by
  have hweighed := hchange.weighed (Holding.within index Holding.added) hplace fun _ => rfl
  have hbefore := hsound.added index
  -- An entry leaves a list only when its lock was free, and then nobody had added one.
  have hfree : (b.lanes index).locked = false →
      weigh (Holding.within index Holding.added) parties = 0 :=
    fun hfree => hsound.weigh_within_of_free hfree _
  have hout := hfit.outside
  have hnonneg := hfit.nonneg.1
  generalize weigh (Holding.within index Holding.added) (parties.set i h' ++ entering) = after
    at hweighed ⊢
  generalize weigh (Holding.within index Holding.added) parties = before at *
  unfold Holding.within at hweighed
  cases hchange <;> grind

omit hfit in
theorem owned_step (waiter : WaiterId) :
    weigh (Holding.owns waiter) (parties.set i h' ++ entering) ≤ 1 ∧
      (b'.nextWaiter ≤ waiter →
        weigh (Holding.owns waiter) (parties.set i h' ++ entering) = 0) := by
  have hweighed := hchange.weighed (Holding.owns waiter) hplace fun _ => rfl
  have hbefore := hsound.owned waiter
  have hfresh := hsound.fresh waiter
  have hnonneg : 0 ≤ weigh (Holding.owns waiter) (parties.set i h' ++ entering) :=
    weigh_nonneg fun party _ => party.owns_nonneg waiter
  generalize weigh (Holding.owns waiter) (parties.set i h' ++ entering) = after at *
  generalize weigh (Holding.owns waiter) parties = before at *
  unfold Holding.owns at hweighed
  cases hchange <;> grind

theorem entries_step (index : Nat) (waiter : WaiterId) :
    (b'.lanes index).waiters.count waiter +
        weigh (Holding.took index waiter) (parties.set i h' ++ entering) ≤
      weigh (Holding.ticketed (index, waiter)) (parties.set i h' ++ entering) := by
  have htook := hchange.weighed (Holding.took index waiter) hplace fun _ => rfl
  have hticketed := hchange.weighed (Holding.ticketed (index, waiter)) hplace fun _ => rfl
  have hnonneg : 0 ≤ weigh (Holding.ticketed (index, waiter)) (parties.set i h' ++ entering) :=
    weigh_nonneg fun party _ => party.ticketed_nonneg _
  have hbefore := hsound.entries index waiter
  -- A reservation that ends has no entry left: its waiter does not wait, or the
  -- list it was in is free and does not have it.
  have hwaiting := hsound.waiting index waiter
  have hfree : (b.lanes index).locked = false → weigh (Holding.took index waiter) parties = 0 :=
    fun hfree => hsound.weigh_within_of_free hfree _
  have hout := hfit.outside
  have hticket := hfit.ticket
  generalize weigh (Holding.took index waiter) (parties.set i h' ++ entering) = took at htook ⊢
  generalize weigh (Holding.took index waiter) parties = tookBefore at *
  generalize weigh (Holding.ticketed (index, waiter)) (parties.set i h' ++ entering) = ticketed
    at hticketed hnonneg ⊢
  generalize weigh (Holding.ticketed (index, waiter)) parties = ticketedBefore at *
  unfold Holding.took Holding.within at htook
  unfold Holding.ticketed at hticketed
  cases hchange <;> grind

theorem waiting_step (index : Nat) (waiter : WaiterId)
    (hpos : 0 < (b'.lanes index).waiters.count waiter +
      weigh (Holding.took index waiter) (parties.set i h' ++ entering)) :
    b'.states waiter = .waiting := by
  have htook := hchange.weighed (Holding.took index waiter) hplace fun _ => rfl
  have hwaiting := hsound.waiting index waiter
  have hout := hfit.outside
  have hcritical : waiter ∈ h.removed → ∃ other, h.critical = some other := hfit.critical
  have hsole : ∀ other, h.critical = some other → waiter ∈ h.removed →
      (b.lanes index).waiters.count waiter + weigh (Holding.took index waiter) parties =
        if index = other then 1 else 0 :=
    fun other hother hmem => (hsound.sole hplace hother hmem).2.2 index
  generalize weigh (Holding.took index waiter) (parties.set i h' ++ entering) = took at htook hpos
  generalize weigh (Holding.took index waiter) parties = tookBefore at *
  unfold Holding.took Holding.within at htook
  cases hchange <;> grind

/-- How many parked reservations are granted a unit, by the states after the change. -/
theorem granted_step :
    b'.room + b'.queued + h'.transit + h'.permits + h'.granted b'.states +
        weigh (Holding.granted b'.states) parties =
      b.room + b.queued + h.transit + h.permits + h.granted b'.states +
        weigh (Holding.granted b.states) parties := by
  have hwaiting : ∀ index waiter, waiter ∈ (b.lanes index).waiters → b.states waiter = .waiting :=
    fun _ _ => hsound.waiting_of_listed
  have hticket := hfit.ticket
  cases hchange with
  | push inside unlisted =>
    have hsame : weigh (Holding.granted (Function.update b.states b.nextWaiter .waiting)) parties =
        weigh (Holding.granted b.states) parties := by
      refine weigh_congr fun other hmem => Holding.granted_update_of_not_owns ?_
      exact eq_zero_of_weigh (Holding.owns_nonneg b.nextWaiter) (hsound.fresh _ le_rfl) hmem
    dsimp only
    rw [hsame]
    simp [Holding.granted, unlisted]
  | grant taken carried =>
    rename_i waiter
    have hmem : waiter ∈ h.removed := by simp [taken]
    obtain ⟨index, hinside⟩ := hfit.critical hmem
    obtain ⟨hstate, hone, _⟩ := hsound.sole hplace hinside hmem
    have hmore : weigh (Holding.granted (Function.update b.states waiter .granted)) parties =
        weigh (Holding.granted b.states) parties + weigh (Holding.owns waiter) parties := by
      rw [← weigh_add]
      refine weigh_congr fun other _ => ?_
      rw [Holding.granted_update (by simp [hstate]), if_pos rfl]
    dsimp only
    rw [hmore, hone, carried]
    unfold Holding.granted
    dsimp only
    omega
  | shut taken =>
    rename_i waiter left
    have hmem : waiter ∈ h.removed := by simp [taken]
    obtain ⟨index, hinside⟩ := hfit.critical hmem
    obtain ⟨hstate, _, _⟩ := hsound.sole hplace hinside hmem
    have hsame : weigh (Holding.granted (Function.update b.states waiter .closed)) parties =
        weigh (Holding.granted b.states) parties := by
      refine weigh_congr fun other _ => ?_
      rw [Holding.granted_update (by simp [hstate]), if_neg (by decide), add_zero]
    dsimp only
    rw [hsame]
    rfl
  | _ =>
    unfold Holding.granted
    grind

theorem units_step :
    b'.room + weigh (Holding.granted b'.states) (parties.set i h' ++ entering) +
        weigh Holding.permits (parties.set i h' ++ entering) + b'.queued +
        weigh Holding.transit (parties.set i h' ++ entering) = b'.capacity := by
  have hgranted := hchange.weighed (Holding.granted b'.states) hplace fun _ => rfl
  have hpermits := hchange.weighed Holding.permits hplace fun _ => rfl
  have htransit := hchange.weighed Holding.transit hplace fun _ => rfl
  have hstep := hsound.granted_step hchange hplace hfit
  have hbefore := hsound.units
  rw [hchange.capacity]
  omega

omit hplace hfit in
theorem room_step : 0 ≤ b'.room := by
  have hroom := hsound.room
  cases hchange with
  | move _ free => exact free hroom
  | _ => exact hroom

omit hfit in
theorem handles_step : b'.txCount = weigh Holding.handles (parties.set i h' ++ entering) := by
  have hstep : weigh Holding.handles (parties.set i h' ++ entering) + h.handles =
      weigh Holding.handles parties + h'.handles + weigh Holding.handles entering :=
    weigh_step hplace
  have hbefore := hsound.handles
  cases hchange with
  | move _ _ _ _ _ plain =>
    have hnone : weigh Holding.handles entering = 0 :=
      weigh_zero fun other hmem => by rw [plain other hmem]
    dsimp only at hstep ⊢
    omega
  | clone =>
    simp only [weigh_cons, weigh_nil] at hstep
    dsimp only
    omega
  | discard =>
    simp only [weigh_nil] at hstep
    dsimp only
    omega
  | _ =>
    simp only [weigh_nil] at hstep
    change b.txCount = _
    omega

end Step

theorem step (hsound : Sound b parties) (hchange : Change b h b' h' entering)
    (hplace : parties[i]? = some h) : Sound b' (parties.set i h' ++ entering) where
  fit other hmem := by
    have hfit := hsound.fit h (List.mem_of_getElem? hplace)
    rcases List.mem_append.mp hmem with hmem | hmem
    · rcases List.mem_or_eq_of_mem_set hmem with hmem | rfl
      · exact hchange.fit_mono (hsound.fit other hmem)
      · exact hchange.fit hfit
    · obtain ⟨heq, hnonneg⟩ := hchange.entering_eq hmem
      rw [heq]
      exact Holding.fit_handles b' hnonneg
  locks := hsound.locks_step hchange hplace
  counts := hsound.counts_step hchange hplace (hsound.fit h (List.mem_of_getElem? hplace))
  total := hsound.total_step hchange hplace (hsound.fit h (List.mem_of_getElem? hplace))
  added := hsound.added_step hchange hplace (hsound.fit h (List.mem_of_getElem? hplace))
  owned waiter := (hsound.owned_step hchange hplace waiter).1
  fresh waiter := (hsound.owned_step hchange hplace waiter).2
  entries := hsound.entries_step hchange hplace (hsound.fit h (List.mem_of_getElem? hplace))
  waiting := hsound.waiting_step hchange hplace (hsound.fit h (List.mem_of_getElem? hplace))
  units := hsound.units_step hchange hplace (hsound.fit h (List.mem_of_getElem? hplace))
  room := hsound.room_step hchange
  handles := hsound.handles_step hchange hplace

/-! ## The counters -/

/-- What the parties added to the lists is what they added to each list. -/
theorem weigh_added (hsound : Sound b parties) :
    weigh Holding.added parties =
      ∑ index ∈ Finset.range b.laneCount,
        weigh (Holding.within index Holding.added) parties := by
  have hfit := hsound.fit
  clear hsound
  induction parties with
  | nil => simp
  | cons first rest ih =>
    have hfirst := hfit first (by simp)
    have hown : ∑ index ∈ Finset.range b.laneCount, first.within index Holding.added =
        first.added := by
      unfold Holding.within
      cases hcritical : first.critical with
      | none => simp [(hfirst.outside hcritical).2.1]
      | some lane => simp [Finset.sum_ite_eq, hfirst.inside lane hcritical]
    simp only [weigh_cons, Finset.sum_add_distrib, hown]
    rw [ih fun other hmem => hfit other (List.mem_cons_of_mem _ hmem)]

/-- The total is at least zero and at most the entries in the lists or just taken
out of them. -/
theorem total_bounds (hsound : Sound b parties) :
    0 ≤ b.waitingTotal ∧ b.waitingTotal ≤ b.listed + weigh Holding.drawn parties := by
  have htotal := hsound.total
  have hdrawn : 0 ≤ weigh Holding.drawn parties :=
    weigh_nonneg fun party hmem => (hsound.fit party hmem).nonneg.2.1
  have hadded : 0 ≤ weigh Holding.added parties :=
    weigh_nonneg fun party hmem => (hsound.fit party hmem).nonneg.1
  have hle : weigh Holding.added parties ≤ b.listed := by
    rw [hsound.weigh_added]
    exact Finset.sum_le_sum fun index _ => hsound.added index
  omega

theorem count_bounds (hsound : Sound b parties) (index : Nat) :
    0 ≤ (b.lanes index).waiting ∧ (b.lanes index).waiting ≤
      (b.lanes index).waiters.length + weigh (Holding.within index Holding.drawn) parties := by
  have hcounts := hsound.counts index
  have hadded := hsound.added index
  have hlow : 0 ≤ weigh (Holding.within index Holding.debt) parties +
      weigh (Holding.within index Holding.added) parties := by
    rw [← weigh_add]
    refine weigh_nonneg fun party hmem => ?_
    have hdebts := (hsound.fit party hmem).debts.1
    unfold Holding.within
    split <;> omega
  have hhigh : weigh (Holding.within index Holding.debt) parties ≤
      weigh (Holding.within index Holding.drawn) parties := by
    refine weigh_mono fun party hmem => ?_
    have hdebts := (hsound.fit party hmem).debts.2
    unfold Holding.within
    split <;> omega
  omega

end Sound

/-! ## Every run -/

variable {α : Type u} {state : State α} {capacity : Nat}

/-- The books of a mailbox are sound and its parties at places that fit. -/
structure Balanced (capacity : Nat) (state : State α) : Prop where
  lanes : 0 < state.shared.laneCount
  capacity : state.shared.capacity = capacity
  fits : ∀ place ∈ state.parties, place.Fits state.shared
  sound : Sound state.shared.books (state.parties.map Place.holding)

theorem balanced_channel (capacity lanes : Nat) : Balanced capacity (channel α capacity lanes) where
  lanes := by simp [channel]
  capacity := rfl
  fits := by simp [channel, Place.Fits]
  sound := by
    refine ⟨?_, ?_, ?_, ?_, ?_, ?_, ?_, ?_, ?_, ?_, ?_, ?_⟩
    case refine_1 =>
      intro party hmem
      rcases List.mem_cons.mp hmem with rfl | hmem
      · exact Holding.fit_handles _ Int.one_nonneg
      · rw [List.mem_singleton.mp hmem]
        exact Holding.fit_handles _ le_rfl
    all_goals simp [channel, Shared.books, Place.holding, Books.listed, Holding.holds,
      Holding.within, Holding.owns, Holding.took, Holding.ticketed, Holding.granted]

theorem Balanced.next {input : Input α} {place place' : Place α} {shared : Shared α}
    {entering : List (Place α)} (hbalanced : Balanced capacity state)
    (hplace : state.parties[i]? = some place)
    (htaken : next state.shared place input = some (shared, place', entering)) :
    Balanced capacity ⟨shared, state.parties.set i place' ++ entering⟩ := by
  have hfits := hbalanced.fits place (List.mem_of_getElem? hplace)
  have hchange := change_next hbalanced.lanes hfits htaken
  obtain ⟨hfits', hentering⟩ := fits_next hbalanced.lanes hfits htaken
  have hlanes : shared.laneCount = state.shared.laneCount := hchange.laneCount
  refine ⟨hlanes ▸ hbalanced.lanes, hchange.capacity.trans hbalanced.capacity, ?_, ?_⟩
  · intro other hmem
    rcases List.mem_append.mp hmem with hmem | hmem
    · rcases List.mem_or_eq_of_mem_set hmem with hmem | rfl
      · exact (hbalanced.fits other hmem).mono hlanes hchange.more
      · exact hfits'
    · exact hentering other hmem
  · have hstep := hbalanced.sound.step hchange (i := i) (by simp [hplace])
    simpa only [List.map_append, List.map_set] using hstep

theorem Reachable.balanced {lanes : Nat} (hreach : Reachable capacity lanes state) :
    Balanced capacity state :=
  Machine.Pool.invariant (balanced_channel capacity lanes)
    (fun _ _ _ _ _ _ _ hbalanced _ hplace htaken => hbalanced.next hplace htaken) hreach

/-! ## Where the units are -/

/-- The units granted to parked reservations that have not yet taken them. -/
def granted (state : State α) : ℤ :=
  weigh (fun place => place.holding.granted state.shared.states) state.parties

def permitsOut (state : State α) : ℤ := weigh (fun place => place.holding.permits) state.parties

/-- The units on their way between two of the others. -/
def inTransit (state : State α) : ℤ := weigh (fun place => place.holding.transit) state.parties

/-- The entries of a list, and those a party holding its lock just took out of it. -/
def entries (state : State α) (index : Nat) : ℤ :=
  (state.shared.lanes index).waiters.length +
    weigh (fun place => place.holding.within index Holding.drawn) state.parties

/-- The entries of all lists, and those just taken out of them. -/
def allEntries (state : State α) : ℤ :=
  state.shared.books.listed + weigh (fun place => place.holding.drawn) state.parties

theorem Reachable.units {lanes : Nat} (hreach : Reachable capacity lanes state) :
    state.shared.room + granted state + permitsOut state + state.shared.queue.length +
      inTransit state = capacity := by
  have hunits := hreach.balanced.sound.units
  simp only [weigh_map] at hunits
  exact hunits.trans (by rw [← hreach.balanced.capacity]; rfl)

/-- In every state of every interleaving the units free in the room, granted and
not yet taken, held by permits, queued and on their way sum to the capacity; no
counter leaves its range; and at most `capacity` messages are queued. -/
theorem units_conserved {capacity lanes : Nat} (hreach : Reachable capacity lanes state) :
    state.shared.room + granted state + permitsOut state + state.shared.queue.length +
        inTransit state = capacity ∧
      (0 ≤ state.shared.room ∧ state.shared.room ≤ capacity) ∧
      (0 ≤ state.shared.waitingTotal ∧ state.shared.waitingTotal ≤ allEntries state) ∧
      (∀ index, 0 ≤ (state.shared.lanes index).waiting ∧
        (state.shared.lanes index).waiting ≤ entries state index) ∧
      (0 ≤ state.shared.txCount ∧ state.shared.txCount ≤ state.parties.length) ∧
      state.shared.queue.length ≤ capacity := by
  have hsound := hreach.balanced.sound
  have hunits := hreach.units
  have hgranted : 0 ≤ granted state := weigh_nonneg fun place _ => place.holding.granted_nonneg _
  have hpermits : 0 ≤ permitsOut state := weigh_nonneg fun place _ => place.permits_nonneg
  have htransit : 0 ≤ inTransit state := weigh_nonneg fun place _ => place.transit_nonneg
  have hroom : 0 ≤ state.shared.room := hsound.room
  have htotal := hsound.total_bounds
  have hcounts := hsound.count_bounds
  have hhandles := hsound.handles
  simp only [weigh_map] at htotal hcounts hhandles
  refine ⟨hunits, ⟨hroom, by omega⟩, htotal, hcounts, ?_, by omega⟩
  change state.shared.txCount = _ at hhandles
  rw [hhandles]
  exact ⟨weigh_nonneg fun place _ => by cases place <;> simp [Place.holding],
    weigh_le_length fun place _ => by cases place <;> simp [Place.holding]⟩

/-- A mailbox of one unit: one message takes it, a reservation parks, and the
receiver's unit is granted to the parked reservation. -/
def handover : List (Nat × Input Nat) :=
  [(0, .trySend 7)] ++ List.replicate 5 (2, .go) ++ [(0, .reserve), (3, .poll 5)] ++
    List.replicate 11 (3, .go) ++ [(1, .recv)] ++ List.replicate 5 (1, .go)

theorem units_conserved_handover : ∃ state : State Nat, Reachable 1 1 state ∧ granted state = 1 ∧
    state.shared.room + granted state + permitsOut state + state.shared.queue.length +
      inTransit state = 1 := by
  have hreach := @Machine.reaches_get (State Nat) (Nat × Input Nat) (Machine.Pool.step next)
    (channel Nat 1 1) handover (by decide +kernel)
  exact ⟨_, hreach, by decide +kernel, (units_conserved hreach).1⟩

end TokioActors.Mailbox
