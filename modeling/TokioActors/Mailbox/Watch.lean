/-
# No waiter is left beside free room

A sender that parks counts itself and then looks at the room; a party that gives a
unit back adds it to the room and then looks at the count. Whenever there is both a
counted waiter and a free unit, some party is between such a change and its look, or
in the loop that moves units to waiters. A waiter that still waits is in its list or
in the hands of a party that took it out, so when no party is under way, no waiter
waits beside a free unit.
-/

import TokioActors.Mailbox.Units

namespace TokioActors.Mailbox

open Machine.Pool Machine Holding

universe u

/-! ## Waiters are in their lists -/

section Present

variable {b b' : Books} {h h' : Holding} {entering parties : List Holding} {i : Nat}
  {waiter : WaiterId}

theorem Sound.ticket_sole (hsound : Sound b parties) (hplace : parties[i]? = some h) {index : Nat}
    (hticket : h.ticket = some (index, waiter)) (other : Nat) :
    weigh (ticketed (other, waiter)) parties = if other = index then 1 else 0 := by
  have hown : (1 : ℤ) ≤ weigh (ticketed (index, waiter)) parties := by
    refine le_trans ?_ (weight_le_weigh (ticketed_nonneg (index, waiter)) hplace)
    simp [ticketed, hticket]
  have howned := hsound.owned waiter
  have hle : weigh (ticketed (index, waiter)) parties ≤
      weigh (owns waiter) parties :=
    weigh_mono fun party _ => party.ticketed_le_owns (index, waiter)
  by_cases hother : other = index
  · subst hother
    rw [if_pos rfl]
    omega
  · have hboth : weigh (ticketed (other, waiter)) parties +
        weigh (ticketed (index, waiter)) parties ≤ weigh (owns waiter) parties := by
      rw [← weigh_add]
      exact weigh_mono fun party _ => party.ticketed_add_le_owns hother waiter
    have hnonneg : 0 ≤ weigh (ticketed (other, waiter)) parties :=
      weigh_nonneg fun party _ => party.ticketed_nonneg _
    rw [if_neg hother]
    omega

/-- A reservation whose waiter still waits has its entry in its list, or a party has
just taken it out. -/
def Present (b : Books) (parties : List Holding) : Prop :=
  ∀ index waiter, 0 < weigh (ticketed (index, waiter)) parties →
    b.states waiter = .waiting →
      0 < ((b.lanes index).waiters.count waiter : ℤ) + weigh (took index waiter) parties

theorem Sound.ticket_fresh (hsound : Sound b parties) (hfresh : b.nextWaiter ≤ waiter)
    (index : Nat) : weigh (ticketed (index, waiter)) parties = 0 := by
  have hle : weigh (ticketed (index, waiter)) parties ≤
      weigh (owns waiter) parties :=
    weigh_mono fun party _ => party.ticketed_le_owns (index, waiter)
  have hnonneg : 0 ≤ weigh (ticketed (index, waiter)) parties :=
    weigh_nonneg fun party _ => party.ticketed_nonneg _
  have hnone := hsound.fresh waiter hfresh
  omega

/-- A change hides an entry only when its reservation withdraws it or its waiter's
state changes. -/
theorem Change.entries_le (hchange : Change b h b' h' entering) (hfit : h.Fit b)
    (hstate : b'.states waiter = .waiting) (index : Nat) :
    ((b.lanes index).waiters.count waiter : ℤ) + h.took index waiter ≤
        (b'.lanes index).waiters.count waiter + h'.took index waiter ∨
      h.ticket = some (index, waiter) ∧ h'.ticket = none := by
  have hout (hcritical : h.critical = none) : h.took index waiter = 0 := by
    simp [took, within, hcritical]
  cases hchange with
  | move | clone | discard | claim | leave => exact .inl le_rfl
  | @count home _ | @push home _ _ _ _ =>
    by_cases hindex : index = home
    · subst hindex
      exact .inl (by simp [took, within])
    · exact .inl (by simp [took, within, hindex])
  | @lock home bound free outside =>
    have hnone := (hfit.outside outside).1
    by_cases hindex : index = home
    · subst hindex
      exact .inl (by simp [took, within, hnone])
    · exact .inl (by simp [took, within, hnone, hindex])
  | @settle home inside changed counted =>
    by_cases hindex : index = home
    · subst hindex
      exact .inl (by simp [took, within, changed])
    · exact .inl (by simp [took, within, changed, hindex])
  | @pop home first' rest bound free first outside =>
    rw [hout outside]
    by_cases hindex : index = home
    · subst hindex
      refine .inl ?_
      simp [took, within, first, List.count_cons]
    · exact .inl (by simp [took, within, hindex, Ne.symm hindex])
  | @withdraw home own ticketed free listed outside =>
    rw [hout outside]
    by_cases hindex : index = home
    · subst hindex
      by_cases hwaiter : waiter = own
      · subst hwaiter
        exact .inr ⟨ticketed, rfl⟩
      · refine .inl ?_
        simp [took, within, List.count_erase_of_ne hwaiter]
    · refine .inl ?_
      simp only [Function.update_of_ne hindex, add_zero, le_add_iff_nonneg_right]
      exact took_nonneg _ _ _
  | @drain home bound free outside =>
    rw [hout outside]
    by_cases hindex : index = home
    · subst hindex
      exact .inl (by simp [took, within])
    · exact .inl (by simp [took, within, hindex, Ne.symm hindex])
  | @grant entry taken _ | @shut entry _ taken =>
    have hne : waiter ≠ entry := by
      rintro rfl
      simp at hstate
    exact .inl (by simp [took, within, taken, hne.symm])

/-- A change gives out no ticket but that of a new waiter, whose entry it adds. -/
theorem Change.ticketed_le (hchange : Change b h b' h' entering) (index : Nat) (waiter : WaiterId) :
    h'.ticketed (index, waiter) ≤ h.ticketed (index, waiter) ∨
      waiter = b.nextWaiter ∧ 0 < (b'.lanes index).waiters.count waiter := by
  have hlost (hnone : h'.ticket = none) :
      h'.ticketed (index, waiter) ≤ h.ticketed (index, waiter) := by
    simpa [ticketed, hnone] using h.ticketed_nonneg (index, waiter)
  cases hchange with
  | @push home inside unlisted settled existing =>
    by_cases hnew : some (home, b.nextWaiter) = some (index, waiter)
    · cases hnew
      exact .inr ⟨rfl, by simp⟩
    · refine .inl ?_
      simpa [ticketed, hnew] using h.ticketed_nonneg (index, waiter)
  | withdraw | claim | leave => exact .inl (hlost rfl)
  | move | clone | discard | count | lock | settle | pop | drain | grant | shut => exact .inl le_rfl

/-- A waiter that waits after a change is new or waited before. -/
theorem Change.state_of_waiting (hchange : Change b h b' h' entering)
    (hstate : b'.states waiter = .waiting) :
    b.states waiter = .waiting ∨ waiter = b.nextWaiter := by
  have hupdate {entry : WaiterId} {state : WaiterState}
      (hstate : Function.update b.states entry state waiter = .waiting) (hne : state ≠ .waiting) :
      b.states waiter = .waiting := by
    rw [Function.update_apply] at hstate
    split at hstate
    · exact absurd hstate hne
    · exact hstate
  cases hchange with
  | push =>
    by_cases hnew : waiter = b.nextWaiter
    · exact .inr hnew
    · exact .inl (by simpa [hnew] using hstate)
  | grant | shut => exact .inl (hupdate hstate nofun)
  | move | clone | discard | count | lock | settle | pop | drain | withdraw | claim | leave =>
    exact .inl hstate

/-- A change keeps every waiting entry in its list or in a party's hands. -/
theorem Present.step (hpresent : Present b parties) (hsound : Sound b parties)
    (hchange : Change b h b' h' entering) (hplace : parties[i]? = some h) :
    Present b' (parties.set i h' ++ entering) := by
  intro index waiter hticketed' hstate'
  have hfit := hsound.fit h (List.mem_of_getElem? hplace)
  have hticketed := hchange.weighed (ticketed (index, waiter)) hplace fun _ => rfl
  have htook := hchange.weighed (took index waiter) hplace fun _ => rfl
  have hnonneg : 0 ≤ weigh (took index waiter) (parties.set i h' ++ entering) :=
    weigh_nonneg fun party _ => party.took_nonneg index waiter
  rcases hchange.ticketed_le index waiter with hkept | ⟨_, hnew⟩
  · have hstate : b.states waiter = .waiting := by
      refine (hchange.state_of_waiting hstate').resolve_right fun hnew => ?_
      have hnone := hsound.ticket_fresh hnew.ge index
      omega
    have hbefore := hpresent index waiter (by omega) hstate
    rcases hchange.entries_le hfit hstate' index with hle | ⟨hticket, hnone⟩
    · omega
    · have hsole := hsound.ticket_sole hplace hticket index
      have hmine : h.ticketed (index, waiter) = 1 := by simp [ticketed, hticket]
      have hother : h'.ticketed (index, waiter) = 0 := by simp [ticketed, hnone]
      rw [if_pos rfl] at hsole
      omega
  · omega

end Present

/-! ## Someone looks -/

variable {α : Type u}

def Taker.watches : Taker α → Bool
  | rebalance _ => true
  | _ => false

def Granter.watches : Granter α → Bool
  | rebalance _ => true
  | _ => false

def Woken.watches : Woken α → Bool
  | rebalance _ => true
  | _ => false

/-- The party is between a change of the room or the count and its look at the other,
or in the loop of `rebalance`. -/
def Place.watches : Place α → Bool
  | wakeReader next => next.watches
  | wakeSwap next => next.watches
  | takeUnit taker => taker.watches
  | takeExchange taker _ => taker.watches
  | releaseRecheck _ _ => true
  | rebalance _ => true
  | rebalanceRoom _ => true
  | rebalanceWake _ => true
  | grantOne granter => granter.watches
  | grantScan granter _ _ => granter.watches
  | grantPop granter _ _ => granter.watches
  | grantState granter _ _ => granter.watches
  | grantCount granter _ => granter.watches
  | grantTotal granter _ => granter.watches
  | parkRoom _ _ => true
  | _ => false

/-- There is a counted waiter and a free unit. -/
def Shared.Unsettled (s : Shared α) : Prop := 0 < s.room ∧ 0 < s.waitingTotal

variable {s s' : Shared α} {place place' : Place α} {entering : List (Place α)} {input : Input α}

/-- What a step of a party does to who looks: it looks on, leaves nothing to look at,
or did not look and leaves no more to look at than before. -/
def Looks (s : Shared α) (place : Place α) (s' : Shared α) (place' : Place α) : Prop :=
  place'.watches = true ∨ ¬ s'.Unsettled ∨
    place.watches = false ∧ s'.room ≤ s.room ∧ s'.waitingTotal ≤ s.waitingTotal

theorem Looks.idle (hplace : place.watches = false) (hroom : s'.room = s.room)
    (htotal : s'.waitingTotal = s.waitingTotal) : Looks s place s' place' :=
  .inr (.inr ⟨hplace, hroom.le, htotal.le⟩)

theorem Taker.looks_attempt (s : Shared α) (taker : Taker α)
    (hplace : place.watches = taker.watches) :
    Looks s place s (taker.attempt s) := by
  unfold attempt
  split
  · cases hwatches : taker.watches with
    | true => exact .inl hwatches
    | false => exact .idle (hplace.trans hwatches) rfl rfl
  · exact .inr (.inl fun h => absurd h.1 ‹_›)

theorem Granter.looks_granted (granter : Granter α) (hplace : place.watches = granter.watches)
    (hroom : s'.room ≤ s.room) (htotal : s'.waitingTotal ≤ s.waitingTotal) :
    Looks s place s' granter.granted := by
  cases granter with
  | release => exact .inr (.inr ⟨hplace, hroom, htotal⟩)
  | rebalance => exact .inl rfl

theorem Looks.of_watches {next : Bool} (hplace : place.watches = next)
    (hnext : place'.watches = next)
    (hroom : s'.room = s.room) (htotal : s'.waitingTotal = s.waitingTotal) :
    Looks s place s' place' := by
  cases next with
  | true => exact .inl hnext
  | false => exact .idle hplace hroom htotal

theorem Woken.watches_place (next : Woken α) (hwatches : next.watches = true) :
    next.place.watches = true := by
  cases next with
  | resume => cases hwatches
  | rebalance => rfl

theorem Looks.of_woken (next : Woken α) (hplace : place.watches = next.watches)
    (hroom : s'.room = s.room) (htotal : s'.waitingTotal = s.waitingTotal) :
    Looks s place s' next.place := by
  cases hwatches : next.watches with
  | true => exact .inl (next.watches_place hwatches)
  | false => exact .idle (hplace.trans hwatches) hroom htotal

theorem looks_advance (htaken : advance s place = some (s', place')) : Looks s place s' place' := by
  cases place with
  | takeUnit taker =>
    cases htaken
    exact taker.looks_attempt s rfl
  | takeExchange taker current =>
    simp only [advance] at htaken
    split at htaken
    · rename_i hroom
      cases htaken
      cases taker with
      | rebalance => exact .inl rfl
      | reserve | trySend => exact .inr (.inr ⟨rfl, by dsimp only; omega, le_rfl⟩)
    · cases htaken
      exact taker.looks_attempt s rfl
  | releaseRoom | rebalanceRoom | parkTotal =>
    cases htaken
    exact .inl rfl
  | releaseRecheck | rebalance =>
    cases htaken
    split
    · exact .inl rfl
    · exact .inr (.inl fun h => absurd h.2 ‹_›)
  | parkRoom =>
    cases htaken
    split
    · exact .inl rfl
    · exact .inr (.inl fun h => absurd h.1 ‹_›)
  | rebalanceWake =>
    cases htaken
    split <;> exact .inl rfl
  | wakeReader next =>
    cases htaken
    split
    · exact .of_watches rfl rfl rfl rfl
    · exact .of_woken next rfl rfl rfl
  | wakeSwap next =>
    cases htaken
    exact .of_woken next rfl rfl rfl
  | grantOne | grantState | grantCount =>
    cases htaken
    exact .of_watches rfl rfl rfl rfl
  | grantScan granter =>
    simp only [advance] at htaken
    split at htaken
    · cases htaken
      split <;> exact .of_watches rfl rfl rfl rfl
    · cases htaken
      cases granter with
      | release => exact .idle rfl rfl rfl
      | rebalance => exact .inl rfl
  | grantPop =>
    simp only [advance] at htaken
    split at htaken
    · cases htaken
    · split at htaken <;> cases htaken <;> exact .of_watches rfl rfl rfl rfl
  | grantTotal granter =>
    cases htaken
    exact granter.looks_granted rfl le_rfl (Int.sub_le_self _ Int.one_nonneg)
  | cancelTotal =>
    cases htaken
    exact .inr (.inr ⟨rfl, le_rfl, Int.sub_le_self _ Int.one_nonneg⟩)
  | closeTotal closer index drained =>
    cases htaken
    exact .inr (.inr ⟨rfl, le_rfl, Int.sub_le_self _ (Int.natCast_nonneg drained)⟩)
  | closeState closer index left => cases left <;> cases htaken <;> exact .idle rfl rfl rfl
  | _ =>
    -- The places left touch neither the room nor the count.
    simp only [advance] at htaken
    repeat' split at htaken
    all_goals cases htaken
    all_goals exact .idle rfl rfl rfl

theorem looks_falter (htaken : falter s place = some (s', place')) : Looks s place s' place' := by
  cases place with
  | takeExchange taker =>
    cases htaken
    exact taker.looks_attempt s rfl
  | parkPush | pollSettled =>
    cases htaken
    exact .idle rfl rfl rfl
  | pollWaker =>
    simp only [falter] at htaken
    split at htaken
    · cases htaken
    · cases htaken
      exact .idle rfl rfl rfl
  | _ => cases htaken

theorem looks_takeMessage {empty : Place α} (hplace : place.watches = false) :
    Looks s place (takeMessage s empty).1 (takeMessage s empty).2 := by
  unfold takeMessage
  split <;> exact .idle hplace rfl rfl

theorem looks_call (htaken : call s place input = some (s', place', entering)) :
    Looks s place s' place' := by
  unfold call at htaken
  split at htaken
  all_goals cases htaken
  all_goals
    first
    | exact .idle rfl rfl rfl
    | exact looks_takeMessage rfl

theorem looks_next (htaken : next s place input = some (s', place', entering)) :
    Looks s place s' place' := by
  rcases next_eq_some htaken with ⟨hadvance, rfl⟩ | ⟨hfalter, rfl⟩ | hcall
  · exact looks_advance hadvance
  · exact looks_falter hfalter
  · exact looks_call hcall

/-- Whenever there is a counted waiter and a free unit, some party looks. -/
def Watched (state : State α) : Prop :=
  state.shared.Unsettled → ∃ place ∈ state.parties, place.watches = true

theorem Watched.next {state : State α} {i : Nat} (hwatched : Watched state)
    (hplace : state.parties[i]? = some place)
    (htaken : next state.shared place input = some (s', place', entering)) :
    Watched ⟨s', state.parties.set i place' ++ entering⟩ := by
  obtain ⟨hi, -⟩ := List.getElem?_eq_some_iff.mp hplace
  intro hunsettled
  rcases looks_next htaken with hlooks | hnone | ⟨hidle, hroom, htotal⟩
  · exact ⟨place', List.mem_append_left _ (List.mem_set hi _), hlooks⟩
  · exact absurd hunsettled hnone
  · obtain ⟨other, hmem, hother⟩ :=
      hwatched ⟨hunsettled.1.trans_le hroom, hunsettled.2.trans_le htotal⟩
    -- The party that looked is not the one that stepped.
    obtain ⟨j, hj⟩ := List.mem_iff_getElem?.mp hmem
    have hne : i ≠ j := by
      rintro rfl
      obtain rfl : place = other := Option.some.inj (hplace.symm.trans hj)
      cases hidle.symm.trans hother
    have hstays : (state.parties.set i place')[j]? = some other :=
      (List.getElem?_set_ne hne).trans hj
    exact ⟨other, List.mem_append_left _ (List.mem_of_getElem? hstays), hother⟩

/-! ## Nobody waits beside free room -/

variable {state : State α} {capacity lanes : Nat}

theorem Reachable.watched (hreach : Reachable capacity lanes state) : Watched state := by
  refine Pool.invariant ?_ ?_ hreach
  · exact fun h => absurd h.2 (by simp [channel])
  · exact fun _ _ _ _ _ _ _ hwatched _ hplace htaken => hwatched.next hplace htaken

/-- Every waiting entry of a mailbox is in its list or in a party's hands. -/
def Placed (state : State α) : Prop :=
  Present state.shared.books (state.parties.map Place.holding)

theorem placed_channel (capacity lanes : Nat) : Placed (channel α capacity lanes) := by
  intro index waiter hticketed
  simp [channel, Place.holding, ticketed] at hticketed

theorem Reachable.placed (hreach : Reachable capacity lanes state) : Placed state := by
  refine Pool.invariant_reached (placed_channel capacity lanes) ?_ hreach
  intro pool i input place place' shared entering hbefore hplaced _ hplace htaken
  have hbalanced := Reachable.balanced hbefore
  have hchange := change_next hbalanced.lanes
    (hbalanced.fits place (List.mem_of_getElem? hplace)) htaken
  have hstep := hplaced.step hbalanced.sound hchange (i := i) (by simp [hplace])
  simpa only [Placed, List.map_append, List.map_set] using hstep

/-- The entry of a parked reservation that still waits is in its list, or a party with
the list's lock has taken it out. -/
theorem Reachable.found (hreach : Reachable capacity lanes state) {lane : Nat} {waiter : WaiterId}
    (hparked : .parked lane waiter ∈ state.parties)
    (hwaits : state.shared.states waiter = .waiting) :
    lane < state.shared.laneCount ∧ (waiter ∈ (state.shared.lanes lane).waiters ∨
      ∃ place ∈ state.parties, place.holding.critical = some lane ∧
        waiter ∈ place.holding.removed) := by
  have hholding : (Place.parked lane waiter : Place α).holding ∈ state.parties.map Place.holding :=
    List.mem_map_of_mem hparked
  obtain ⟨i, hi⟩ := List.mem_iff_getElem?.mp hholding
  have hticketed := weight_le_weigh (ticketed_nonneg (lane, waiter)) hi
  have hone : (Place.parked lane waiter : Place α).holding.ticketed (lane, waiter) = 1 := by
    simp [Place.holding, ticketed]
  have hplaced := hreach.placed lane waiter (by omega) hwaits
  have hfit := hreach.balanced.sound.fit _ hholding
  refine ⟨(hfit.ticket lane waiter rfl).1, ?_⟩
  by_contra hnowhere
  obtain ⟨hlist, hparties⟩ := not_or.mp hnowhere
  have hcount : (state.shared.books.lanes lane).waiters.count waiter = 0 :=
    List.count_eq_zero_of_not_mem hlist
  have htook : weigh (took lane waiter) (state.parties.map Place.holding) = 0 := by
    rw [weigh_map]
    refine weigh_zero fun place hmem => ?_
    by_cases hcritical : place.holding.critical = some lane
    · have hnot : waiter ∉ place.holding.removed := fun h => hparties ⟨place, hmem, hcritical, h⟩
      simp [took, within, List.count_eq_zero_of_not_mem hnot]
    · simp [took, within, hcritical]
  omega

section Unlocked

variable {capacity lanes lane : Nat} {waiter : WaiterId} (hreach : Reachable capacity lanes state)
  (houtside : ∀ place ∈ state.parties, place.holding.critical = none)

include hreach houtside

end Unlocked

/-! ## A release reaches a waiter -/

/-- Accesses that one party makes with no other between them. -/
abbrev Alone : Shared α × Place α → Shared α × Place α → Prop :=
  Relation.ReflTransGen fun before after => advance before.1 before.2 = some after

theorem Alone.reaches {parties : List (Place α)} {i : Nat} (hi : i < parties.length)
    {before after : Shared α × Place α} (halone : Alone before after) :
    Reaches (Pool.step next) (fun _ label => label = (i, .go))
      ⟨before.1, parties.set i before.2⟩ ⟨after.1, parties.set i after.2⟩ := by
  induction halone with
  | refl => exact .refl
  | tail _ hstep ih =>
    refine ih.tail rfl ?_
    simp [Pool.step, next, List.getElem?_set_self hi, hstep]

end TokioActors.Mailbox
