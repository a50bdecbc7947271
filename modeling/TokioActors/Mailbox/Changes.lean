/-
# Every step of a mailbox is a change of its books

The step of a party, whatever function of the source it is in, is one of the
changes of the books: most steps only read, and the others move a unit, work on
one list under its lock, or bring a counter up to date.
-/

import TokioActors.Mailbox.Holdings

namespace TokioActors.Mailbox

open Place

universe u

attribute [local simp] advance

variable {α : Type u} {b b' : Books} {h h' : Holding} {place place' : Place α} {s s' : Shared α}
  {index : Nat} {waiter : WaiterId}

theorem Place.transit_nonneg (place : Place α) : 0 ≤ place.holding.transit := by
  cases place <;> simp [holding]

theorem Place.permits_nonneg (place : Place α) : 0 ≤ place.holding.permits := by
  cases place <;> simp [holding]

namespace Change

/-- A step that moves at most one unit. -/
theorem moved {entering : List Holding}
    (hbooks : b' = { b with room := b'.room, queued := b'.queued, more := b'.more })
    (hholding : h' = { h with transit := h'.transit, permits := h'.permits })
    (hconserved : b'.room + b'.queued + h'.transit + h'.permits =
      b.room + b.queued + h.transit + h.permits)
    (hfree : 0 ≤ b.room → 0 ≤ b'.room) (hcarried : 0 ≤ h'.transit) (hpermitted : 0 ≤ h'.permits)
    (hlists : b.more = true → b'.more = true) (hplain : ∀ other ∈ entering, other = {}) :
    Change b h b' h' entering := by
  rw [hbooks, hholding]
  exact .move hconserved hfree hcarried hpermitted hlists hplain

/-- A step that leaves the books and what the party holds as they are. -/
theorem quiet {entering : List Holding} (hbooks : b' = b)
    (hholding : place'.holding = place.holding) (hplain : ∀ other ∈ entering, other = {}) :
    Change b place.holding b' place'.holding entering := by
  subst hbooks
  rw [hholding]
  exact .moved rfl rfl rfl id place.transit_nonneg place.permits_nonneg id hplain

theorem toRoom (hbooks : b' = { b with room := b.room + 1 }) (hunit : h.transit = 1)
    (hpermits : 0 ≤ h.permits) (hholding : h' = { h with transit := 0 }) :
    Change b h b' h' [] := by
  subst hbooks hholding
  exact .moved rfl rfl (by dsimp only; omega) (by dsimp only; omega) le_rfl hpermits id (by simp)

/-- A step that only turns a permit's unit into one on its way, or back. -/
theorem turned (hbooks : b' = b)
    (hholding : h' = { h with transit := h'.transit, permits := h'.permits })
    (hunit : h'.transit + h'.permits = h.transit + h.permits) (hcarried : 0 ≤ h'.transit)
    (hpermitted : 0 ≤ h'.permits) : Change b h b' h' [] := by
  subst hbooks
  exact .moved rfl hholding (by omega) id hcarried hpermitted id (by simp)

/-- The last access under a list's lock. -/
theorem settled (hinside : h.critical = some index) (hchanged : h.removed = [])
    (hcounted : h.debt = 0) (hbooks : b' = { b with
      waitingTotal := b.waitingTotal + h.added - h.drawn
      lanes := Function.update b.lanes index { b.lanes index with locked := false } })
    (hholding : h' = { h with critical := none, added := 0, drawn := 0 }) :
    Change b h b' h' [] := by
  subst hbooks hholding
  exact .settle hinside hchanged hcounted

end Change

/-! ## The steps that do more than read -/

theorem change_takeExchange {taker : Taker α} {current : ℤ} (hroom : s.room = current)
    (hpos : 0 < current) :
    Change s.books (takeExchange taker current).holding
      { s with room := current - 1 }.books taker.taken.holding [] := by
  obtain ⟨transit, permits, hcarried, hpermitted, hone, hholding⟩ := taker.holding_taken
  rw [hholding]
  refine .moved rfl rfl ?_ (fun _ => ?_) hcarried hpermitted id (by simp)
  · simp only [holding, Shared.books]
    omega
  · change 0 ≤ current - 1
    omega

theorem change_dequeue {message : α} {rest : List α} {resume : Resume α}
    (hqueue : s.queue = message :: rest) (hplain : place.holding = {}) :
    Change s.books place.holding
      { s with queue := rest, queueHeld := s.queueHeld - 1 }.books
      (release false resume).holding [] := by
  rw [hplain]
  refine .moved rfl rfl ?_ id (transit_nonneg _) le_rfl id (by simp)
  simp only [holding, Shared.books, hqueue, List.length_cons]
  omega

theorem change_takeMessage {empty : Place α} (hplain : place.holding = {})
    (hempty : empty.holding = {}) :
    Change s.books place.holding (takeMessage s empty).1.books
      (takeMessage s empty).2.holding [] := by
  unfold takeMessage
  split
  · rename_i hqueue
    exact change_dequeue hqueue hplain
  · exact .quiet rfl (hempty.trans hplain.symm) (by simp)

/-- A cancelled reservation takes its entry out, gives its unit back, or has
nothing to do. -/
theorem change_cancel (htaken : advance s (.cancel index waiter) = some (s', place')) :
    Change s.books (cancel index waiter : Place α).holding s'.books place'.holding [] := by
  simp only [advance] at htaken
  by_cases hlane : s.hasLane index = true
  · rw [if_pos hlane] at htaken
    split at htaken
    · cases htaken
    rename_i hfree
    have hfree : (s.books.lanes index).locked = false := Bool.eq_false_iff.mpr hfree
    split at htaken
    · rename_i hwaiting
      split at htaken
      · rename_i hlisted
        cases htaken
        exact .withdraw rfl hfree hlisted rfl
      · rename_i hunlisted
        cases htaken
        exact .leave rfl (.inr (.inl ⟨hwaiting, hfree, hunlisted⟩))
    · rename_i hgranted
      cases htaken
      exact .claim rfl hgranted
    · rename_i hclosed
      cases htaken
      exact .leave rfl (.inl hclosed)
  · rw [if_neg hlane] at htaken
    cases htaken
    refine .leave rfl (.inr (.inr ?_))
    simpa [Shared.hasLane, Shared.books] using hlane

/-- The close takes over a list, or goes on to the next. -/
theorem change_closeLane {closer : Closer}
    (htaken : advance s (.closeLane closer index) = some (s', place')) :
    Change s.books (closeLane closer index : Place α).holding s'.books place'.holding [] := by
  simp only [advance] at htaken
  split at htaken
  · rename_i hbound
    split at htaken
    · split at htaken
      · cases htaken
      · rename_i hfree
        cases htaken
        exact .drain hbound (Bool.eq_false_iff.mpr hfree) rfl
    · cases htaken
      exact .quiet rfl rfl (by simp)
  · cases htaken
    exact .quiet rfl closer.holding_place (by simp)

/-- A granter takes the first entry of a list, or goes on with its scan. -/
theorem change_grantPop {granter : Granter α} {start step : Nat} (hlanes : 0 < s.laneCount)
    (htaken : advance s (.grantPop granter start step) = some (s', place')) :
    Change s.books (grantPop granter start step).holding s'.books place'.holding [] := by
  simp only [advance] at htaken
  split at htaken
  · cases htaken
  rename_i hfree
  split at htaken
  · cases htaken
    exact .quiet rfl rfl (by simp)
  · rename_i hfirst
    cases htaken
    exact .pop (Nat.mod_lt _ hlanes) (Bool.eq_false_iff.mpr hfree) hfirst rfl

/-- A parking sender takes its list's lock, unless the mailbox is closed. -/
theorem change_parkLock (hbound : index < s.laneCount)
    (htaken : advance s (.parkLock index) = some (s', place')) :
    Change s.books (parkLock index : Place α).holding s'.books place'.holding [] := by
  simp only [advance] at htaken
  split at htaken
  · cases htaken
  rename_i hfree
  split at htaken
  · cases htaken
    exact .quiet rfl rfl (by simp)
  · cases htaken
    exact .lock hbound (Bool.eq_false_iff.mpr hfree) rfl

theorem change_pollParked (htaken : advance s (.pollParked index waiter) = some (s', place')) :
    Change s.books (pollParked index waiter : Place α).holding s'.books place'.holding [] := by
  simp only [advance] at htaken
  split at htaken
  · rename_i hgranted
    cases htaken
    exact .claim rfl hgranted
  · rename_i hclosed
    cases htaken
    exact .leave rfl (.inl hclosed)
  · cases htaken
    exact .quiet rfl rfl (by simp)

/-! ## Every step -/

/-- Each access of a party under way is a change of the books. -/
theorem change_advance (hlanes : 0 < s.laneCount) (hfits : place.Fits s)
    (htaken : advance s place = some (s', place')) :
    Change s.books place.holding s'.books place'.holding [] := by
  cases place with
  | takeExchange taker current =>
    simp only [advance] at htaken
    split at htaken
    · rename_i hroom
      cases htaken
      exact change_takeExchange hroom hfits
    · cases htaken
      exact .quiet rfl (taker.holding_attempt s) (by simp)
  | landing =>
    cases htaken
    refine .moved rfl rfl ?_ id le_rfl le_rfl id (by simp)
    simp only [holding, Shared.books, List.length_append, List.length_singleton]
    omega
  | releaseRoom | rebalanceRoom =>
    cases htaken
    exact .toRoom rfl rfl le_rfl rfl
  | grantPop => exact change_grantPop hlanes htaken
  | grantState =>
    cases htaken
    exact .grant rfl rfl
  | grantCount | parkCount | cancelCount | closeCount =>
    cases htaken
    exact .count rfl
  | grantTotal granter =>
    cases htaken
    exact .settled rfl rfl rfl (by simp [holding, Shared.books, Shared.setLane])
      granter.holding_granted
  | park =>
    cases htaken
    refine .moved rfl rfl rfl id le_rfl le_rfl (fun hmore => ?_) (by simp)
    simpa [Shared.books] using Or.inl hmore
  | parkLock => exact change_parkLock hfits.1 htaken
  | parkPush index =>
    cases htaken
    refine .push rfl rfl ⟨rfl, rfl⟩ ?_
    have hlane : s.hasLane index = true := hfits
    simpa [Shared.hasLane, Shared.books] using hlane
  | parkTotal | cancelTotal | closeTotal =>
    cases htaken
    exact .settled rfl rfl rfl (by simp [holding, Shared.books, Shared.setLane]) rfl
  | pollParked => exact change_pollParked htaken
  | pollGranted =>
    simp only [advance] at htaken
    split at htaken
    · cases htaken
      exact .quiet rfl rfl (by simp)
    · cases htaken
      exact .turned rfl rfl rfl le_rfl (permits_nonneg _)
  | cancel => exact change_cancel htaken
  | closeLane => exact change_closeLane htaken
  | closeState closer index left =>
    cases left with
    | nil =>
      cases htaken
      exact .quiet rfl rfl (by simp)
    | cons =>
      cases htaken
      exact .shut rfl
  | dropTake =>
    simp only [advance] at htaken
    split at htaken
    · cases htaken
      exact .quiet rfl rfl (by simp)
    · rename_i hqueue
      cases htaken
      exact change_dequeue hqueue rfl
  | closeQueue =>
    cases htaken
    refine .quiet rfl ?_ (by simp)
    split <;> rfl
  | _ =>
    -- The places left only read, and go on to a place that holds the same.
    simp only [advance] at htaken
    repeat' split at htaken
    all_goals cases htaken
    all_goals
      first
      | exact .quiet rfl rfl (by simp)
      | exact .quiet rfl (Woken.holding_place _) (by simp)
      | exact .quiet rfl (Resume.holding_place _) (by simp)
      | exact .quiet rfl (Rebalancer.holding_place _) (by simp)
      | exact .quiet rfl (Taker.holding_attempt s _) (by simp)
      | exact .quiet rfl (Granter.holding_notGranted _) (by simp)

theorem change_falter (htaken : falter s place = some (s', place')) :
    Change s.books place.holding s'.books place'.holding [] := by
  cases place with
  | takeExchange taker =>
    cases htaken
    exact .quiet rfl (taker.holding_attempt s) (by simp)
  | parkPush =>
    cases htaken
    exact .settled rfl rfl rfl (by simp [holding, Shared.books, Shared.setLane]) rfl
  | pollWaker =>
    simp only [falter] at htaken
    split at htaken <;> cases htaken
    exact .quiet rfl rfl (by simp)
  | pollSettled =>
    cases htaken
    exact .quiet rfl rfl (by simp)
  | _ => cases htaken

theorem change_call {input : Input α} {entering : List (Place α)}
    (htaken : call s place input = some (s', place', entering)) :
    Change s.books place.holding s'.books place'.holding (entering.map holding) := by
  unfold call at htaken
  split at htaken <;> cases htaken
  case h_1 => exact .clone
  case h_2 | h_3 => exact .quiet rfl rfl (by simp [holding])
  case h_4 => split <;> exact .discard rfl
  case h_9 | h_10 => exact .turned rfl rfl rfl (transit_nonneg _) le_rfl
  case h_11 => exact change_takeMessage rfl (by split <;> rfl)
  case h_12 => exact change_takeMessage rfl rfl
  all_goals exact .quiet rfl rfl (by simp)

/-! ## What the places rely on -/

theorem Place.Fits.mono (hlanes : s'.laneCount = s.laneCount)
    (hmore : s.more = true → s'.more = true)
    (hfits : place.Fits s) : place.Fits s' := by
  have hlane : ∀ index, s.hasLane index = true → s'.hasLane index = true := by
    intro index
    simp only [Shared.hasLane, Bool.or_eq_true]
    exact Or.imp_right hmore
  cases place with
  | park => exact lt_of_lt_of_eq hfits hlanes.symm
  | parkLock => exact ⟨lt_of_lt_of_eq hfits.1 hlanes.symm, hlane _ hfits.2⟩
  | parkPush => exact hlane _ hfits
  | takeExchange => exact hfits
  | _ => trivial

theorem Shared.waitLane_lt (hlanes : 0 < s.laneCount) (key : Nat) :
    s.waitLane key < s.laneCount := by
  unfold Shared.waitLane
  split
  · exact hlanes
  · exact Nat.mod_lt _ hlanes

theorem Resume.fits_place (resume : Resume α) : resume.place.Fits s := by
  cases resume <;> trivial

theorem Woken.fits_place (next : Woken α) : next.place.Fits s := by
  cases next with
  | resume resume => exact resume.fits_place
  | rebalance => trivial

theorem Rebalancer.fits_place (caller : Rebalancer α) : caller.place.Fits s := by
  cases caller <;> trivial

theorem Taker.fits_taken (taker : Taker α) : taker.taken.Fits s := by
  cases taker <;> trivial

theorem Taker.fits_attempt (hlanes : 0 < s.laneCount) (taker : Taker α) :
    (taker.attempt s).Fits s := by
  unfold Taker.attempt
  split
  · rename_i hroom
    exact hroom
  · cases taker with
    | reserve key => exact Shared.waitLane_lt hlanes key
    | trySend => trivial
    | rebalance caller => exact caller.fits_place

theorem Granter.fits_granted (granter : Granter α) : granter.granted.Fits s := by
  cases granter with
  | release wake resume => exact resume.fits_place
  | rebalance => trivial

theorem Granter.fits_notGranted (granter : Granter α) : granter.notGranted.Fits s := by
  cases granter <;> trivial

theorem Closer.fits_place (closer : Closer) : (closer.place : Place α).Fits s := by
  cases closer <;> trivial

theorem fits_advance (hlanes : 0 < s.laneCount) (hfits : place.Fits s)
    (htaken : advance s place = some (s', place')) : place'.Fits s' := by
  cases place with
  | park index =>
    cases htaken
    refine ⟨hfits, ?_⟩
    by_cases hindex : index = 0 <;> simp [Shared.hasLane, hindex]
  | parkLock =>
    simp only [advance] at htaken
    repeat' split at htaken
    · cases htaken
    · cases htaken
      trivial
    · cases htaken
      exact hfits.2
  | _ =>
    simp only [advance] at htaken
    repeat' split at htaken
    all_goals cases htaken
    all_goals
      first
      | trivial
      | exact Woken.fits_place _
      | exact Resume.fits_place _
      | exact Rebalancer.fits_place _
      | exact Taker.fits_taken _
      | exact Taker.fits_attempt hlanes _
      | exact Granter.fits_granted _
      | exact Granter.fits_notGranted _
      | exact Closer.fits_place _

theorem fits_falter (hlanes : 0 < s.laneCount) (htaken : falter s place = some (s', place')) :
    place'.Fits s' := by
  cases place with
  | takeExchange taker =>
    cases htaken
    exact taker.fits_attempt hlanes
  | parkPush | pollSettled =>
    cases htaken
    trivial
  | pollWaker =>
    simp only [falter] at htaken
    split at htaken <;> cases htaken
    trivial
  | _ => cases htaken

theorem fits_takeMessage {empty : Place α} (hempty : ∀ t : Shared α, empty.Fits t) :
    (takeMessage s empty).2.Fits (takeMessage s empty).1 := by
  unfold takeMessage
  split
  · trivial
  · exact hempty s

variable {input : Input α} {entering : List (Place α)}

theorem next_eq_some (htaken : next s place input = some (s', place', entering)) :
    advance s place = some (s', place') ∧ entering = [] ∨
      falter s place = some (s', place') ∧ entering = [] ∨
      call s place input = some (s', place', entering) := by
  unfold next at htaken
  split at htaken
  · obtain ⟨⟨t, q⟩, hadvance, heq⟩ := Option.map_eq_some_iff.mp htaken
    cases heq
    exact .inl ⟨hadvance, rfl⟩
  · obtain ⟨⟨t, q⟩, hfalter, heq⟩ := Option.map_eq_some_iff.mp htaken
    cases heq
    exact .inr (.inl ⟨hfalter, rfl⟩)
  · exact .inr (.inr htaken)

/-- Every step of a party is a change of the books. -/
theorem change_next (hlanes : 0 < s.laneCount) (hfits : place.Fits s)
    (htaken : next s place input = some (s', place', entering)) :
    Change s.books place.holding s'.books place'.holding (entering.map holding) := by
  rcases next_eq_some htaken with ⟨hadvance, rfl⟩ | ⟨hfalter, rfl⟩ | hcall
  · exact change_advance hlanes hfits hadvance
  · exact change_falter hfalter
  · exact change_call hcall

theorem fits_call (htaken : call s place input = some (s', place', entering)) :
    place'.Fits s' ∧ ∀ other ∈ entering, other.Fits s' := by
  unfold call at htaken
  split at htaken
  all_goals cases htaken
  all_goals refine ⟨?_, by simp [Fits]⟩
  all_goals
    first
    | trivial
    | (split <;> trivial)
    | exact fits_takeMessage fun _ => trivial
    | exact fits_takeMessage fun _ => by split <;> trivial

/-- A step leaves its own party and the new ones at places that fit. -/
theorem fits_next (hlanes : 0 < s.laneCount) (hfits : place.Fits s)
    (htaken : next s place input = some (s', place', entering)) :
    place'.Fits s' ∧ ∀ other ∈ entering, other.Fits s' := by
  rcases next_eq_some htaken with ⟨hadvance, rfl⟩ | ⟨hfalter, rfl⟩ | hcall
  · exact ⟨fits_advance hlanes hfits hadvance, by simp⟩
  · exact ⟨fits_falter hlanes hfalter, by simp⟩
  · exact fits_call hcall

end TokioActors.Mailbox
