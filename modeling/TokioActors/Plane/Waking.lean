/-
# No wake is lost

The run loop has one waker slot for two producers. Its stop branch arms the slot
between two reads of the lane's version, and the plane's branch reads the plane
after that in the same poll. A producer writes, then wakes, and its wake disarms
the slot. So a write that one of the loop's reads did not see is followed by a wake
that finds the slot armed, or finds that another wake disarmed it: either way the
task is to be polled, or a producer is on its way to it.
-/

import TokioActors.Plane.Requests

namespace TokioActors

open Machine

namespace PlaneParty

def Calls (place : PlaneParty) : Prop := ∃ tx, place = .calls tx

/-- The party has written and its wake is not done. -/
def Wakes (place : PlaneParty) : Prop := ∃ tx, place = .wakes tx ∨ place = .calls tx

instance (place : PlaneParty) : Decidable place.Wakes :=
  inferInstanceAs (Decidable (∃ _ : Bool, _))

end PlaneParty

namespace RunLoop

open SystemPlane PlaneParty

/-- A wake that comes from now on reaches the loop, or one is on its way. -/
def Alert (pool : Pool RunLoop PlaneParty) : Prop :=
  pool.shared.armed = true ∨ pool.shared.notified = true ∨ ∃ place ∈ pool.parties, place.Calls

def Outstanding (pool : Pool RunLoop PlaneParty) : Prop :=
  pool.shared.notified = true ∨ ∃ place ∈ pool.parties, place.Wakes

instance (pool : Pool RunLoop PlaneParty) : Decidable (Outstanding pool) :=
  inferInstanceAs (Decidable (_ ∨ ∃ place ∈ pool.parties, place.Wakes))

/-- What the reads the loop made so far in its poll say, as long as no wake is
outstanding. -/
def Watch (pool : Pool RunLoop PlaneParty) : PlaneParty → Prop
  | .rereads => Alert pool
  | .readsHeld | .takesHeld => Alert pool ∧ (pool.shared.hasChanged = true → Outstanding pool)
  | .readsOpen => Alert pool ∧ (pool.shared.hasChanged = true → Outstanding pool) ∧
      (pool.shared.plane.heldBit = true → Outstanding pool)
  | .takesRx => (Alert pool ∧ (pool.shared.hasChanged = true → Outstanding pool) ∧
      (pool.shared.plane.heldBit = true → Outstanding pool)) ∧ pool.shared.plane.openBit = true
  | .readsChannel => (Alert pool ∧ (pool.shared.hasChanged = true → Outstanding pool) ∧
      (pool.shared.plane.heldBit = true → Outstanding pool)) ∧ pool.shared.plane.rxTaken = true
  | .others | .suspended => (Alert pool ∧ (pool.shared.hasChanged = true → Outstanding pool) ∧
      (pool.shared.plane.heldBit = true → Outstanding pool)) ∧
      (pool.shared.plane.queue ≠ [] → Outstanding pool)
  | _ => True

variable {pool after : Pool RunLoop PlaneParty} {state : RunLoop} {place place' : PlaneParty}
  {i : Nat} {entering : List PlaneParty} {action : PlaneAction}

/-- What a step of a producer keeps of the loop's reads. -/
structure Carries (pool after : Pool RunLoop PlaneParty) : Prop where
  alert : Alert pool → Alert after
  changed : Alert pool → (pool.shared.hasChanged = true → Outstanding pool) →
    after.shared.hasChanged = true → Outstanding after
  held : Alert pool → (pool.shared.plane.heldBit = true → Outstanding pool) →
    after.shared.plane.heldBit = true → Outstanding after
  queue : Alert pool → (pool.shared.plane.queue ≠ [] → Outstanding pool) →
    after.shared.plane.queue ≠ [] → Outstanding after
  opens : pool.shared.plane.openBit = true → after.shared.plane.openBit = true
  rxTaken : after.shared.plane.rxTaken = pool.shared.plane.rxTaken

theorem Watch.carries (hwatch : Watch pool place) (hcarries : Carries pool after) :
    Watch after place := by
  obtain ⟨halert, hchanged, hheld, hqueue, hopens, hrx⟩ := hcarries
  cases place with
  | rereads => exact halert hwatch
  | readsHeld | takesHeld => exact ⟨halert hwatch.1, hchanged hwatch.1 hwatch.2⟩
  | readsOpen => exact ⟨halert hwatch.1, hchanged hwatch.1 hwatch.2.1, hheld hwatch.1 hwatch.2.2⟩
  | takesRx =>
    obtain ⟨⟨hon, hlane, hslot⟩, hopen⟩ := hwatch
    exact ⟨⟨halert hon, hchanged hon hlane, hheld hon hslot⟩, hopens hopen⟩
  | readsChannel =>
    obtain ⟨⟨hon, hlane, hslot⟩, htaken⟩ := hwatch
    exact ⟨⟨halert hon, hchanged hon hlane, hheld hon hslot⟩, hrx.trans htaken⟩
  | others | suspended =>
    obtain ⟨⟨hon, hlane, hslot⟩, hchannel⟩ := hwatch
    exact ⟨⟨halert hon, hchanged hon hlane, hheld hon hslot⟩, hqueue hon hchannel⟩
  | _ => trivial

/-! ## A producer's step -/

/-- Flags that stay keep the loop alert, if the party that steps was not to call it. -/
theorem Alert.still (halert : Alert pool) (hplace : pool.parties[i]? = some place)
    (harmed : state.armed = pool.shared.armed) (hnotified : state.notified = pool.shared.notified)
    (hcalls : place.Calls → place'.Calls) :
    Alert ⟨state, pool.parties.set i place' ++ entering⟩ := by
  rcases halert with hset | hset | hsome
  · exact .inl (harmed.trans hset)
  · exact .inr (.inl (hnotified.trans hset))
  · exact .inr (.inr (Pool.exists_after hplace hcalls hsome))

theorem Outstanding.still (hout : Outstanding pool) (hplace : pool.parties[i]? = some place)
    (hnotified : state.notified = pool.shared.notified) (hwakes : place.Wakes → place'.Wakes) :
    Outstanding ⟨state, pool.parties.set i place' ++ entering⟩ := by
  rcases hout with hset | hsome
  · exact .inl (hnotified.trans hset)
  · exact .inr (Pool.exists_after hplace hwakes hsome)

theorem outstanding_own (hplace : pool.parties[i]? = some place) (hwakes : place'.Wakes) :
    Outstanding ⟨state, pool.parties.set i place' ++ entering⟩ := by
  obtain ⟨hi, _⟩ := List.getElem?_eq_some_iff.mp hplace
  exact .inr ⟨place', List.mem_append_left _ (List.mem_set hi _), hwakes⟩

theorem carries_write (hplace : pool.parties[i]? = some place) (hwakes : place'.Wakes)
    (harmed : state.armed = pool.shared.armed) (hnotified : state.notified = pool.shared.notified)
    (hcalls : ¬ place.Calls)
    (hopens : pool.shared.plane.openBit = true → state.plane.openBit = true)
    (hrx : state.plane.rxTaken = pool.shared.plane.rxTaken) :
    Carries pool ⟨state, pool.parties.set i place' ++ entering⟩ where
  alert halert := halert.still hplace harmed hnotified fun hcall => absurd hcall hcalls
  changed _ _ _ := outstanding_own hplace hwakes
  held _ _ _ := outstanding_own hplace hwakes
  queue _ _ _ := outstanding_own hplace hwakes
  opens := hopens
  rxTaken := hrx

theorem carries_still (hplace : pool.parties[i]? = some place)
    (harmed : state.armed = pool.shared.armed) (hnotified : state.notified = pool.shared.notified)
    (hwakes : ¬ place.Wakes) (hchanged : state.hasChanged = pool.shared.hasChanged)
    (hheld : state.plane.heldBit = pool.shared.plane.heldBit)
    (hqueue : state.plane.queue ≠ [] → pool.shared.plane.queue ≠ [])
    (hopens : pool.shared.plane.openBit = true → state.plane.openBit = true)
    (hrx : state.plane.rxTaken = pool.shared.plane.rxTaken) :
    Carries pool ⟨state, pool.parties.set i place' ++ entering⟩ where
  alert halert := by
    refine halert.still hplace harmed hnotified fun hcall => ?_
    obtain ⟨tx, htx⟩ := hcall
    exact absurd ⟨tx, .inr htx⟩ hwakes
  changed _ himp hset :=
    (himp (hchanged ▸ hset)).still hplace hnotified fun hwake => absurd hwake hwakes
  held _ himp hset := (himp (hheld ▸ hset)).still hplace hnotified fun hwake => absurd hwake hwakes
  queue _ himp hne := (himp (hqueue hne)).still hplace hnotified fun hwake => absurd hwake hwakes
  opens := hopens
  rxTaken := hrx

/-- A step after which the loop is alert through a wake that is outstanding. -/
theorem carries_wake (halert : Alert pool → Alert after)
    (hout : Alert pool → Outstanding after)
    (hplane : after.shared.plane = pool.shared.plane) : Carries pool after where
  alert := halert
  changed hon _ _ := hout hon
  held hon _ _ := hout hon
  queue hon _ _ := hout hon
  opens := by
    rw [hplane]
    exact id
  rxTaken := by rw [hplane]

/-- The wake of a producer. If the slot is not armed, whoever disarmed it has woken
the loop or is to do so. -/
theorem carries_wakes {tx : Bool} (hplace : pool.parties[i]? = some (.wakes tx))
    (hnext : next pool.shared (.wakes tx) .go = some (state, place', entering)) :
    Carries pool ⟨state, pool.parties.set i place' ++ entering⟩ := by
  simp only [next] at hnext
  split at hnext
  · cases hnext
    have hown : (PlaneParty.calls tx).Wakes := ⟨tx, .inr rfl⟩
    refine carries_wake (fun _ => ?_) (fun _ => outstanding_own hplace hown) rfl
    obtain ⟨hi, _⟩ := List.getElem?_eq_some_iff.mp hplace
    exact .inr (.inr ⟨.calls tx, List.mem_append_left _ (List.mem_set hi _), tx, rfl⟩)
  next harmed =>
    cases hnext
    have hnot : ¬ (PlaneParty.wakes tx).Calls := nofun
    refine carries_wake (fun hon => hon.still hplace rfl rfl fun hcall => absurd hcall hnot)
      (fun hon => ?_) rfl
    rcases hon with hset | hset | hsome
    · exact absurd hset harmed
    · exact .inl hset
    · obtain ⟨other, hother, tx', rfl⟩ := @Pool.exists_after _ _ _ [] i _ (left tx) hplace
        (fun hcall => absurd hcall hnot) hsome
      exact .inr ⟨_, hother, tx', .inr rfl⟩

theorem raise_of_not_bump {lane : LaneCell} {reason : StopReason}
    (hbump : (laneAccept lane.state reason lane.rxGone).2.2 = false) :
    lane.raise reason = lane := by
  rw [LaneCell.raise, if_neg (by rw [hbump]; decide)]

/-- A requester writes and is to wake the loop, or writes nothing the loop reads. -/
theorem submit_spec {plane : SystemPlane} {request : Nat} :
    (plane.submit request).2 = .wakes false ∨
      ((plane.submit request).1.heldBit = plane.heldBit ∧
        (plane.submit request).1.queue = plane.queue) := by
  unfold submit
  split
  · exact .inr ⟨rfl, rfl⟩
  · exact .inl rfl
  · exact .inr ⟨rfl, rfl⟩
  · exact .inr ⟨rfl, rfl⟩

theorem reserve_spec {plane after : SystemPlane} {request : Nat}
    (hreserve : plane.reserve request = some (after, place)) :
    after.heldBit = plane.heldBit ∧ after.queue = plane.queue := by
  unfold reserve at hreserve
  split at hreserve
  · cases hreserve
    exact ⟨rfl, rfl⟩
  · split at hreserve
    · cases hreserve
      exact ⟨rfl, rfl⟩
    · cases hreserve

theorem leave_spec {plane : SystemPlane} : plane.leave.heldBit = plane.heldBit ∧
    (plane.leave.queue ≠ [] → plane.queue ≠ []) := by
  unfold leave
  split
  · exact ⟨rfl, fun hne => absurd rfl hne⟩
  · exact ⟨rfl, id⟩

theorem carries_of_next (hserves : Serves pool) (hplace : pool.parties[i]? = some place)
    (hreads : place.reads = 0)
    (hnext : next pool.shared place action = some (state, place', entering)) :
    Carries pool ⟨state, pool.parties.set i place' ++ entering⟩ := by
  have hquiet := ((hserves.stepped hplace hnext).quiet hreads).1
  have hopens := (hserves.stepped hplace hnext).opens
  cases place with
  | submits request =>
    cases action with
    | go =>
      cases hnext
      rcases @submit_spec pool.shared.plane request with hwakes | ⟨hheld, hqueue⟩
      · exact carries_write hplace ⟨false, .inl hwakes⟩ rfl rfl nofun hopens hquiet.rxTaken
      · exact carries_still hplace rfl rfl nofun rfl hheld (fun hne => hqueue ▸ hne) hopens
          hquiet.rxTaken
    | _ => cases hnext
  | sends =>
    cases action with
    | go =>
      obtain ⟨⟨plane, reached⟩, hreserve, heq⟩ := Option.map_eq_some_iff.mp hnext
      cases heq
      obtain ⟨hheld, hqueue⟩ := reserve_spec hreserve
      exact carries_still hplace rfl rfl nofun rfl hheld (fun hne => hqueue ▸ hne) hopens
        hquiet.rxTaken
    | cancel =>
      cases hnext
      exact carries_still hplace rfl rfl nofun rfl rfl id id rfl
    | _ => cases hnext
  | pushes =>
    cases action with
    | go =>
      cases hnext
      exact carries_write hplace ⟨true, .inl rfl⟩ rfl rfl nofun hopens hquiet.rxTaken
    | _ => cases hnext
  | leaves =>
    cases action with
    | go =>
      cases hnext
      exact carries_still hplace rfl rfl nofun rfl leave_spec.1 leave_spec.2 hopens
        hquiet.rxTaken
    | _ => cases hnext
  | raises =>
    cases action with
    | go =>
      cases hnext
      split
      · exact carries_write hplace ⟨false, .inl rfl⟩ rfl rfl nofun id rfl
      next hbump =>
        -- A raise that is not a new version leaves the lane as it is.
        have hlane := raise_of_not_bump (Bool.eq_false_of_not_eq_true hbump)
        exact carries_still hplace rfl rfl nofun (by simp only [hasChanged, hlane]) rfl id id
          rfl
    | _ => cases hnext
  | wakes =>
    cases action with
    | go => exact carries_wakes hplace hnext
    | _ => cases hnext
  | calls =>
    cases action with
    | go =>
      cases hnext
      exact carries_wake (fun _ => .inr (.inl rfl)) (fun _ => .inl rfl) rfl
    | _ => cases hnext
  | done | gone => cases action <;> cases hnext
  | _ => cases hreads

/-! ## The loop's own step -/

theorem held_of_heldBit {plane : SystemPlane} (hserved : Served plane)
    (hbit : plane.heldBit = false) : plane.slot.held = [] := by
  have hfits := hserved.slot
  cases hcase : plane.slot with
  | closed | idle => rfl
  | one =>
    simp only [SlotFits, hcase] at hfits
    exact absurd (hfits.1.symm.trans hbit) (by decide)
  | opened first =>
    simp only [SlotFits, hcase] at hfits
    cases first with
    | none => rfl
    | some => exact absurd (hfits.1.symm.trans hbit) (by simp)

theorem heldBit_of_takeHeld (hserves : Serves pool) (hslot : pool.shared.plane.slot ≠ .closed)
    (htake : pool.shared.plane.takeHeld = none) : pool.shared.plane.heldBit = false := by
  have hfits := hserves.served.slot
  cases hcase : pool.shared.plane.slot with
  | closed => exact absurd hcase hslot
  | idle =>
    simp only [SlotFits, hcase] at hfits
    exact hfits.1
  | one => simp [takeHeld, hcase] at htake
  | opened first =>
    cases first with
    | some => simp [takeHeld, hcase] at htake
    | none =>
      simp only [SlotFits, hcase] at hfits
      exact hfits.1

/-- The poll that looks for the receiver leaves with a request or with the receiver. -/
theorem takeRx_spec (hserves : Serves pool) (hslot : pool.shared.plane.slot ≠ .closed)
    (hopen : pool.shared.plane.openBit = true) :
    pool.shared.plane.takeRx.2 = .completes ∨ (pool.shared.plane.takeRx.2 = .readsChannel ∧
      pool.shared.plane.takeRx.1.rxTaken = true ∧
      pool.shared.plane.takeRx.1.heldBit = pool.shared.plane.heldBit) := by
  have hfits := hserves.served.slot
  cases hcase : pool.shared.plane.slot with
  | closed => exact absurd hcase hslot
  | idle | one =>
    simp only [SlotFits, hcase] at hfits
    exact absurd (hfits.2.symm.trans hopen) (by decide)
  | opened first =>
    simp only [SlotFits, hcase] at hfits
    cases first with
    | some => exact .inl (by simp [takeRx, hcase])
    | none => exact .inr (by simp [takeRx, hcase, hfits.2.2.1])

theorem readChannel_spec {plane : SystemPlane} (hrx : plane.rxTaken = true) :
    plane.readChannel.2 = .completes ∨
      (plane.readChannel = (plane, .others) ∧ plane.queue = []) := by
  rw [readChannel, if_pos hrx]
  cases hqueue : plane.queue with
  | cons => exact .inl rfl
  | nil =>
    cases hclosed : plane.rxClosed with
    | true => exact .inl rfl
    | false => exact .inr ⟨rfl, rfl⟩

/-- A step of the loop in which it only reads. -/
theorem carries_read (hplace : pool.parties[i]? = some place) (hwakes : ¬ place.Wakes) :
    Carries pool ⟨pool.shared, pool.parties.set i place' ++ entering⟩ :=
  carries_still hplace rfl rfl hwakes rfl rfl id id rfl

/-- Each read of the loop's poll adds what it found to what the reads before it did. -/
theorem watch_own (hserves : Serves pool) (hplace : pool.parties[i]? = some place)
    (hwatch : Watch pool place) (hreads : place.reads = 1)
    (hnext : next pool.shared place action = some (state, place', entering)) :
    Watch ⟨state, pool.parties.set i place' ++ entering⟩ place' := by
  have hfits := hserves.fits place (List.mem_of_getElem? hplace)
  unfold next at hnext
  split at hnext
  case h_16 =>
    cases hnext
    exact ⟨.inr (.inl rfl), fun _ => .inl rfl⟩
  case h_17 =>
    cases hnext
    split <;> trivial
  case h_18 =>
    cases hnext
    exact .inl rfl
  case h_19 =>
    cases hnext
    have hcarries := @carries_read pool .rereads .readsHeld i [] hplace nofun
    split
    · trivial
    · next hsame => exact ⟨hcarries.alert hwatch, fun hchanged => absurd hchanged hsame⟩
  case h_20 =>
    cases hnext
    split
    · exact hwatch.carries (carries_read hplace nofun)
    next hheld =>
      have hcarries := @carries_read pool .readsHeld .readsOpen i [] hplace nofun
      exact ⟨hcarries.alert hwatch.1, hcarries.changed hwatch.1 hwatch.2,
        fun hset => absurd hset hheld⟩
  case h_21 =>
    split at hnext
    · cases hnext
      trivial
    next htake =>
      cases hnext
      have hcarries := @carries_read pool .takesHeld .readsOpen i [] hplace nofun
      have hheld := heldBit_of_takeHeld hserves hfits htake
      exact ⟨hcarries.alert hwatch.1, hcarries.changed hwatch.1 hwatch.2,
        fun hset => absurd (hset.symm.trans hheld) (by decide)⟩
  case h_22 =>
    cases hnext
    split
    next hrx =>
      have hcarries := @carries_read pool .readsOpen .readsChannel i [] hplace nofun
      exact ⟨hwatch.carries hcarries, hrx⟩
    · split
      next hopen =>
        have hcarries := @carries_read pool .readsOpen .takesRx i [] hplace nofun
        exact ⟨hwatch.carries hcarries, hopen⟩
      next hopen =>
        have hcarries := @carries_read pool .readsOpen .others i [] hplace nofun
        have hqueue := (hserves.served.channel (Bool.eq_false_of_not_eq_true hopen)).1
        exact ⟨hwatch.carries hcarries, fun hne => absurd hqueue hne⟩
  case h_23 =>
    cases hnext
    rcases takeRx_spec hserves hfits hwatch.2 with hready | ⟨hreached, hrx, hheld⟩
    · rw [hready]
      trivial
    · obtain ⟨⟨halert, hchanged, hslot⟩, _⟩ := hwatch
      rw [hreached]
      exact ⟨⟨halert.still hplace rfl rfl nofun,
        fun hset => (hchanged hset).still hplace rfl nofun,
        fun hset => (hslot (hheld ▸ hset)).still hplace rfl nofun⟩, hrx⟩
  case h_24 =>
    cases hnext
    rcases readChannel_spec hwatch.2 with hready | ⟨heq, hqueue⟩
    · rw [hready]
      trivial
    · rw [heq]
      obtain ⟨⟨halert, hchanged, hslot⟩, _⟩ := hwatch
      have hcarries := @carries_read pool .readsChannel .others i [] hplace nofun
      exact ⟨⟨hcarries.alert halert, hcarries.changed halert hchanged,
        hcarries.held halert hslot⟩, fun hne => absurd hqueue hne⟩
  case h_25 | h_27 | h_29 =>
    cases hnext
    exact ⟨⟨.inr (.inl rfl), fun _ => .inl rfl, fun _ => .inl rfl⟩, fun _ => .inl rfl⟩
  case h_28 =>
    cases hnext
    exact hwatch.carries (carries_read hplace nofun)
  -- A producer is not on the receiving side.
  case h_1 | h_2 | h_3 | h_4 | h_5 | h_6 | h_7 | h_8 => cases hreads
  -- Outside the poll, and past it, the reads say nothing.
  case h_9 | h_10 | h_11 | h_12 | h_13 | h_14 | h_15 | h_26 | h_30 | h_31 | h_32 | h_33 | h_34 |
      h_39 | h_40 =>
      cases hnext
      trivial
  case h_35 | h_36 | h_37 | h_38 =>
    split at hnext <;> cases hnext <;> trivial
  case h_41 => cases hnext

theorem watch_of_reads (hreads : place.reads = 0) : Watch pool place := by
  cases place with
  | rereads | readsHeld | takesHeld | readsOpen | takesRx | readsChannel | others
  | suspended => cases hreads
  | _ => trivial

theorem watched_step (hserves : Serves pool) (hwatched : ∀ place ∈ pool.parties, Watch pool place)
    (hplace : pool.parties[i]? = some place)
    (hnext : next pool.shared place action = some (state, place', entering)) :
    ∀ other ∈ pool.parties.set i place' ++ entering,
      Watch ⟨state, pool.parties.set i place' ++ entering⟩ other := by
  have hstepped := hserves.stepped hplace hnext
  intro other hother
  obtain ⟨j, hj⟩ := List.mem_iff_getElem?.mp hother
  rcases Pool.getElem?_after hplace hj with ⟨_, rfl⟩ | ⟨hij, hold⟩ | ⟨_, hnew⟩
  · rcases reads_cases place with hzero | hreader
    · exact watch_of_reads (hstepped.quiet hzero).2.1
    · exact watch_own hserves hplace (hwatched place (List.mem_of_getElem? hplace)) hreader hnext
  · rcases reads_cases place with hzero | hreader
    · exact (hwatched other (List.mem_of_getElem? hold)).carries
        (carries_of_next hserves hplace hzero hnext)
    · exact watch_of_reads (hserves.reads_other hplace hreader hij hold)
  · rw [(hstepped.late other (List.mem_of_getElem? hnew)).1]
    trivial

/-! ## Every interleaving -/

variable {requests : Nat} {reasons : List StopReason}

/-- The run rule: what the loop's reads say holds after every interleaving. -/
theorem Reached.watched (hreach : Reached requests reasons pool) :
    ∀ place ∈ pool.parties, Watch pool place := by
  refine @Pool.invariant_reached _ _ _ next (fun _ _ => True) (start requests reasons) pool
    (fun pool => ∀ place ∈ pool.parties, Watch pool place) ?_ ?_ hreach
  · intro place hplace
    rcases List.mem_cons.mp hplace with rfl | hplace
    · trivial
    · rcases List.mem_append.mp hplace with hplace | hplace
      · obtain ⟨request, _, rfl⟩ := List.mem_map.mp hplace
        trivial
      · obtain ⟨reason, _, rfl⟩ := List.mem_map.mp hplace
        trivial
  · intro pool i action place place' state entering hbefore hwatched _ hplace hnext
    exact watched_step (Reached.serves hbefore) hwatched hplace hnext

/-- However stop raises and status requests interleave with the run loop: while the
loop is suspended in its select, its task not to be polled and no producer between
its write and the end of its wake, the lane has no version the loop has not seen
and the plane has no pending request. -/
theorem suspended_loop_has_read_everything (hreach : Reached requests reasons pool)
    (hsuspended : .suspended ∈ pool.parties) (hquiet : ¬ Outstanding pool) :
    pool.shared.hasChanged = false ∧ pool.shared.plane.pending = [] := by
  have hserves := hreach.serves
  have hslot : pool.shared.plane.slot ≠ .closed := hserves.fits _ hsuspended
  obtain ⟨⟨_, hchanged, hheld⟩, hqueue⟩ := hreach.watched _ hsuspended
  refine ⟨Bool.eq_false_of_not_eq_true fun hset => hquiet (hchanged hset), ?_⟩
  have hempty : pool.shared.plane.queue = [] := by
    by_contra hne
    exact hquiet (hqueue hne)
  have hbit : pool.shared.plane.heldBit = false :=
    Bool.eq_false_of_not_eq_true fun hset => hquiet (hheld hset)
  rw [pending, (hserves.served.whole hslot).inHand, hempty, held_of_heldBit hserves.served hbit]
  rfl

/-- A status request disarms the slot between the stop branch's two reads, and a
raise that lands then finds it disarmed. The loop sees the raise, answers the
request, is polled once more for the wake and suspends. -/
def crossed : List (Nat × PlaneAction) :=
  [(0, .go), (0, .go), (0, .go), (1, .go), (1, .go), (2, .go), (2, .go), (1, .go), (0, .go),
    (0, .go), (0, .see)] ++ .replicate 14 (0, .go) ++ [(0, .poll)] ++ .replicate 6 (0, .go)

theorem crossed_goes :
    (Machine.run (Pool.step next) (start 1 [.graceful]) crossed).isSome = true := by
  decide +kernel

theorem suspended_loop_has_read_everything_crossed :
    ((Machine.run (Pool.step next) (start 1 [.graceful]) crossed).get
      crossed_goes).shared.hasChanged = false ∧
    ((Machine.run (Pool.step next) (start 1 [.graceful]) crossed).get
      crossed_goes).shared.plane.pending = [] :=
  suspended_loop_has_read_everything (reaches_get crossed_goes) (by decide +kernel)
    (by decide +kernel)

end RunLoop

end TokioActors
