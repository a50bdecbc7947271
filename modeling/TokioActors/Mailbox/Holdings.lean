/-
# What a party of a mailbox holds

Every place says what the party there holds: a unit, a place in a wait list, a
list's lock, entries it took out of a list, and what it still owes to the
counters. One step of one party is one change of the mailbox's books together
with what that party holds, and the changes below are all there are.
-/

import TokioActors.Mailbox.Step

namespace TokioActors.Mailbox

universe u

variable {α : Type u}

abbrev Ticket := Nat × WaiterId

structure Holding where
  /-- The waiter of a parked reservation, with its list. -/
  ticket : Option Ticket := none
  critical : Option Nat := none
  /-- The entries it took out of that list and whose state it has yet to change. -/
  removed : List WaiterId := []
  /-- The entries it added to that list and has not yet counted in the total. -/
  added : ℤ := 0
  /-- The entries it took out of that list and has not yet taken off the total. -/
  drawn : ℤ := 0
  /-- What it has yet to take off that list's count. -/
  debt : ℤ := 0
  /-- The unit on its way that the party holds. -/
  transit : ℤ := 0
  permits : ℤ := 0
  handles : ℤ := 0

/-- The part of the shared state the units, the lists and the counters are in. -/
structure Books where
  capacity : Nat
  laneCount : Nat
  room : ℤ
  waitingTotal : ℤ
  txCount : ℤ
  lanes : Nat → Lane
  more : Bool
  states : WaiterId → WaiterState
  nextWaiter : WaiterId
  queued : Nat

def Shared.books (s : Shared α) : Books where
  capacity := s.capacity
  laneCount := s.laneCount
  room := s.room
  waitingTotal := s.waitingTotal
  txCount := s.txCount
  lanes := s.lanes
  more := s.more
  states := s.states
  nextWaiter := s.nextWaiter
  queued := s.queue.length

def Rebalancer.ticket : Rebalancer α → Option Ticket
  | release _ _ => none
  | park lane waiter => some (lane, waiter)

def Taker.ticket : Taker α → Option Ticket
  | reserve _ => none
  | trySend _ => none
  | rebalance caller => caller.ticket

def Granter.ticket : Granter α → Option Ticket
  | release _ _ => none
  | rebalance caller => caller.ticket

def Woken.ticket : Woken α → Option Ticket
  | resume _ => none
  | rebalance caller => caller.ticket

def Place.holding : Place α → Holding
  | sender => { handles := 1 }
  | reserve => {}
  | parked lane waiter => { ticket := some (lane, waiter) }
  | permit => { permits := 1 }
  | receiver _ => {}
  | done _ => {}
  | wakeReader next => { ticket := next.ticket }
  | wakeSwap next => { ticket := next.ticket }
  | takeUnit taker => { ticket := taker.ticket }
  | takeExchange taker _ => { ticket := taker.ticket }
  | trySend _ => {}
  | push _ => { transit := 1 }
  | landing _ => { transit := 1 }
  | release _ _ => { transit := 1 }
  | releaseRoom _ _ => { transit := 1 }
  | releaseRecheck _ _ => {}
  | releaseWake _ _ => {}
  | rebalance caller => { ticket := caller.ticket }
  | rebalanceRoom caller => { ticket := caller.ticket, transit := 1 }
  | rebalanceWake caller => { ticket := caller.ticket }
  | grantOne granter => { ticket := granter.ticket, transit := 1 }
  | grantScan granter _ _ => { ticket := granter.ticket, transit := 1 }
  | grantPop granter _ _ => { ticket := granter.ticket, transit := 1 }
  | grantState granter lane waiter =>
    { ticket := granter.ticket, critical := some lane, removed := [waiter], drawn := 1,
      debt := 1, transit := 1 }
  | grantCount granter lane =>
    { ticket := granter.ticket, critical := some lane, drawn := 1, debt := 1 }
  | grantTotal granter lane => { ticket := granter.ticket, critical := some lane, drawn := 1 }
  | poll _ => {}
  | park _ => {}
  | parkLock _ => {}
  | parkPush lane => { critical := some lane }
  | parkCount lane waiter =>
    { ticket := some (lane, waiter), critical := some lane, added := 1, debt := -1 }
  | parkTotal lane waiter =>
    { ticket := some (lane, waiter), critical := some lane, added := 1 }
  | parkRoom lane waiter => { ticket := some (lane, waiter) }
  | pollParked lane waiter => { ticket := some (lane, waiter) }
  | pollWaker lane waiter => { ticket := some (lane, waiter) }
  | pollSettled lane waiter => { ticket := some (lane, waiter) }
  | pollGranted => { transit := 1 }
  | cancel lane waiter => { ticket := some (lane, waiter) }
  | cancelCount lane => { critical := some lane, drawn := 1, debt := 1 }
  | cancelTotal lane => { critical := some lane, drawn := 1 }
  | recvClosed => {}
  | recvRegister => {}
  | recvEnded => {}
  | recvRoom => {}
  | closeFlag _ => {}
  | closeLane _ _ => {}
  | closeState _ lane left drained =>
    { critical := some lane, removed := left, drawn := drained, debt := drained }
  | closeCount _ lane drained => { critical := some lane, drawn := drained, debt := drained }
  | closeTotal _ lane drained => { critical := some lane, drawn := drained }
  | closeQueue _ => {}
  | dropTake => {}
  | dropClear => {}

/-! ## What the continuations hold -/

@[simp] theorem Resume.holding_place (resume : Resume α) : resume.place.holding = {} := by
  cases resume <;> rfl

@[simp] theorem Woken.holding_place (next : Woken α) :
    next.place.holding = { ticket := next.ticket } := by
  cases next with
  | resume => simp [Woken.place, Woken.ticket]
  | rebalance => rfl

@[simp] theorem Rebalancer.holding_place (caller : Rebalancer α) :
    caller.place.holding = { ticket := caller.ticket } := by
  cases caller <;> rfl

@[simp] theorem Taker.holding_notTaken (s : Shared α) (taker : Taker α) :
    (taker.notTaken s).holding = { ticket := taker.ticket } := by
  cases taker with
  | reserve | trySend => rfl
  | rebalance => simp [Taker.notTaken, Taker.ticket]

@[simp] theorem Taker.holding_attempt (s : Shared α) (taker : Taker α) :
    (taker.attempt s).holding = { ticket := taker.ticket } := by
  unfold Taker.attempt
  split
  · rfl
  · exact taker.holding_notTaken s

/-- A taken unit is a permit's or on its way. -/
theorem Taker.holding_taken (taker : Taker α) :
    ∃ transit permits, 0 ≤ transit ∧ 0 ≤ permits ∧ transit + permits = 1 ∧
      taker.taken.holding = { ticket := taker.ticket, transit := transit, permits := permits } := by
  cases taker with
  | reserve => exact ⟨0, 1, by decide, by decide, rfl, rfl⟩
  | trySend | rebalance => exact ⟨1, 0, by decide, by decide, rfl, rfl⟩

@[simp] theorem Granter.holding_granted (granter : Granter α) :
    granter.granted.holding = { ticket := granter.ticket } := by
  cases granter with
  | release => simp [Granter.granted, Granter.ticket]
  | rebalance => rfl

@[simp] theorem Granter.holding_notGranted (granter : Granter α) :
    granter.notGranted.holding = { ticket := granter.ticket, transit := 1 } := by
  cases granter <;> rfl

@[simp] theorem Closer.holding_place (closer : Closer) :
    (closer.place : Place α).holding = {} := by
  cases closer <;> rfl

/-! ## The changes of the books -/

/-- One change of the books and of what one party holds, with what the parties
it brings in hold. -/
inductive Change (b : Books) (h : Holding) : Books → Holding → List Holding → Prop
  /-- A unit moves between the room, the queue, a permit and the way between
  them, or nothing moves. -/
  | move {room transit permits : ℤ} {queued : Nat} {more : Bool}
      {entering : List Holding}
      (conserved : room + queued + transit + permits = b.room + b.queued + h.transit + h.permits)
      (free : 0 ≤ b.room → 0 ≤ room) (carried : 0 ≤ transit) (permitted : 0 ≤ permits)
      (lists : b.more = true → more = true) (plain : ∀ other ∈ entering, other = {}) :
      Change b h { b with room := room, queued := queued, more := more }
        { h with transit := transit, permits := permits } entering
  | lock {index : Nat} (bound : index < b.laneCount)
      (free : (b.lanes index).locked = false) (outside : h.critical = none) :
      Change b h
        { b with lanes := Function.update b.lanes index { b.lanes index with locked := true } }
        { h with critical := some index } []
  | push {index : Nat} (inside : h.critical = some index)
      (unlisted : h.ticket = none) (settled : h.added = 0 ∧ h.debt = 0)
      (exists_ : index = 0 ∨ b.more = true) :
      Change b h
        { b with
          nextWaiter := b.nextWaiter + 1
          states := Function.update b.states b.nextWaiter .waiting
          lanes := Function.update b.lanes index
            { b.lanes index with waiters := (b.lanes index).waiters ++ [b.nextWaiter] } }
        { h with ticket := some (index, b.nextWaiter), added := 1, debt := -1 } []
  /-- A granter takes the first entry of a list. -/
  | pop {index : Nat} {waiter : WaiterId} {rest : List WaiterId}
      (bound : index < b.laneCount) (free : (b.lanes index).locked = false)
      (first : (b.lanes index).waiters = waiter :: rest) (outside : h.critical = none) :
      Change b h
        { b with
          lanes := Function.update b.lanes index
            { b.lanes index with waiters := rest, locked := true } }
        { h with critical := some index, removed := [waiter], drawn := 1, debt := 1 } []
  /-- A cancelled reservation takes its own entry. -/
  | withdraw {index : Nat} {waiter : WaiterId}
      (ticketed : h.ticket = some (index, waiter)) (free : (b.lanes index).locked = false)
      (listed : waiter ∈ (b.lanes index).waiters) (outside : h.critical = none) :
      Change b h
        { b with
          lanes := Function.update b.lanes index
            { b.lanes index with
              waiters := (b.lanes index).waiters.erase waiter, locked := true } }
        { h with ticket := none, critical := some index, drawn := 1, debt := 1 } []
  /-- The close takes every entry of a list. -/
  | drain {index : Nat} (bound : index < b.laneCount)
      (free : (b.lanes index).locked = false) (outside : h.critical = none) :
      Change b h
        { b with
          lanes := Function.update b.lanes index
            { b.lanes index with waiters := [], locked := true } }
        { h with
          critical := some index, removed := (b.lanes index).waiters,
          drawn := (b.lanes index).waiters.length, debt := (b.lanes index).waiters.length } []
  /-- The granter's unit becomes the waiter's. -/
  | grant {waiter : WaiterId} (taken : h.removed = [waiter])
      (carried : h.transit = 1) :
      Change b h { b with states := Function.update b.states waiter .granted }
        { h with removed := [], transit := 0 } []
  | shut {waiter : WaiterId} {left : List WaiterId}
      (taken : h.removed = waiter :: left) :
      Change b h { b with states := Function.update b.states waiter .closed }
        { h with removed := left } []
  /-- A list's count is brought up to date. -/
  | count {index : Nat} (inside : h.critical = some index) :
      Change b h
        { b with
          lanes := Function.update b.lanes index
            { b.lanes index with waiting := (b.lanes index).waiting - h.debt } }
        { h with debt := 0 } []
  /-- The total is brought up to date and the lock released. -/
  | settle {index : Nat} (inside : h.critical = some index)
      (changed : h.removed = []) (counted : h.debt = 0) :
      Change b h
        { b with
          waitingTotal := b.waitingTotal + h.added - h.drawn
          lanes := Function.update b.lanes index { b.lanes index with locked := false } }
        { h with critical := none, added := 0, drawn := 0 } []
  /-- A granted reservation takes its unit. -/
  | claim {index : Nat} {waiter : WaiterId}
      (ticketed : h.ticket = some (index, waiter)) (granted : b.states waiter = .granted) :
      Change b h b { h with ticket := none, transit := h.transit + 1 } []
  /-- A reservation ends that no list holds an entry of. -/
  | leave {index : Nat} {waiter : WaiterId}
      (ticketed : h.ticket = some (index, waiter))
      (gone : b.states waiter = .closed ∨
        b.states waiter = .waiting ∧ (b.lanes index).locked = false ∧
          waiter ∉ (b.lanes index).waiters ∨
        index ≠ 0 ∧ b.more = false) :
      Change b h b { h with ticket := none } []
  | clone :
      Change b h { b with txCount := b.txCount + 1 } h [{ handles := 1 }]
  | discard (live : h.handles = 1) :
      Change b h { b with txCount := b.txCount - 1 } { h with handles := 0 } []

/-- What a place may rely on: the list it is about to wait in is one of the
mailbox's and exists once its lock is taken, and an exchange expects a free unit. -/
def Place.Fits (s : Shared α) : Place α → Prop
  | park index => index < s.laneCount
  | parkLock index => index < s.laneCount ∧ s.hasLane index = true
  | parkPush index => s.hasLane index = true
  | takeExchange _ current => 0 < current
  | _ => True

end TokioActors.Mailbox
