/-
# The steps of a mailbox's parties

Each place of a party is one access of the source to the shared state. A step
makes the access and goes to the next place, as the function the party is in
does: `take_unit`, `release_unit`, `rebalance`, `grant_one`, `park`, `cancel`,
`close`, `try_send`, `push`, the poll of a reservation, and the receiver's calls.
A step whose lock another party holds is not enabled.

The calls a party makes are not tied to the life of the handle they borrow: the
model allows more interleavings than the borrow checker does.
-/

import Mathlib.Logic.Function.Basic
import TokioActors.Mailbox.State

namespace TokioActors.Mailbox

universe u

variable {α : Type u}

/-- Spreads sequential keys over the lists. -/
def laneOf (key lanes : Nat) : Nat := (key * 0x9E3779B97F4A7C15 % 2 ^ 64) / 2 ^ 32 % lanes

namespace Shared

/-- The list a sender with the key waits in. -/
def waitLane (s : Shared α) (key : Nat) : Nat :=
  if s.laneCount = 1 then 0 else laneOf key s.laneCount

/-- `try_lane` finds a list: the first, or a later one once they exist. -/
def hasLane (s : Shared α) (index : Nat) : Bool := index == 0 || s.more

def setLane (s : Shared α) (index : Nat) (lane : Lane) : Shared α :=
  { s with lanes := Function.update s.lanes index lane }

def setState (s : Shared α) (waiter : WaiterId) (state : WaiterState) : Shared α :=
  { s with states := Function.update s.states waiter state }

/-- The list `grant_one` looks at in the given step of its scan. -/
def scanLane (s : Shared α) (start step : Nat) : Nat := (start + step) % s.laneCount

end Shared

/-- Where `release_unit` returns to. -/
def Resume.place : Resume α → Place α
  | done outcome => .done outcome
  | received message => .receiver (.message message)
  | draining => .dropTake

/-- Where `wake_reader` returns to. -/
def Woken.place : Woken α → Place α
  | resume next => next.place
  | rebalance caller => .rebalance caller

/-- Where `rebalance` returns to. -/
def Rebalancer.place : Rebalancer α → Place α
  | release wake resume => .releaseWake wake resume
  | park lane waiter => .pollParked lane waiter

namespace Taker

/-- Where a successful `take_unit` returns to. -/
def taken : Taker α → Place α
  | reserve _ => .permit
  | trySend message => .push message
  | rebalance caller => .grantOne (.rebalance caller)

/-- Where a failed `take_unit` returns to. -/
def notTaken (s : Shared α) : Taker α → Place α
  | reserve key => .park (s.waitLane key)
  | trySend message => .done (.full message)
  | rebalance caller => caller.place

/-- The loop of `take_unit`, with the room as it was last read. -/
def attempt (s : Shared α) (taker : Taker α) : Place α :=
  if 0 < s.room then .takeExchange taker s.room else taker.notTaken s

end Taker

namespace Granter

def granted : Granter α → Place α
  | release _ resume => resume.place
  | rebalance caller => .rebalance caller

def notGranted : Granter α → Place α
  | release wake resume => .releaseRoom wake resume
  | rebalance caller => .rebalanceRoom caller

end Granter

/-- Where `close` returns to. -/
def Closer.place : Closer → Place α
  | close => .receiver .pending
  | finish => .closeQueue .finish
  | drop => .closeQueue .drop

/-- The next access of a party under way. -/
def advance (s : Shared α) : Place α → Option (Shared α × Place α)
  | .wakeReader next => some (s, if s.parked then .wakeSwap next else next.place)
  | .wakeSwap next => some ({ s with parked := false }, next.place)
  | .takeUnit taker => some (s, taker.attempt s)
  | .takeExchange taker current =>
    if s.room = current then some ({ s with room := current - 1 }, taker.taken)
    else some (s, taker.attempt s)
  | .trySend message =>
    some (s, if s.closed then .done (.closed (some message)) else .takeUnit (.trySend message))
  | .push message =>
    if s.queueClosed then some (s, .release true (.done .sent))
    else some ({ s with queueHeld := s.queueHeld + 1 }, .landing message)
  | .landing message => some ({ s with queue := s.queue ++ [message] }, .done .sent)
  | .release wake resume =>
    some (s, if 0 < s.waitingTotal then .grantOne (.release wake resume)
      else .releaseRoom wake resume)
  | .releaseRoom wake resume => some ({ s with room := s.room + 1 }, .releaseRecheck wake resume)
  | .releaseRecheck wake resume =>
    some (s, if 0 < s.waitingTotal then .rebalance (.release wake resume)
      else .releaseWake wake resume)
  | .releaseWake wake resume =>
    some (s, if wake && s.closed then .wakeReader (.resume resume) else resume.place)
  | .rebalance caller =>
    some (s, if 0 < s.waitingTotal then .takeUnit (.rebalance caller) else caller.place)
  | .rebalanceRoom caller => some ({ s with room := s.room + 1 }, .rebalanceWake caller)
  | .rebalanceWake caller =>
    some (s, if s.closed then .wakeReader (.rebalance caller) else .rebalance caller)
  | .grantOne granter =>
    -- The cursor wraps; only its remainder is ever used.
    some ({ s with nextGrant := (s.nextGrant + 1) % 2 ^ 64 }, .grantScan granter s.nextGrant 0)
  | .grantScan granter start step =>
    if step < s.laneCount then
      let index := s.scanLane start step
      some (s, if s.hasLane index && (s.lanes index).waiting != 0 then
          .grantPop granter start step
        else .grantScan granter start (step + 1))
    else some (s, granter.notGranted)
  | .grantPop granter start step =>
    let index := s.scanLane start step
    let lane := s.lanes index
    if lane.locked then none
    else
      match lane.waiters with
      | [] => some (s, .grantScan granter start (step + 1))
      | waiter :: rest =>
        some (s.setLane index { lane with waiters := rest, locked := true },
          .grantState granter index waiter)
  | .grantState granter lane waiter =>
    some (s.setState waiter .granted, .grantCount granter lane)
  | .grantCount granter index =>
    let lane := s.lanes index
    some (s.setLane index { lane with waiting := lane.waiting - 1 }, .grantTotal granter index)
  | .grantTotal granter index =>
    some ({ s with waitingTotal := s.waitingTotal - 1 }.setLane index
      { s.lanes index with locked := false }, granter.granted)
  | .poll key =>
    some (s, if s.closed then .done (.closed none) else .takeUnit (.reserve key))
  | .park index => some ({ s with more := s.more || index != 0 }, .parkLock index)
  | .parkLock index =>
    let lane := s.lanes index
    if lane.locked then none
    else if s.closed then some (s, .done (.closed none))
    else some (s.setLane index { lane with locked := true }, .parkPush index)
  | .parkPush index =>
    let lane := s.lanes index
    let waiter := s.nextWaiter
    some ({ s with nextWaiter := waiter + 1 }.setState waiter .waiting |>.setLane index
      { lane with waiters := lane.waiters ++ [waiter] }, .parkCount index waiter)
  | .parkCount index waiter =>
    let lane := s.lanes index
    some (s.setLane index { lane with waiting := lane.waiting + 1 }, .parkTotal index waiter)
  | .parkTotal index waiter =>
    some ({ s with waitingTotal := s.waitingTotal + 1 }.setLane index
      { s.lanes index with locked := false }, .parkRoom index waiter)
  | .parkRoom lane waiter =>
    some (s, if 0 < s.room then .rebalance (.park lane waiter) else .pollParked lane waiter)
  | .pollParked lane waiter =>
    match s.states waiter with
    | .granted => some (s, .pollGranted)
    | .closed => some (s, .done (.closed none))
    | .waiting => some (s, .pollWaker lane waiter)
  | .pollWaker lane waiter =>
    if s.hasLane lane && (s.lanes lane).locked then none
    else some (s, .pollSettled lane waiter)
  | .pollSettled lane waiter =>
    some (s, if s.states waiter = .waiting then .parked lane waiter else .pollParked lane waiter)
  | .pollGranted => some (s, if s.closed then .release true (.done (.closed none)) else .permit)
  | .cancel index waiter =>
    let lane := s.lanes index
    if s.hasLane index then
      if lane.locked then none
      else
        match s.states waiter with
        | .waiting =>
          if waiter ∈ lane.waiters then
            some (s.setLane index
                { lane with waiters := lane.waiters.erase waiter, locked := true },
              .cancelCount index)
          else some (s, .done .dropped)
        | .granted => some (s, .release true (.done .dropped))
        | .closed => some (s, .done .dropped)
    else some (s, .done .dropped)
  | .cancelCount index =>
    let lane := s.lanes index
    some (s.setLane index { lane with waiting := lane.waiting - 1 }, .cancelTotal index)
  | .cancelTotal index =>
    some ({ s with waitingTotal := s.waitingTotal - 1 }.setLane index
      { s.lanes index with locked := false }, .done .dropped)
  | .recvClosed => some (s, if s.closed then .recvRegister else .receiver .pending)
  | .recvRegister => some ({ s with parked := true }, .recvEnded)
  | .recvEnded =>
    some (s, if s.closed || s.txCount == 0 then .recvRoom else .receiver .pending)
  | .recvRoom =>
    some (s, if s.room = s.capacity then .receiver .ended else .receiver .pending)
  | .closeFlag closer => some ({ s with closed := true }, .closeLane closer 0)
  | .closeLane closer index =>
    let lane := s.lanes index
    if index < s.laneCount then
      if s.hasLane index then
        if lane.locked then none
        else
          some (s.setLane index { lane with waiters := [], locked := true },
            .closeState closer index lane.waiters lane.waiters.length)
      else some (s, .closeLane closer (index + 1))
    else some (s, closer.place)
  | .closeState closer index (waiter :: left) drained =>
    some (s.setState waiter .closed, .closeState closer index left drained)
  | .closeState closer index [] drained => some (s, .closeCount closer index drained)
  | .closeCount closer index drained =>
    let lane := s.lanes index
    some (s.setLane index { lane with waiting := lane.waiting - drained },
      .closeTotal closer index drained)
  | .closeTotal closer index drained =>
    some ({ s with waitingTotal := s.waitingTotal - drained }.setLane index
      { s.lanes index with locked := false }, .closeLane closer (index + 1))
  | .closeQueue closer =>
    some ({ s with queueClosed := true },
      if closer = .drop then .dropTake else .receiver .pending)
  | .dropTake =>
    match s.queue with
    | [] => some (s, .dropClear)
    | _ :: rest =>
      some ({ s with queue := rest, queueHeld := s.queueHeld - 1 }, .release false .draining)
  | .dropClear => some ({ s with parked := false }, .done .dropped)
  | .sender => none
  | .reserve => none
  | .parked _ _ => none
  | .permit => none
  | .receiver _ => none
  | .done _ => none

/-- The other way an access can go: an exchange fails for no reason, or the
polling task's waker panics when it is cloned or dropped. -/
def falter (s : Shared α) : Place α → Option (Shared α × Place α)
  | .takeExchange taker _ => some (s, taker.attempt s)
  | .parkPush index => some (s.setLane index { s.lanes index with locked := false }, .reserve)
  | .pollWaker lane waiter =>
    if s.hasLane lane && (s.lanes lane).locked then none else some (s, .parked lane waiter)
  | .pollSettled lane waiter => some (s, .parked lane waiter)
  | _ => none

/-- The receiver takes the first message of the queue, which holds a unit. -/
def takeMessage (s : Shared α) (empty : Place α) : Shared α × Place α :=
  match s.queue with
  | message :: rest =>
    ({ s with queue := rest, queueHeld := s.queueHeld - 1 }, .release false (.received message))
  | [] => (s, empty)

/-- Every sender is gone or the queue is closed, and no push is under way. -/
def Shared.queueEnded (s : Shared α) : Bool :=
  (s.txCount == 0 || s.queueClosed) && s.queueHeld == 0

/-- A call on a party at rest. -/
def call (s : Shared α) : Place α → Input α → Option (Shared α × Place α × List (Place α))
  | .sender, .clone => some ({ s with txCount := s.txCount + 1 }, .sender, [.sender])
  | .sender, .reserve => some (s, .sender, [.reserve])
  | .sender, .trySend message => some (s, .sender, [.trySend message])
  | .sender, .drop =>
    some ({ s with txCount := s.txCount - 1 },
      if s.txCount = 1 then .wakeReader (.resume (.done .dropped)) else .done .dropped, [])
  | .reserve, .poll key => some (s, .poll key, [])
  | .reserve, .drop => some (s, .done .dropped, [])
  | .parked lane waiter, .poll _ => some (s, .pollParked lane waiter, [])
  | .parked lane waiter, .drop => some (s, .cancel lane waiter, [])
  | .permit, .send message => some (s, .push message, [])
  | .permit, .drop => some (s, .release true (.done .dropped), [])
  | .receiver _, .recv =>
    let after := takeMessage s (if s.queueEnded then .receiver .ended else .recvClosed)
    some (after.1, after.2, [])
  | .receiver _, .tryRecv =>
    let after := takeMessage s (.receiver .pending)
    some (after.1, after.2, [])
  | .receiver _, .close => some (s, .closeFlag .close, [])
  | .receiver _, .finish => some (s, .closeFlag .finish, [])
  | .receiver _, .drop => some (s, .closeFlag .drop, [])
  | _, _ => none

/-- One step of a party. -/
def next (s : Shared α) (place : Place α) (input : Input α) :
    Option (Shared α × Place α × List (Place α)) :=
  match input with
  | .go => (advance s place).map fun after => (after.1, after.2, [])
  | .falter => (falter s place).map fun after => (after.1, after.2, [])
  | _ => call s place input

/-- The states of a mailbox any interleaving of its parties reaches. -/
def Reachable (capacity lanes : Nat) (state : State α) : Prop :=
  Machine.Reaches (Machine.Pool.step next) Machine.always (channel α capacity lanes) state

end TokioActors.Mailbox
