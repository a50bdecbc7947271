/-
# The state of a mailbox

A mailbox has a fixed number of units. A unit is free in the room, granted to a
waiter, held by a permit, in the queue with its message, or on its way between
two of these. The senders and the receiver run over atomic counters, wait lists
with a lock each, and a queue; the parties below are the sender handles, the
reservations, the permits and the receiver, each at its place in the code.

A party's place changes at every access to the shared state, so a run of the
mailbox is an interleaving of single accesses. Two accesses are one step only
where no other party can tell: taking a list's lock and the first access under
it, and the last access under it and its release.
-/

import TokioActors.Lib.Pool

namespace TokioActors.Mailbox

universe u

abbrev WaiterId := Nat

/-- The most wait lists a mailbox has. -/
def mailboxLanes : Nat := 8

inductive WaiterState
  | waiting
  | granted
  | closed
  deriving DecidableEq, Repr

/-- A wait list: its entries, first to be granted first, their count, and its lock. -/
structure Lane where
  waiters : List WaiterId := []
  waiting : ℤ := 0
  locked : Bool := false
  deriving DecidableEq, Repr

/-- The state the parties share. A counter is an integer, so that one that went
below zero would show. A waiter is named by the order in which the waits began;
the source may reuse the memory of one that nothing holds any more. -/
structure Shared (α : Type u) where
  capacity : Nat
  laneCount : Nat
  room : ℤ
  waitingTotal : ℤ := 0
  closed : Bool := false
  txCount : ℤ := 1
  nextGrant : Nat := 0
  /-- The receiver waits for its wake-up. -/
  parked : Bool := false
  lanes : Nat → Lane := fun _ => {}
  /-- The lists after the first exist. -/
  more : Bool := false
  states : WaiterId → WaiterState := fun _ => .waiting
  nextWaiter : WaiterId := 0
  queue : List α := []
  /-- The queue's own count: messages past its check and not yet taken. -/
  queueHeld : ℤ := 0
  queueClosed : Bool := false

/-- How a party ended: its message was sent, came back because no unit was free
or the mailbox was closed, or it was dropped. -/
inductive Outcome (α : Type u)
  | sent
  | full (message : α)
  | closed (message : Option α)
  | dropped

/-- What the receiver's last call returned. -/
inductive Received (α : Type u)
  | pending
  | ended
  | message (message : α)

/-- What follows when `release_unit` returns. -/
inductive Resume (α : Type u)
  | done (outcome : Outcome α)
  | received (message : α)
  /-- The next message of the receiver's drop. -/
  | draining

/-- Who runs `rebalance`. -/
inductive Rebalancer (α : Type u)
  | release (wake : Bool) (resume : Resume α)
  | park (lane : Nat) (waiter : WaiterId)

/-- Who runs `take_unit`. -/
inductive Taker (α : Type u)
  | reserve (key : Nat)
  | trySend (message : α)
  | rebalance (caller : Rebalancer α)

/-- Who runs `grant_one`. -/
inductive Granter (α : Type u)
  | release (wake : Bool) (resume : Resume α)
  | rebalance (caller : Rebalancer α)

/-- What follows when `wake_reader` returns. -/
inductive Woken (α : Type u)
  | resume (resume : Resume α)
  | rebalance (caller : Rebalancer α)

/-- Who closes: the receiver's `close`, its actor's end, or its drop. -/
inductive Closer
  | close
  | finish
  | drop
  deriving DecidableEq

/-- Where a party is: at rest, or about to make the access the place names. -/
inductive Place (α : Type u)
  /-- A live sender handle. -/
  | sender
  /-- A reservation not yet polled, or polled without a result and not parked. -/
  | reserve
  | parked (lane : Nat) (waiter : WaiterId)
  | permit
  | receiver (last : Received α)
  | done (outcome : Outcome α)
  | wakeReader (next : Woken α)
  | wakeSwap (next : Woken α)
  | takeUnit (taker : Taker α)
  | takeExchange (taker : Taker α) (current : ℤ)
  | trySend (message : α)
  | push (message : α)
  /-- Past the queue's own check, the message not yet queued. -/
  | landing (message : α)
  | release (wake : Bool) (resume : Resume α)
  | releaseRoom (wake : Bool) (resume : Resume α)
  | releaseRecheck (wake : Bool) (resume : Resume α)
  | releaseWake (wake : Bool) (resume : Resume α)
  | rebalance (caller : Rebalancer α)
  | rebalanceRoom (caller : Rebalancer α)
  | rebalanceWake (caller : Rebalancer α)
  | grantOne (granter : Granter α)
  | grantScan (granter : Granter α) (start step : Nat)
  | grantPop (granter : Granter α) (start step : Nat)
  | grantState (granter : Granter α) (lane : Nat) (waiter : WaiterId)
  | grantCount (granter : Granter α) (lane : Nat)
  | grantTotal (granter : Granter α) (lane : Nat)
  | poll (key : Nat)
  | park (lane : Nat)
  | parkLock (lane : Nat)
  | parkPush (lane : Nat)
  | parkCount (lane : Nat) (waiter : WaiterId)
  | parkTotal (lane : Nat) (waiter : WaiterId)
  | parkRoom (lane : Nat) (waiter : WaiterId)
  | pollParked (lane : Nat) (waiter : WaiterId)
  | pollWaker (lane : Nat) (waiter : WaiterId)
  | pollSettled (lane : Nat) (waiter : WaiterId)
  /-- A granted reservation holds its permit and reads whether the mailbox is closed. -/
  | pollGranted
  | cancel (lane : Nat) (waiter : WaiterId)
  | cancelCount (lane : Nat)
  | cancelTotal (lane : Nat)
  | recvClosed
  | recvRegister
  | recvEnded
  | recvRoom
  | closeFlag (closer : Closer)
  | closeLane (closer : Closer) (index : Nat)
  | closeState (closer : Closer) (index : Nat) (left : List WaiterId) (drained : Nat)
  | closeCount (closer : Closer) (index drained : Nat)
  | closeTotal (closer : Closer) (index drained : Nat)
  | closeQueue (closer : Closer)
  | dropTake
  | dropClear

/-- What the environment chooses: a call on a party at rest, the next access of
a party under way, or the other way that access can go (an exchange that fails
for no reason, a waker that panics). -/
inductive Input (α : Type u)
  | go
  | falter
  | clone
  | reserve
  | trySend (message : α)
  | poll (key : Nat)
  | send (message : α)
  | drop
  | recv
  | tryRecv
  | close
  | finish

/-- A mailbox and its parties. -/
abbrev State (α : Type u) := Machine.Pool (Shared α) (Place α)

/-- A new mailbox: all its units are in the room, and it has one sender handle
and its receiver. The number of lists is the one asked for, kept within its bounds. -/
def channel (α : Type u) (capacity lanes : Nat) : State α where
  shared :=
    { capacity := capacity
      laneCount := max 1 (min lanes mailboxLanes)
      room := capacity }
  parties := [.sender, .receiver .pending]

end TokioActors.Mailbox
