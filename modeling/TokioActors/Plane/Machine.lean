/-
# The system plane and the run loop's waker

Status requests reach an actor through its system plane: a slot that holds one
request, and a channel that is created when a second request finds the first one
held. The plane registers no waker. The run loop has one waker slot, armed by
the poll of its stop branch, and whoever raises a stop request or queues a status
request wakes the loop through that slot.

The requesters, the raisers, the run loop and the task that drains a closed
channel are the parties of a pool. The critical sections of the slot's lock and of
the waker's lock are one step each: the slot is only looked at under its lock, so
that nobody sees it between the write of the slot and of its bits.
-/

import TokioActors.Lane.Cell
import TokioActors.Lib.Pool

namespace TokioActors

/-- What the plane's lock guards. Requests are named by numbers. -/
inductive SystemSlot
  | idle
  | one (request : Nat)
  /-- The channel exists. `first` is the request held before it, and `rx` says
  whether its receiver is still here. -/
  | opened (first : Option Nat) (rx : Bool)
  | closed
  deriving DecidableEq, Repr

/-- The plane, its channel, and the history of its requests. -/
structure SystemPlane where
  slot : SystemSlot := .idle
  /-- The bits `SYSTEM_HELD` and `SYSTEM_OPEN`, read without the lock. -/
  heldBit : Bool := false
  openBit : Bool := false
  /-- The run loop's side has the channel's receiver. -/
  rxTaken : Bool := false
  queue : List Nat := []
  /-- The permits of the channel that are out. -/
  reserved : Nat := 0
  /-- The sending halves of the channel, the slot's own included. -/
  txs : Nat := 0
  rxClosed : Bool := false
  rxGone : Bool := false
  /-- What the end of the plane moved out of the slot: the request held there, and
  the slot's sending half. -/
  inHand : List Nat := []
  txInHand : Bool := false
  accepted : List Nat := []
  taken : List Nat := []
  dropped : List Nat := []
  refused : List Nat := []
  deriving DecidableEq, Repr

/-- The plane, the stop lane with the version its receiver has seen, the waker
slot's flag, and whether the loop's task is to be polled. -/
structure RunLoop where
  plane : SystemPlane := {}
  lane : LaneCell := {}
  seen : Nat := 0
  armed : Bool := false
  notified : Bool := false
  deriving DecidableEq, Repr

/-- The place of a party. -/
inductive PlaneParty
  /-- A requester before it looks at the slot. -/
  | submits (request : Nat)
  /-- It has a sending half and waits for a permit. -/
  | sends (request : Nat)
  | pushes (request : Nat)
  /-- It is to give its sending half back. -/
  | leaves
  | raises (reason : StopReason)
  /-- A producer is to wake the loop; `tx` says whether it has a sending half. -/
  | wakes (tx : Bool)
  /-- It found the slot armed and is to call the waker. -/
  | calls (tx : Bool)
  | done
  /-- The loop is outside its select: in a callback, at a turn boundary. -/
  | runs
  /-- The select is polled: the stop branch reads the version, registers, reads
  the version again, and the plane's branch reads the plane. -/
  | polls
  | registers
  | rereads
  | readsHeld
  | takesHeld
  | readsOpen
  | takesRx
  | readsChannel
  /-- The branches below the plane's. -/
  | others
  | suspended
  /-- A branch is ready and the others are dropped. -/
  | completes
  /-- The plane is dropped. -/
  | closing
  | releases
  | ends
  /-- The receiver is closed and drained, by the end or by the task it was handed
  to. -/
  | drains (late : Bool)
  /-- The task that drops what arrives after the close. -/
  | lateDrains
  | dropsRx
  | gone
  deriving DecidableEq, Repr

/-- What a party may do. -/
inductive PlaneAction
  | go
  /-- The cooperative budget is used up: the poll pends and wakes its own task. -/
  | coop
  /-- A requester that waits for room is dropped. -/
  | cancel
  /-- The loop marks the lane's version seen. -/
  | see
  /-- A hand-back at a turn boundary arms the slot, and disarms it after. -/
  | arm
  | disarm
  /-- Another waker of the loop's task is called. -/
  | notify
  /-- The loop's task is polled. -/
  | poll
  /-- A branch below the plane's is ready. -/
  | ready
  /-- The loop ends, or its task is dropped. -/
  | finish
  /-- The closed channel's receiver is handed to a task. -/
  | spawn
  deriving DecidableEq, Repr

namespace SystemPlane

variable (plane : SystemPlane)

/-- The capacity of the plane's channel. -/
def systemCapacity : Nat := 64

/-- The part of the slot a requester reads and writes: where the requester goes on. -/
def submit (request : Nat) : SystemPlane × PlaneParty :=
  match plane.slot with
  | .closed => ({ plane with refused := plane.refused ++ [request] }, .done)
  | .idle =>
    ({ plane with
      slot := .one request, heldBit := true, accepted := plane.accepted ++ [request] },
      .wakes false)
  | .one first =>
    ({ plane with slot := .opened (some first) true, openBit := true, txs := 2 },
      .sends request)
  | .opened _ _ => ({ plane with txs := plane.txs + 1 }, .sends request)

/-- The channel's answer to a requester: a permit, a refusal once it is closed, or
nothing while there is no room. -/
def reserve (request : Nat) : Option (SystemPlane × PlaneParty) :=
  if plane.rxClosed then
    some ({ plane with refused := plane.refused ++ [request] }, .leaves)
  else if plane.queue.length + plane.reserved < systemCapacity then
    some ({ plane with reserved := plane.reserved + 1 }, .pushes request)
  else none

/-- A permit is used. It is honoured after the close. -/
def push (request : Nat) : SystemPlane :=
  { plane with
    queue := plane.queue ++ [request]
    reserved := plane.reserved - 1
    accepted := plane.accepted ++ [request] }

/-- A sending half is given back. The last one frees what no receiver is left for. -/
def leave : SystemPlane :=
  if plane.txs ≤ 1 ∧ plane.rxGone then
    { plane with txs := 0, dropped := plane.dropped ++ plane.queue, queue := [] }
  else { plane with txs := plane.txs - 1 }

/-- The poll's first critical section: a request held outside the channel. -/
def takeHeld : Option SystemPlane :=
  match plane.slot with
  | .one request =>
    some { plane with slot := .idle, heldBit := false, taken := plane.taken ++ [request] }
  | .opened (some request) rx =>
    some { plane with
      slot := .opened none rx, heldBit := false, taken := plane.taken ++ [request] }
  | _ => none

/-- The poll's second critical section: the receiver, and before it a request held
since the first read. -/
def takeRx : SystemPlane × PlaneParty :=
  match plane.slot with
  | .opened (some request) rx =>
    ({ plane with
      slot := .opened none false, heldBit := false, rxTaken := plane.rxTaken || rx
      taken := plane.taken ++ [request] }, .completes)
  | .opened none rx =>
    ({ plane with slot := .opened none false, rxTaken := plane.rxTaken || rx }, .readsChannel)
  | _ => (plane, .readsChannel)

/-- The poll of the channel: empty and open, it pends without registering. A
receiver whose channel ended answers that there is no more. -/
def readChannel : SystemPlane × PlaneParty :=
  if plane.rxTaken then
    match plane.queue with
    | request :: rest =>
      ({ plane with queue := rest, taken := plane.taken ++ [request] }, .completes)
    | [] => (plane, if plane.rxClosed then .completes else .others)
  else (plane, .others)

/-- The end's critical section: everything is moved out of the slot. -/
def close : SystemPlane :=
  match plane.slot with
  | .one request => { plane with slot := .closed, inHand := [request] }
  | .opened first rx =>
    { plane with
      slot := .closed, inHand := first.toList, txInHand := true, rxTaken := plane.rxTaken || rx }
  | _ => { plane with slot := .closed }

/-- The request moved out is dropped, then the slot's sending half. -/
def release : SystemPlane :=
  { plane with
    dropped := plane.dropped ++ plane.inHand
    inHand := []
    txs := if plane.txInHand then plane.txs - 1 else plane.txs
    txInHand := false }

/-- The receiver is dropped, with what it still holds. -/
def dropRx : SystemPlane :=
  { plane with dropped := plane.dropped ++ plane.queue, queue := [], rxGone := true }

end SystemPlane

namespace RunLoop

/-- Whether the lane has a version the loop has not seen. -/
def hasChanged (state : RunLoop) : Bool := state.lane.version != state.seen

/-- Where a producer goes once it woke the loop. -/
def left (tx : Bool) : PlaneParty := if tx then .leaves else .done

/-- One step of one party. -/
def next (state : RunLoop) : PlaneParty → PlaneAction →
    Option (RunLoop × PlaneParty × List PlaneParty)
  -- A requester.
  | .submits request, .go =>
    some ({ state with plane := (state.plane.submit request).1 },
      (state.plane.submit request).2, [])
  | .sends request, .go =>
    (state.plane.reserve request).map fun after => ({ state with plane := after.1 }, after.2, [])
  | .sends _, .cancel => some (state, .leaves, [])
  | .pushes request, .go => some ({ state with plane := state.plane.push request }, .wakes true, [])
  | .leaves, .go => some ({ state with plane := state.plane.leave }, .done, [])
  -- A raiser.
  | .raises reason, .go =>
    some ({ state with lane := state.lane.raise reason },
      if (laneAccept state.lane.state reason state.lane.rxGone).2.2 then .wakes false else .done,
      [])
  -- Either of them, after its write.
  | .wakes tx, .go =>
    if state.armed then some ({ state with armed := false }, .calls tx, [])
    else some (state, left tx, [])
  | .calls tx, .go => some ({ state with notified := true }, left tx, [])
  -- The loop outside its select.
  | .runs, .see => some ({ state with seen := state.lane.version }, .runs, [])
  | .runs, .arm => some ({ state with armed := true }, .runs, [])
  | .runs, .disarm => some ({ state with armed := false }, .runs, [])
  | .runs, .notify => some ({ state with notified := true }, .runs, [])
  | .runs, .poll => some ({ state with notified := false }, .runs, [])
  | .runs, .go => some (state, .polls, [])
  | .runs, .finish => some ({ state with armed := false }, .closing, [])
  -- The stop branch.
  | .polls, .coop => some ({ state with notified := true }, .readsHeld, [])
  | .polls, .go => some (state, if state.hasChanged then .completes else .registers, [])
  | .registers, .go => some ({ state with armed := true }, .rereads, [])
  | .rereads, .go => some (state, if state.hasChanged then .completes else .readsHeld, [])
  -- The plane's branch.
  | .readsHeld, .go => some (state, if state.plane.heldBit then .takesHeld else .readsOpen, [])
  | .takesHeld, .go =>
    match state.plane.takeHeld with
    | some after => some ({ state with plane := after }, .completes, [])
    | none => some (state, .readsOpen, [])
  | .readsOpen, .go =>
    some (state, if state.plane.rxTaken then .readsChannel
      else if state.plane.openBit then .takesRx else .others, [])
  | .takesRx, .go => some ({ state with plane := state.plane.takeRx.1 }, state.plane.takeRx.2, [])
  | .readsChannel, .go =>
    some ({ state with plane := state.plane.readChannel.1 }, state.plane.readChannel.2, [])
  | .readsChannel, .coop => some ({ state with notified := true }, .others, [])
  -- The branches below, and the suspension.
  | .others, .ready => some (state, .completes, [])
  | .others, .notify => some ({ state with notified := true }, .others, [])
  | .others, .go => some (state, .suspended, [])
  | .suspended, .notify => some ({ state with notified := true }, .suspended, [])
  | .suspended, .poll => some ({ state with notified := false }, .polls, [])
  | .suspended, .finish => some ({ state with armed := false }, .closing, [])
  | .completes, .go => some ({ state with armed := false }, .runs, [])
  -- The end of the plane.
  | .closing, .go => some ({ state with plane := state.plane.close }, .releases, [])
  | .releases, .go => some ({ state with plane := state.plane.release }, .ends, [])
  | .ends, .go =>
    if state.plane.rxTaken then
      some ({ state with plane := { state.plane with rxClosed := true } }, .drains false, [])
    else some (state, .gone, [])
  | .drains late, .go =>
    match state.plane.queue with
    | request :: rest =>
      some ({ state with plane := { state.plane with
        queue := rest, dropped := state.plane.dropped ++ [request] } }, .drains late, [])
    | [] => some (state, .dropsRx, [])
  | .drains false, .spawn =>
    if state.plane.queue = [] ∧ 0 < state.plane.txs then some (state, .gone, [.lateDrains])
    else none
  | .lateDrains, .go =>
    match state.plane.queue with
    | request :: rest =>
      some ({ state with plane := { state.plane with
        queue := rest, dropped := state.plane.dropped ++ [request] } }, .lateDrains, [])
    | [] => none
  | .lateDrains, .finish => some (state, .drains true, [])
  | .dropsRx, .go => some ({ state with plane := state.plane.dropRx }, .gone, [])
  | _, _ => none

/-- A fresh incarnation, with requests and stop requests to come. -/
def start (requests : Nat) (reasons : List StopReason) : Machine.Pool RunLoop PlaneParty :=
  ⟨{}, .runs :: ((List.range requests).map .submits ++ reasons.map .raises)⟩

/-- Every interleaving of the parties. -/
def Reached (requests : Nat) (reasons : List StopReason) : Machine.Pool RunLoop PlaneParty → Prop :=
  Machine.Reaches (Machine.Pool.step next) (fun _ _ => True) (start requests reasons)

end RunLoop

end TokioActors
