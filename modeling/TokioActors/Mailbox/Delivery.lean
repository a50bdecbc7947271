/-
# Where the messages of a mailbox go

A message that is pushed is in the queue, on its way into it, received, or dropped by
one party: by its sender when the queue was closed for good, or by the receiver's own
drop. The receiver reports the end only when the queue is empty, no message is on its
way into it, and no permit is out whose message the queue would still take.

The receiver's queue ends with its last sender handle. A handle outlives the
reservations, permits and sends that borrow it, and the runs below are those that keep
to this.
-/

import TokioActors.Mailbox.Close

namespace TokioActors.Mailbox

open Machine.Pool Place

universe u

variable {α : Type u}

/-! ## What happens to messages -/

/-- What a step does with a message: it is handed to the queue, taken by the receiver,
or dropped. -/
inductive Mail (α : Type u)
  | pushed (message : α)
  | received (message : α)
  | dropped (message : α)
  deriving DecidableEq

/-- What is left of a message by an event: it comes when it is pushed and goes when it
is received or dropped. -/
def Mail.left (weight : α → ℤ) : Mail α → ℤ
  | pushed message => weight message
  | received message => -weight message
  | dropped message => -weight message

/-- The messages a step of a party deals with. A push to a queue that was closed for
good drops its message; so does the receiver's drop with what is queued. -/
def mailOf (s : Shared α) : Place α → Input α → List (Mail α)
  | .push message, .go =>
    if s.queueClosed then [.pushed message, .dropped message] else [.pushed message]
  | .receiver _, .recv => (s.queue.head?.map .received).toList
  | .receiver _, .tryRecv => (s.queue.head?.map .received).toList
  | .dropTake, .go => (s.queue.head?.map .dropped).toList
  | _, _ => []

structure Logged (α : Type u) where
  state : State α
  log : List (Mail α)

/-- One step of a party, with what it does with messages. -/
def Logged.step (l : Logged α) (label : Nat × Input α) : Option (Logged α) :=
  (Machine.Pool.step next l.state label).map fun state =>
    ⟨state, l.log ++ (l.state.parties[label.1]?).elim [] (mailOf l.state.shared · label.2)⟩

/-! ## What a party may still deliver -/

/-- The message a party has past the queue's check. -/
def Place.carried : Place α → Option α
  | landing message => some message
  | _ => none

def Place.reports : Place α → Bool
  | receiver .ended => true
  | _ => false

def Rebalancer.borrows : Rebalancer α → Bool
  | park _ _ => true
  | release _ _ => false

def Taker.borrows : Taker α → Bool
  | reserve _ => true
  | trySend _ => true
  | rebalance caller => caller.borrows

def Granter.borrows : Granter α → Bool
  | rebalance caller => caller.borrows
  | release _ _ => false

def Woken.borrows : Woken α → Bool
  | rebalance caller => caller.borrows
  | resume _ => false

/-- The party borrows a sender handle and may come to push a message. -/
def Place.borrows : Place α → Bool
  | reserve => true
  | parked _ _ => true
  | permit => true
  | wakeReader next => next.borrows
  | wakeSwap next => next.borrows
  | takeUnit taker => taker.borrows
  | takeExchange taker _ => taker.borrows
  | trySend _ => true
  | push _ => true
  | landing _ => true
  | rebalance caller => caller.borrows
  | rebalanceRoom caller => caller.borrows
  | rebalanceWake caller => caller.borrows
  | grantOne granter => granter.borrows
  | grantScan granter _ _ => granter.borrows
  | grantPop granter _ _ => granter.borrows
  | grantState granter _ _ => granter.borrows
  | grantCount granter _ => granter.borrows
  | grantTotal granter _ => granter.borrows
  | poll _ => true
  | park _ => true
  | parkLock _ => true
  | parkPush _ => true
  | parkCount _ _ => true
  | parkTotal _ _ => true
  | parkRoom _ _ => true
  | pollParked _ _ => true
  | pollWaker _ _ => true
  | pollSettled _ _ => true
  | pollGranted => true
  | _ => false

/-- The last sender handle outlives what borrows it. -/
def outlives (l : Logged α) (label : Nat × Input α) : Bool :=
  match l.state.parties[label.1]?, label.2 with
  | some .sender, .drop => l.state.shared.txCount != 1 || l.state.parties.all fun place =>
    !place.borrows
  | _, _ => true

variable {s s' : Shared α} {place place' : Place α} {input : Input α} {entering : List (Place α)}
  {l l' : Logged α} {label : Nat × Input α} {capacity lanes : Nat}

/-- A place the continuations of a step lead to, with nothing of a message. -/
structure Place.Continues (borrowed : Bool) (place : Place α) : Prop where
  carried : place.carried = none
  reports : place.reports = false
  borrows : place.borrows = true → borrowed = true

theorem Resume.continues_place (resume : Resume α) (borrowed : Bool) :
    resume.place.Continues borrowed := by
  cases resume <;> exact ⟨rfl, rfl, nofun⟩

theorem Rebalancer.continues_place (caller : Rebalancer α) :
    caller.place.Continues caller.borrows := by
  cases caller with
  | release => exact ⟨rfl, rfl, nofun⟩
  | park => exact ⟨rfl, rfl, fun _ => rfl⟩

theorem Woken.continues_place (next : Woken α) : next.place.Continues next.borrows := by
  cases next with
  | resume resume => exact resume.continues_place _
  | rebalance => exact ⟨rfl, rfl, id⟩

theorem Taker.continues_attempt (s : Shared α) (taker : Taker α) :
    (taker.attempt s).Continues taker.borrows := by
  unfold attempt
  split
  · exact ⟨rfl, rfl, id⟩
  · cases taker with
    | reserve | trySend => exact ⟨rfl, rfl, fun _ => rfl⟩
    | rebalance caller => exact caller.continues_place

theorem Taker.continues_taken (taker : Taker α) : taker.taken.Continues taker.borrows := by
  cases taker with
  | reserve | trySend => exact ⟨rfl, rfl, fun _ => rfl⟩
  | rebalance => exact ⟨rfl, rfl, id⟩

theorem Granter.continues_granted (granter : Granter α) :
    granter.granted.Continues granter.borrows := by
  cases granter with
  | release wake resume => exact resume.continues_place _
  | rebalance => exact ⟨rfl, rfl, id⟩

theorem Granter.continues_notGranted (granter : Granter α) :
    granter.notGranted.Continues granter.borrows := by
  cases granter <;> exact ⟨rfl, rfl, id⟩

theorem Closer.continues_place (closer : Closer) (borrowed : Bool) :
    (closer.place : Place α).Continues borrowed := by
  cases closer <;> exact ⟨rfl, rfl, nofun⟩

/-- The messages a step deals with come out of the queue or the hands of the party that
steps, and go into them. -/
structure Delivers (s : Shared α) (place : Place α) (s' : Shared α) (place' : Place α)
    (mail : List (Mail α)) : Prop where
  moved : ∀ weight : α → ℤ,
    (mail.map (Mail.left weight)).sum +
        (s.queue.map weight).sum + (place.carried.map weight).getD 0 =
      (s'.queue.map weight).sum + (place'.carried.map weight).getD 0
  held : s'.queueHeld + s.queue.length + (place.carried.map fun _ => (1 : ℤ)).getD 0 =
    s.queueHeld + s'.queue.length + (place'.carried.map fun _ => (1 : ℤ)).getD 0
  borrows : place'.borrows = true → place.borrows = true
  reports : place'.reports = true →
    s' = s ∧ (s.room = s.capacity ∨ s.queue = [] ∧ s.queueEnded = true)
  txCount : place = .sender ∨ s'.txCount = s.txCount

theorem Delivers.quiet (hqueue : s'.queue = s.queue) (hheld : s'.queueHeld = s.queueHeld)
    (htxCount : place = .sender ∨ s'.txCount = s.txCount) (hcarried : place.carried = none)
    (hplace' : place'.Continues place.borrows) :
    Delivers s place s' place' [] where
  moved weight := by simp [hqueue, hcarried, hplace'.carried]
  held := by simp [hqueue, hheld, hcarried, hplace'.carried]
  borrows := hplace'.borrows
  reports h := by cases hplace'.reports.symm.trans h
  txCount := htxCount

theorem Delivers.dequeue {message : α} {rest : List α} {mail : Mail α}
    (hqueue : s.queue = message :: rest)
    (hmail : mail = .received message ∨ mail = .dropped message) (hcarried : place.carried = none)
    (resume : Resume α) :
    Delivers s place { s with queue := rest, queueHeld := s.queueHeld - 1 } (.release false resume)
      [mail] where
  moved weight := by
    rw [hcarried]
    rcases hmail with rfl | rfl <;> simp [hqueue, carried, Mail.left]
  held := by
    rw [hcarried]
    simp [hqueue, carried]
  borrows := nofun
  reports := nofun
  txCount := .inr rfl

theorem delivers_advance (htaken : advance s place = some (s', place')) :
    Delivers s place s' place' (mailOf s place .go) := by
  cases place with
  | push message =>
    simp only [advance] at htaken
    split at htaken
    · rename_i hclosed
      cases htaken
      refine ⟨fun weight => ?_, ?_, (by rintro ⟨⟩), (by rintro ⟨⟩), .inr rfl⟩
      · simp [mailOf, hclosed, carried, Mail.left]
      · simp [carried]
    · rename_i hopen
      cases htaken
      refine ⟨fun weight => ?_, ?_, fun _ => rfl, (by rintro ⟨⟩), .inr rfl⟩
      · simp [mailOf, hopen, carried, Mail.left]
        omega
      · simp [carried]
        omega
  | landing =>
    cases htaken
    refine ⟨fun weight => ?_, ?_, (by rintro ⟨⟩), (by rintro ⟨⟩), .inr rfl⟩
    · simp [mailOf, carried]
    · simp [carried]
      omega
  | dropTake =>
    simp only [advance] at htaken
    split at htaken
    · rename_i hqueue
      cases htaken
      have hmail : mailOf s .dropTake .go = [] := by simp [mailOf, hqueue]
      rw [hmail]
      exact .quiet rfl rfl (.inr rfl) rfl ⟨rfl, rfl, (by rintro ⟨⟩)⟩
    · rename_i message rest hqueue
      cases htaken
      have hmail : mailOf s .dropTake .go = [.dropped message] := by simp [mailOf, hqueue]
      rw [hmail]
      exact .dequeue hqueue (.inr rfl) rfl .draining
  | recvRoom =>
    cases htaken
    split
    · rename_i hroom
      exact ⟨fun _ => by simp [mailOf, carried], by simp [carried], (by rintro ⟨⟩),
        fun _ => ⟨rfl, .inl hroom⟩, .inr rfl⟩
    · exact .quiet rfl rfl (.inr rfl) rfl ⟨rfl, rfl, (by rintro ⟨⟩)⟩
  | takeExchange taker =>
    simp only [advance] at htaken
    split at htaken
    · cases htaken
      exact .quiet rfl rfl (.inr rfl) rfl taker.continues_taken
    · cases htaken
      exact .quiet rfl rfl (.inr rfl) rfl (taker.continues_attempt s)
  | closeState closer index left =>
    cases left <;> cases htaken <;> exact .quiet rfl rfl (.inr rfl) rfl ⟨rfl, rfl, (by rintro ⟨⟩)⟩
  | closeQueue =>
    cases htaken
    refine .quiet rfl rfl (.inr rfl) rfl ?_
    split <;> exact ⟨rfl, rfl, (by rintro ⟨⟩)⟩
  | _ =>
    -- The places left deal with no message.
    simp only [advance] at htaken
    repeat' split at htaken
    all_goals cases htaken
    all_goals refine .quiet rfl rfl (.inr rfl) rfl ?_
    all_goals
      first
      | exact ⟨rfl, rfl, id⟩
      | exact ⟨rfl, rfl, (by rintro ⟨⟩)⟩
      | exact ⟨rfl, rfl, fun _ => rfl⟩
      | exact Woken.continues_place _
      | exact Resume.continues_place _ _
      | exact Rebalancer.continues_place _
      | exact Taker.continues_attempt s _
      | exact Granter.continues_granted _
      | exact Granter.continues_notGranted _
      | exact Closer.continues_place _ _

theorem delivers_falter (htaken : falter s place = some (s', place')) :
    Delivers s place s' place' (mailOf s place .falter) := by
  cases place with
  | takeExchange taker =>
    cases htaken
    exact .quiet rfl rfl (.inr rfl) rfl (taker.continues_attempt s)
  | parkPush | pollSettled =>
    cases htaken
    exact .quiet rfl rfl (.inr rfl) rfl ⟨rfl, rfl, fun _ => rfl⟩
  | pollWaker =>
    simp only [falter] at htaken
    split at htaken
    · cases htaken
    · cases htaken
      exact .quiet rfl rfl (.inr rfl) rfl ⟨rfl, rfl, fun _ => rfl⟩
  | _ => cases htaken

theorem delivers_takeMessage {empty : Place α} (hcarried : place.carried = none)
    (hempty : empty.carried = none) (hborrows : empty.borrows = false)
    (hreports : empty.reports = true → s.queueEnded = true) :
    Delivers s place (takeMessage s empty).1 (takeMessage s empty).2
      (s.queue.head?.map Mail.received).toList := by
  unfold takeMessage
  split
  · rename_i message rest hqueue
    have hmail : (s.queue.head?.map Mail.received).toList = [.received message] := by simp [hqueue]
    rw [hmail]
    exact .dequeue hqueue (.inl rfl) hcarried _
  · rename_i hqueue
    refine ⟨fun weight => ?_, ?_, fun h => ?_, fun h => ⟨rfl, .inr ⟨hqueue, hreports h⟩⟩, .inr rfl⟩
    · simp [hqueue, hcarried, hempty]
    · simp [hcarried, hempty]
    · cases hborrows.symm.trans h

/-- Each call on a party at rest; what it brings in borrows the handle it is made on. -/
theorem delivers_call (htaken : call s place input = some (s', place', entering)) :
    Delivers s place s' place' (mailOf s place input) ∧
      ∀ other ∈ entering, other.carried = none ∧ (other.borrows = true → place = .sender) := by
  unfold call at htaken
  split at htaken
  all_goals cases htaken
  all_goals refine ⟨?_, by simp [carried, borrows]⟩
  all_goals
    first
    | exact .quiet rfl rfl (.inr rfl) rfl ⟨rfl, rfl, id⟩
    | exact .quiet rfl rfl (.inr rfl) rfl ⟨rfl, rfl, nofun⟩
    | exact .quiet rfl rfl (.inr rfl) rfl ⟨rfl, rfl, fun _ => rfl⟩
    | exact .quiet rfl rfl (.inl rfl) rfl ⟨rfl, rfl, nofun⟩
    | exact .quiet rfl rfl (.inl rfl) rfl (by split <;> exact ⟨rfl, rfl, nofun⟩)
    | exact delivers_takeMessage rfl rfl rfl nofun
    | skip
  · refine delivers_takeMessage rfl ?_ ?_ ?_
    · split <;> rfl
    · split <;> rfl
    · split
      · exact fun _ => ‹_›
      · nofun

theorem delivers_next (htaken : next s place input = some (s', place', entering)) :
    Delivers s place s' place' (mailOf s place input) ∧
      ∀ other ∈ entering, other.carried = none ∧ (other.borrows = true → place = .sender) := by
  unfold next at htaken
  split at htaken
  · obtain ⟨after, hadvance, heq⟩ := Option.map_eq_some_iff.mp htaken
    cases heq
    exact ⟨delivers_advance hadvance, by simp⟩
  · obtain ⟨after, hfalter, heq⟩ := Option.map_eq_some_iff.mp htaken
    cases heq
    exact ⟨delivers_falter hfalter, by simp⟩
  · exact delivers_call htaken

/-! ## Every run -/

def Place.carries (weight : α → ℤ) (place : Place α) : ℤ := (place.carried.map weight).getD 0

structure Accounted (l : Logged α) : Prop where
  /-- A message that was pushed is queued, on its way into the queue, or was received
  or dropped once. -/
  moved : ∀ weight : α → ℤ, (l.log.map (Mail.left weight)).sum =
    (l.state.shared.queue.map weight).sum + weigh (carries weight) l.state.parties
  held : l.state.shared.queueHeld =
    l.state.shared.queue.length + weigh (carries fun _ => 1) l.state.parties
  /-- Without a sender handle nothing borrows one. -/
  handles : l.state.shared.txCount = 0 → ∀ place ∈ l.state.parties, place.borrows = false

/-- What a step of a party of the record's machine is. -/
theorem Logged.step_eq_some (htaken : l.step label = some l') :
    ∃ place shared place' entering, l.state.parties[label.1]? = some place ∧
      next l.state.shared place label.2 = some (shared, place', entering) ∧
      l' = ⟨⟨shared, l.state.parties.set label.1 place' ++ entering⟩,
        l.log ++ mailOf l.state.shared place label.2⟩ := by
  obtain ⟨state, hstep, rfl⟩ := Option.map_eq_some_iff.mp htaken
  obtain ⟨place, shared, place', entering, hplace, hnext, rfl⟩ := Machine.Pool.step_eq_some hstep
  exact ⟨place, shared, place', entering, hplace, hnext, by simp [hplace]⟩

theorem Balanced.txCount_pos {i : Nat} {state : State α} (hbalanced : Balanced capacity state)
    (hsender : state.parties[i]? = some .sender) : 0 < state.shared.txCount := by
  have hle : (sender : Place α).holding.handles ≤
      weigh (fun place : Place α => place.holding.handles) state.parties :=
    weight_le_weigh (fun place => by cases place <;> simp [holding]) hsender
  have hhandles := hbalanced.sound.handles
  rw [weigh_map] at hhandles
  have hone : (sender : Place α).holding.handles = 1 := rfl
  change state.shared.txCount = _ at hhandles
  omega

/-- A call on a handle adds to the handles, or it drops the handle. -/
theorem sender_next (htaken : next s .sender input = some (s', place', entering)) :
    s.txCount ≤ s'.txCount ∨
      input = .drop ∧ s'.txCount = s.txCount - 1 ∧ entering = [] := by
  cases input with
  | clone | reserve | trySend =>
    cases htaken
    exact .inl (by simp)
  | drop =>
    cases htaken
    exact .inr ⟨rfl, rfl, rfl⟩
  | _ => cases htaken

/-- Without a handle nothing borrows one, as long as the last handle outlives what
borrows it. -/
theorem Accounted.handles_next (haccounted : Accounted l) (hbalanced : Balanced capacity l.state)
    (houtlives : outlives l label = true) (hplace : l.state.parties[label.1]? = some place)
    (htaken : next l.state.shared place label.2 = some (s', place', entering))
    (hnone : s'.txCount = 0) :
    ∀ other ∈ l.state.parties.set label.1 place' ++ entering, other.borrows = false := by
  obtain ⟨hdelivers, hentering⟩ := delivers_next htaken
  have hall (hbefore : ∀ other ∈ l.state.parties, other.borrows = false)
      (hnew : ∀ other ∈ entering, other.borrows = false) :
      ∀ other ∈ l.state.parties.set label.1 place' ++ entering, other.borrows = false := by
    intro other hother
    rcases List.mem_append.mp hother with hmem | hmem
    · rcases List.mem_or_eq_of_mem_set hmem with hmem | rfl
      · exact hbefore other hmem
      · have hown := hbefore place (List.mem_of_getElem? hplace)
        exact Bool.eq_false_iff.mpr fun h => Bool.eq_false_iff.mp hown (hdelivers.borrows h)
    · exact hnew other hmem
  by_cases hsender : place = .sender
  · subst hsender
    have hpos := hbalanced.txCount_pos hplace
    rcases sender_next htaken with hmore | ⟨hdrop, hless, hentering⟩
    · omega
    · -- The last handle is dropped.
      refine hall ?_ (by simp [hentering])
      have hone : l.state.shared.txCount = 1 := by omega
      simp only [outlives, hplace, hdrop, hone, bne_self_eq_false, Bool.false_or, List.all_eq_true,
        Bool.not_eq_true'] at houtlives
      exact houtlives
  · have hsame := hdelivers.txCount.resolve_left hsender
    refine hall (haccounted.handles (hsame.symm.trans hnone)) fun other hmem => ?_
    exact Bool.eq_false_iff.mpr fun h => hsender ((hentering other hmem).2 h)

/-- A step keeps the record and the state in agreement. -/
theorem Accounted.step (haccounted : Accounted l) (hbalanced : Balanced capacity l.state)
    (houtlives : outlives l label = true) (htaken : l.step label = some l') : Accounted l' := by
  obtain ⟨place, shared, place', entering, hplace, hnext, rfl⟩ := Logged.step_eq_some htaken
  obtain ⟨hdelivers, hentering⟩ := delivers_next hnext
  have hcarries (weight : α → ℤ) :
      weigh (carries weight) (l.state.parties.set label.1 place' ++ entering) +
          place.carries weight =
        weigh (carries weight) l.state.parties + place'.carries weight := by
    have hstep : weigh (carries weight) (l.state.parties.set label.1 place' ++ entering) +
        place.carries weight = weigh (carries weight) l.state.parties +
          place'.carries weight + weigh (carries weight) entering := weigh_step hplace
    have hnew : weigh (carries weight) entering = 0 :=
      weigh_zero fun other hmem => by simp [carries, (hentering other hmem).1]
    omega
  refine ⟨fun weight => ?_, ?_, haccounted.handles_next hbalanced houtlives hplace hnext⟩
  · have hmoved := hdelivers.moved weight
    have hbefore := haccounted.moved weight
    have hafter := hcarries weight
    unfold carries at hafter hbefore ⊢
    rw [List.map_append, List.sum_append]
    dsimp only
    omega
  · have hheld := hdelivers.held
    have hbefore := haccounted.held
    have hafter := hcarries fun _ => 1
    unfold carries at hafter hbefore ⊢
    dsimp only
    omega

section Count

variable [DecidableEq α]

def only (message : α) : α → ℤ := fun other => if other = message then 1 else 0

def landings (state : State α) (message : α) : ℤ := weigh (carries (only message)) state.parties

theorem sum_only (message : α) (queue : List α) :
    (queue.map (only message)).sum = queue.count message := by
  induction queue with
  | nil => rfl
  | cons first rest ih =>
    rw [List.map_cons, List.sum_cons, ih, List.count_cons]
    by_cases hfirst : first = message <;> simp [only, hfirst, add_comm]

theorem sum_left (message : α) (log : List (Mail α)) :
    (log.map (Mail.left (only message))).sum =
      (log.count (.pushed message) : ℤ) - log.count (.received message) -
        log.count (.dropped message) := by
  induction log with
  | nil => rfl
  | cons first rest ih =>
    rw [List.map_cons, List.sum_cons, ih]
    simp only [List.count_cons]
    cases first with
    | pushed other | received other | dropped other =>
      by_cases hother : other = message
      · simp [Mail.left, only, hother]
        omega
      · simp [Mail.left, only, hother]

/-- A message that was pushed is queued, on its way into the queue, or was received or
dropped, and only one of these. -/
theorem Accounted.count {l : Logged α} (haccounted : Accounted l) (message : α) :
    (l.log.count (.pushed message) : ℤ) =
      l.state.shared.queue.count message + landings l.state message +
        l.log.count (.received message) + l.log.count (.dropped message) := by
  have hmoved := haccounted.moved (only message)
  rw [sum_only, sum_left] at hmoved
  unfold landings
  omega

end Count

/-! ## The reported end -/

end TokioActors.Mailbox
