/-
# The count of forwarder ends

An actor's timers and streams run as forwarder tasks in one set. Each forwarder
counts its end once, at its ready poll or at its drop, before its entry in the
set can be ready. The run loop of an actor without children compares that count
with the entries it took: when they agree, and its select polled the set since
the last spawn and the last reap, it leaves the set unpolled. Nothing is missed by
that: no entry is ready, and the set holds the loop's waker unless it is empty.
-/

import TokioActors.Lib.Pool

namespace TokioActors.Forwarders

open Machine

/-- A forwarder's task, until the run loop takes its entry. -/
inductive Stage
  | running
  /-- Its poll was ready; its future is not dropped yet. -/
  | returned
  | dropped
  /-- Its entry in the set is ready. -/
  | completed
  | taken
  deriving DecidableEq

structure Forwarder where
  counted : Bool := false
  stage : Stage := .running

/-- What the context keeps for its forwarders, with their set. -/
structure Extras where
  /-- Created with the first forwarder. -/
  forwardersDone : Option Nat := none
  forwardersTaken : Nat := 0
  forwardersUnpolled : Bool := false
  /-- The set's length, and whether it holds the run loop's waker. -/
  entries : Nat := 0
  waker : Bool := false

namespace Extras

def forwardersIdle (extras : Extras) : Bool :=
  !extras.forwardersUnpolled &&
    match extras.forwardersDone with
    | none => true
    | some done => done == extras.forwardersTaken

/-- The select polls the set, which keeps the waker unless it is empty. -/
def noteForwardersPolled (extras : Extras) : Extras :=
  { extras with forwardersUnpolled := false, waker := extras.waker || extras.entries != 0 }

/-- The entry the select took out of the set is reaped. -/
def reapForwarder (extras : Extras) : Extras :=
  { extras with
    forwardersTaken := extras.forwardersTaken + 1
    forwardersUnpolled := true
    entries := extras.entries - 1 }

def spawnForwarder (extras : Extras) : Extras :=
  { extras with
    forwardersDone := some (extras.forwardersDone.getD 0)
    forwardersUnpolled := true
    entries := extras.entries + 1 }

def countEnd (extras : Extras) (forwarder : Forwarder) : Extras :=
  { extras with
    forwardersDone :=
      if forwarder.counted then extras.forwardersDone else extras.forwardersDone.map (· + 1) }

end Extras

inductive Party
  | owner
  | forwarder (forwarder : Forwarder)

inductive Input
  | spawn
  | poll
  | ready
  | drop
  | complete
  | take

/-- One step of the run loop or of a forwarder's task. -/
def next (extras : Extras) : Party → Input → Option (Extras × Party × List Party)
  | .owner, .spawn => some (extras.spawnForwarder, .owner, [.forwarder {}])
  | .owner, .poll => some (extras.noteForwardersPolled, .owner, [])
  | .forwarder forwarder, .ready =>
    if forwarder.stage = .running then
      some (extras.countEnd forwarder, .forwarder ⟨true, .returned⟩, [])
    else none
  -- Tokio drops the future after its ready poll, or without one on an abort.
  | .forwarder forwarder, .drop =>
    if forwarder.stage = .running ∨ forwarder.stage = .returned then
      some (extras.countEnd forwarder, .forwarder ⟨true, .dropped⟩, [])
    else none
  | .forwarder forwarder, .complete =>
    if forwarder.stage = .dropped then
      some ({ extras with waker := false }, .forwarder { forwarder with stage := .completed }, [])
    else none
  | .forwarder forwarder, .take =>
    if forwarder.stage = .completed then
      some (extras.reapForwarder, .forwarder { forwarder with stage := .taken }, [])
    else none
  | _, _ => none

abbrev State := Pool Extras Party

def start : State := ⟨{}, [.owner]⟩

/-- One for a forwarder in the set. -/
def Party.entry : Party → ℤ
  | .owner => 0
  | .forwarder task => if task.stage = .taken then 0 else 1

/-- One for a forwarder in the set whose end was counted. -/
def Party.pending : Party → ℤ
  | .owner => 0
  | .forwarder task => if task.counted ∧ task.stage ≠ .taken then 1 else 0

theorem Party.pending_nonneg (party : Party) : 0 ≤ party.pending := by
  cases party with
  | owner => exact le_refl _
  | forwarder task =>
    unfold pending
    split <;> omega

theorem Party.entry_nonneg (party : Party) : 0 ≤ party.entry := by
  cases party with
  | owner => exact le_refl _
  | forwarder task =>
    unfold entry
    split <;> omega

/-- A forwarder that ended was counted. -/
def Party.Counted : Party → Prop
  | .owner => True
  | .forwarder task => task.stage ≠ .running → task.counted = true

/-- A polled set that is not empty holds the waker until an end is counted. -/
def Extras.Waits (extras : Extras) : Prop :=
  extras.forwardersUnpolled = false → extras.entries ≠ 0 →
    extras.forwardersDone.getD 0 = extras.forwardersTaken → extras.waker = true

/-- The counts are those of the tasks, and a polled set holds the waker until an
end is counted. -/
structure Counts (state : State) : Prop where
  done : (state.shared.forwardersDone.getD 0 : ℤ) =
    state.shared.forwardersTaken + Pool.weigh Party.pending state.parties
  entries : (state.shared.entries : ℤ) = Pool.weigh Party.entry state.parties
  created : state.shared.forwardersDone = none → state.shared.entries = 0
  counted : ∀ party ∈ state.parties, party.Counted
  waker : state.shared.Waits

/-- What one step does to the counts, for a party whose own part they hold. -/
theorem next_counts {extras extras' : Extras} {place place' : Party} {input : Input}
    {entering : List Party} (htaken : next extras place input = some (extras', place', entering))
    (hpending : place.pending ≤ extras.forwardersDone.getD 0 - extras.forwardersTaken)
    (hentry : place.entry ≤ extras.entries)
    (hcreated : extras.forwardersDone = none → extras.entries = 0) (hcounted : place.Counted)
    (hwaker : extras.Waits) :
    (extras'.forwardersDone.getD 0 - extras'.forwardersTaken - place'.pending : ℤ) =
        extras.forwardersDone.getD 0 - extras.forwardersTaken - place.pending ∧
      (extras'.entries - place'.entry - Pool.weigh Party.entry entering : ℤ) =
        extras.entries - place.entry ∧
      Pool.weigh Party.pending entering = 0 ∧
      (extras'.forwardersDone = none → extras'.entries = 0) ∧
      (∀ party ∈ place' :: entering, party.Counted) ∧ extras'.Waits := by
  cases place with
  | owner =>
    cases input with
    | spawn | poll =>
      cases htaken
      simp_all [Party.pending, Party.entry, Party.Counted, Extras.spawnForwarder,
        Extras.noteForwardersPolled, Extras.Waits]
    | _ => cases htaken
  | forwarder task =>
    obtain ⟨counted, stage⟩ := task
    have hdone (hstage : stage ≠ .taken) : ∃ done, extras.forwardersDone = some done := by
      refine Option.ne_none_iff_exists'.mp fun hnone => ?_
      simp [Party.entry, hstage, hcreated hnone] at hentry
    cases input with
    | ready | drop | complete | take =>
      -- Only the stages the step starts from are left.
      cases stage <;> cases htaken
      all_goals
        obtain ⟨done, hdone⟩ := hdone (by decide)
        cases counted <;>
          simp_all [Party.pending, Party.entry, Party.Counted, Extras.countEnd,
            Extras.reapForwarder, Extras.Waits]
      all_goals omega
    | _ => cases htaken

theorem counts_of_reaches {state : State}
    (hreach : Reaches (Pool.step next) always start state) :
    Counts state := by
  refine Pool.invariant ⟨rfl, rfl, fun _ => rfl, ?_, ?_⟩ ?_ hreach
  · simp [start, Party.Counted]
  · simp [start, Extras.Waits]
  · intro pool i input place place' shared entering hcounts _ hplace htaken
    have hpending := Pool.weight_le_weigh Party.pending_nonneg hplace
    have hentry := Pool.weight_le_weigh Party.entry_nonneg hplace
    rw [← hcounts.entries] at hentry
    obtain ⟨hdone, hentries, hnone, hcreated, hcounted, hwaker⟩ := next_counts htaken
      (by have := hcounts.done; omega) hentry hcounts.created
      (hcounts.counted place (List.mem_of_getElem? hplace)) hcounts.waker
    have hpends : Pool.weigh Party.pending (pool.parties.set i place' ++ entering) + _ = _ :=
      Pool.weigh_step hplace
    have henters : Pool.weigh Party.entry (pool.parties.set i place' ++ entering) + _ = _ :=
      Pool.weigh_step hplace
    have hbefore := hcounts.done
    have hlength := hcounts.entries
    refine ⟨?_, ?_, hcreated, ?_, hwaker⟩
    · dsimp only
      omega
    · dsimp only
      omega
    · intro party hparty
      obtain ⟨k, hk⟩ := List.mem_iff_getElem?.mp hparty
      rcases Pool.getElem?_after hplace hk with ⟨_, rfl⟩ | ⟨_, hold⟩ | ⟨_, hnew⟩
      · exact hcounted _ List.mem_cons_self
      · exact hcounts.counted party (List.mem_of_getElem? hold)
      · exact hcounted party (List.mem_cons_of_mem _ (List.mem_of_getElem? hnew))

/-- No end goes unseen while the set is left unpolled: the entries taken never
outnumber the ends counted, and when the forwarders read idle, none of their
entries is ready, and the set holds the run loop's waker for each that is to come. -/
theorem idle_forwarders_are_not_ready {state : State}
    (hreach : Reaches (Pool.step next) always start state) :
    state.shared.forwardersTaken ≤ state.shared.forwardersDone.getD 0 ∧
      (state.shared.forwardersIdle = true →
        ∀ task, .forwarder task ∈ state.parties →
          task.stage = .taken ∨ task.stage = .running ∧ state.shared.waker = true) := by
  have hcounts := counts_of_reaches hreach
  have hdone := hcounts.done
  have hnonneg : 0 ≤ Pool.weigh Party.pending state.parties :=
    Pool.weigh_nonneg fun party _ => party.pending_nonneg
  refine ⟨by omega, fun hidle task htask => or_iff_not_imp_left.mpr fun hstage => ?_⟩
  obtain ⟨hpolled, hsame⟩ : state.shared.forwardersUnpolled = false ∧
      state.shared.forwardersDone.getD 0 = state.shared.forwardersTaken := by
    cases hcount : state.shared.forwardersDone with
    | none =>
      rw [hcount, Option.getD_none] at hdone
      simp only [Extras.forwardersIdle, hcount, Bool.and_true, Bool.not_eq_true'] at hidle
      exact ⟨hidle, by rw [Option.getD_none]; omega⟩
    | some done => simpa [Extras.forwardersIdle, hcount] using hidle
  obtain ⟨i, hi⟩ := List.mem_iff_getElem?.mp htask
  have hentry : Party.entry (.forwarder task) ≤ _ :=
    Pool.weight_le_weigh Party.entry_nonneg hi
  have hpending : Party.pending (.forwarder task) = 0 :=
    Pool.eq_zero_of_weigh Party.pending_nonneg (by omega) htask
  rw [← hcounts.entries] at hentry
  constructor
  · by_contra hended
    simp [Party.pending, hstage, hcounts.counted _ htask hended] at hpending
  · refine hcounts.waker hpolled ?_ hsame
    simp [Party.entry, hstage] at hentry
    omega

/-- One forwarder ended and was reaped, and a second one runs. -/
def secondRuns : List (Nat × Input) :=
  [(0, .spawn), (0, .poll), (1, .ready), (1, .drop), (1, .complete), (1, .take), (0, .spawn),
    (0, .poll)]

theorem secondRuns_goes : (run (Pool.step next) start secondRuns).isSome = true := by
  decide +kernel

theorem idle_forwarders_are_not_ready_second : ∃ state task,
    Reaches (Pool.step next) always start state ∧
      state.shared.forwardersIdle = true ∧ .forwarder task ∈ state.parties ∧
      task.stage ≠ .taken ∧ state.shared.waker = true := by
  have hreach := reaches_get secondRuns_goes
  have hmem : Party.forwarder {} ∈
      ((run (Pool.step next) start secondRuns).get secondRuns_goes).parties :=
    List.mem_of_getElem? (i := 2) rfl
  have hidle : ((run (Pool.step next) start secondRuns).get
      secondRuns_goes).shared.forwardersIdle = true := by decide +kernel
  rcases (idle_forwarders_are_not_ready hreach).2 hidle _ hmem with htaken | ⟨_, hwaker⟩
  · cases htaken
  · exact ⟨_, _, hreach, hidle, hmem, by decide, hwaker⟩

end TokioActors.Forwarders
