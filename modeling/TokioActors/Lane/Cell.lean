/-
# The cell of a stop lane

The lane's state lives in a cell with a version, a copy of the generation for
readers without the lock, and the flag the receiver's drop sets. Every raise,
the narrowing to `Kill` and the seal are one critical section each, so a run of
the cell is a sequence of them. The reason the cell holds is the latest maximum
of the raises it accepted, by severity and then by rank; the two ways of closing
the lane, and the receiver's drop, only add to what it refuses.
-/

import Mathlib.Data.Prod.Lex
import TokioActors.Lib.Latest
import TokioActors.StopLane

namespace TokioActors

open StopSeverity

/-- How strong a request is: its severity, then its rank. -/
def StopSeverity.key (reason : StopReason) : ℕ ×ₗ ℕ :=
  toLex ((ofReason reason).level, rank reason)

/-- The severity of what a lane holds, below every severity when it holds nothing. -/
def StopSeverity.held (reason : Option StopReason) : WithBot ℕ :=
  Latest.strength (fun reason => (ofReason reason).level) reason

/-- The lane's state, its version and the receiver-gone flag. The version is a
64-bit word. -/
structure LaneCell where
  state : LaneState := {}
  version : Nat := 0
  rxGone : Bool := false
  deriving DecidableEq, Repr

/-- What happens to a lane's cell. -/
inductive LaneEvent
  | raise (reason : StopReason)
  | closeToNonKill
  | sealLane
  /-- The actor's task drops the receiving half. -/
  | dropReceiver
  deriving DecidableEq, Repr

namespace LaneCell

/-- The answer to a raise. -/
def tryRaise (cell : LaneCell) (reason : StopReason) : RaiseResult :=
  cell.state.raiseResult reason cell.rxGone

/-- Whether a raise would be refused, without raising. -/
def refuses (cell : LaneCell) (reason : StopReason) : Bool :=
  (laneAccept cell.state reason cell.rxGone).1 == .refused

/-- Decides and writes one raise; the version follows a generation that moved. -/
def raise (cell : LaneCell) (reason : StopReason) : LaneCell :=
  if (laneAccept cell.state reason cell.rxGone).2.2 then
    { cell with
      state := cell.state.raise reason cell.rxGone
      version := (cell.state.raise reason cell.rxGone).generation % 2 ^ 64 }
  else cell

def step (cell : LaneCell) : LaneEvent → LaneCell
  | .raise reason => cell.raise reason
  | .closeToNonKill => { cell with state := cell.state.closeToNonKill }
  | .sealLane => { cell with state := cell.state.sealLane }
  | .dropReceiver => { cell with rxGone := true }

/-- The cell after the events. -/
def run (cell : LaneCell) (events : List LaneEvent) : LaneCell := events.foldl step cell

/-- The reason an event adds to those the cell accepted. -/
def accepts (cell : LaneCell) : LaneEvent → List StopReason
  | .raise reason => if cell.tryRaise reason = .recorded then [reason] else []
  | _ => []

/-- The reasons the cell accepts along the events, in order. -/
def accepted (cell : LaneCell) : List LaneEvent → List StopReason
  | [] => []
  | event :: events => cell.accepts event ++ (cell.step event).accepted events

/-! ## One raise -/

variable {cell : LaneCell} {reason : StopReason} {event : LaneEvent} {events more : List LaneEvent}

/-- What makes a cell refuse a request. -/
def Shut (cell : LaneCell) (reason : StopReason) : Prop :=
  cell.rxGone = true ∨ cell.state.sealed = true ∨ (cell.state.killOnly = true ∧ reason ≠ .kill)

instance (cell : LaneCell) (reason : StopReason) : Decidable (cell.Shut reason) :=
  inferInstanceAs (Decidable (_ ∨ _ ∨ (_ ∧ _)))

theorem guard_iff : (cell.rxGone || cell.state.sealed || (cell.state.killOnly && reason != .kill)) =
    true ↔ cell.Shut reason := by
  simp only [Bool.or_eq_true, Bool.and_eq_true, bne_iff_ne, Shut, or_assoc]

/-- The three answers a cell gives, and when. -/
theorem laneAccept_cases :
    (cell.Shut reason ∧ laneAccept cell.state reason cell.rxGone = (.refused, false, false)) ∨
    (¬ cell.Shut reason ∧ (∃ stored, cell.state.reason = some stored ∧
        key reason < key stored ∧
        (ofReason reason).level < (ofReason stored).level) ∧
      laneAccept cell.state reason cell.rxGone = (.superseded, false, false)) ∨
    (¬ cell.Shut reason ∧ ∃ store, laneAccept cell.state reason cell.rxGone =
        (.recorded, store, true) ∧
      (if store then some reason else cell.state.reason) =
        Latest.keep key cell.state.reason reason) := by
  unfold laneAccept
  dsimp only
  by_cases hshut : cell.Shut reason
  · exact .inl ⟨hshut, if_pos (guard_iff.mpr hshut)⟩
  · right
    rw [if_neg (fun h => hshut (guard_iff.mp h))]
    cases hstored : cell.state.reason with
    | none => exact .inr ⟨hshut, true, rfl, rfl⟩
    | some stored =>
      dsimp only
      by_cases hlevel : (ofReason reason).level < (ofReason stored).level
      · rw [if_pos hlevel]
        exact .inl ⟨hshut, ⟨stored, rfl, Prod.Lex.toLex_lt_toLex.mpr (.inl hlevel), hlevel⟩, rfl⟩
      · rw [if_neg hlevel]
        refine .inr ⟨hshut, _, rfl, ?_⟩
        -- The request is stored exactly when the held one is not stronger.
        have hstore : (decide ((ofReason reason).level >
            (ofReason stored).level) ||
            decide (rank reason ≥ rank stored)) = true ↔
            key stored ≤ key reason := by
          rw [Bool.or_eq_true, decide_eq_true_iff, decide_eq_true_iff]
          unfold key
          rw [Prod.Lex.toLex_le_toLex]
          omega
        simp only [Latest.keep, hstore]

theorem refuses_iff : cell.refuses reason = true ↔ cell.Shut reason := by
  unfold refuses
  rcases @laneAccept_cases cell reason with ⟨hshut, h⟩ | ⟨hshut, _, h⟩ | ⟨hshut, store, h, _⟩ <;>
    simp [h, hshut]

theorem tryRaise_refused_iff : cell.tryRaise reason = .refused ↔ cell.Shut reason := by
  unfold tryRaise LaneState.raiseResult
  rcases @laneAccept_cases cell reason with ⟨hshut, h⟩ | ⟨hshut, _, h⟩ | ⟨hshut, store, h, _⟩ <;>
    simp [h, hshut]

theorem reason_raise (hopen : ¬ cell.Shut reason) :
    (cell.raise reason).state.reason = Latest.keep key cell.state.reason reason := by
  unfold raise LaneState.raise
  rcases @laneAccept_cases cell reason with ⟨hshut, _⟩ | ⟨_, ⟨stored, hstored, hlt, _⟩, h⟩ |
    ⟨_, store, h, hkeep⟩
  · exact absurd hshut hopen
  · simp [h, hstored, Latest.keep, not_le.mpr hlt]
  · simp [h, hkeep]

theorem raise_of_shut (hshut : cell.Shut reason) : cell.raise reason = cell := by
  unfold raise
  rcases @laneAccept_cases cell reason with ⟨_, h⟩ | ⟨hopen, _⟩ | ⟨hopen, _⟩
  · simp [h]
  · exact absurd hshut hopen
  · exact absurd hshut hopen

theorem shut_raise {other : StopReason} : (cell.raise reason).Shut other ↔ cell.Shut other := by
  unfold raise LaneState.raise
  split
  · simp only [Shut]
    split <;> rfl
  · rfl

/-! ## Runs -/

theorem run_append : cell.run (events ++ more) = (cell.run events).run more := List.foldl_append

/-- One event keeps the stronger of what is held and what it adds. -/
theorem reason_step : (cell.step event).state.reason =
    (cell.accepts event).foldl (Latest.keep key) cell.state.reason := by
  cases event with
  | raise reason =>
    unfold step accepts tryRaise LaneState.raiseResult
    rcases @laneAccept_cases cell reason with ⟨hshut, h⟩ | ⟨hopen, ⟨stored, hstored, hlt, _⟩, h⟩ |
      ⟨hopen, store, h, _⟩
    · simp [h, raise_of_shut hshut]
    · simp [h, reason_raise hopen, hstored, Latest.keep, not_le.mpr hlt]
    · simp [h, reason_raise hopen]
  | closeToNonKill | sealLane | dropReceiver => rfl

theorem reason_run : (cell.run events).state.reason =
    (cell.accepted events).foldl (Latest.keep key) cell.state.reason := by
  induction events generalizing cell with
  | nil => rfl
  | cons event events ih =>
    rw [accepted, List.foldl_append, ← reason_step, ← ih]
    rfl

/-- What an event leaves refused was refused before, or the event closes the lane
to it. -/
theorem shut_step {other : StopReason} : (cell.step event).Shut other ↔
    cell.Shut other ∨ (event = .closeToNonKill ∧ other ≠ .kill) ∨ event = .sealLane ∨
      event = .dropReceiver := by
  cases event with
  | raise => simpa [step] using shut_raise
  | closeToNonKill =>
    simp only [step, Shut, LaneState.closeToNonKill, true_and]
    tauto
  | sealLane => simp [step, Shut, LaneState.sealLane]
  | dropReceiver => simp [step, Shut]

theorem shut_run (hshut : cell.Shut reason) : (cell.run events).Shut reason := by
  induction events generalizing cell with
  | nil => exact hshut
  | cons event events ih => exact ih (shut_step.mpr (.inl hshut))

theorem held_le_keep {held : Option StopReason} :
    StopSeverity.held held ≤ StopSeverity.held (Latest.keep key held reason) := by
  cases held with
  | none => exact bot_le
  | some =>
    unfold Latest.keep
    dsimp only
    split
    next hle =>
      have hlex := Prod.Lex.toLex_le_toLex.mp hle
      simp only [StopSeverity.held, Latest.strength_some, WithBot.coe_le_coe]
      omega
    next => exact le_refl _

theorem held_le_run : StopSeverity.held cell.state.reason ≤
    StopSeverity.held (cell.run events).state.reason := by
  rw [reason_run]
  generalize cell.accepted events = offers
  induction offers generalizing cell with
  | nil => exact le_refl _
  | cons offer offers ih =>
    refine le_trans (@held_le_keep offer _) ?_
    exact @ih { state := { reason := Latest.keep key cell.state.reason offer } }

theorem kill_step (hkill : cell.state.reason = some .kill) :
    (cell.step event).state.reason = some .kill := by
  cases event with
  | raise reason =>
    simp only [step, raise]
    split
    · exact LaneState.reason_raise_of_kill reason cell.rxGone hkill
    · exact hkill
  | closeToNonKill | sealLane | dropReceiver => exact hkill

theorem kill_run (hkill : cell.state.reason = some .kill) :
    (cell.run events).state.reason = some .kill := by
  induction events generalizing cell with
  | nil => exact hkill
  | cons event events ih => exact ih (kill_step hkill)

/-! ## The order of the raises -/

/-- Two cells that refuse the same requests and hold equally strong ones. -/
structure Alike (first second : LaneCell) : Prop where
  shut : ∀ reason, first.Shut reason ↔ second.Shut reason
  strength : Latest.strength key first.state.reason =
    Latest.strength key second.state.reason

theorem Alike.step {first second : LaneCell} (halike : Alike first second) :
    Alike (first.step event) (second.step event) where
  shut reason := by rw [shut_step, shut_step, halike.shut]
  strength := by
    cases event with
    | raise reason =>
      by_cases hshut : first.Shut reason
      · simp only [LaneCell.step]
        rw [raise_of_shut hshut, raise_of_shut ((halike.shut reason).mp hshut)]
        exact halike.strength
      · simp only [LaneCell.step]
        rw [reason_raise hshut, reason_raise (fun h => hshut ((halike.shut reason).mpr h)),
          Latest.strength_keep, Latest.strength_keep, halike.strength]
    | closeToNonKill | sealLane | dropReceiver => exact halike.strength

theorem Alike.run {first second : LaneCell} (halike : Alike first second) :
    Alike (first.run events) (second.run events) := by
  induction events generalizing first second with
  | nil => exact halike
  | cons event events ih => exact ih halike.step

/-- Raises alone: those the cell does not refuse are offered in order. -/
theorem run_raises {raises : List StopReason} :
    (∀ reason, (cell.run (raises.map .raise)).Shut reason ↔ cell.Shut reason) ∧
      (cell.run (raises.map .raise)).state.reason =
        (raises.filter fun reason => ¬ cell.Shut reason).foldl (Latest.keep key)
          cell.state.reason := by
  induction raises generalizing cell with
  | nil => exact ⟨fun _ => Iff.rfl, rfl⟩
  | cons reason raises ih =>
    obtain ⟨hshut, hreason⟩ := @ih (cell.raise reason)
    simp only [shut_raise] at hshut hreason
    refine ⟨hshut, hreason.trans ?_⟩
    by_cases hrefused : cell.Shut reason
    · rw [raise_of_shut hrefused]
      simp [hrefused]
    · rw [reason_raise hrefused]
      simp [hrefused]

theorem alike_of_perm {raises others : List StopReason} (hperm : raises.Perm others) :
    Alike (cell.run (raises.map .raise)) (cell.run (others.map .raise)) where
  shut reason := by rw [run_raises.1, run_raises.1]
  strength := by
    rw [run_raises.2, run_raises.2]
    exact Latest.strength_foldl_perm (hperm.filter _)

end LaneCell

/-- **A stop lane keeps the latest maximum of the raises it accepted.** How strong
that is does not depend on the order of the raises, severity never falls, a
`Kill` stays, and what is refused once, by a raise or by a look ahead, is refused
from then on. -/
theorem lane_keeps_latest_maximum (events : List LaneEvent) :
    (LaneCell.run {} events).state.reason =
        Latest.best key (LaneCell.accepted {} events) ∧
    (∀ reason, (LaneCell.run {} events).state.reason = some reason →
      Latest.IsLatest key reason (LaneCell.accepted {} events)) ∧
    (∀ (raises others : List StopReason) (later : List LaneEvent), raises.Perm others →
      Latest.strength key
          (LaneCell.run {} (events ++ raises.map .raise ++ later)).state.reason =
        Latest.strength key
          (LaneCell.run {} (events ++ others.map .raise ++ later)).state.reason) ∧
    ∀ later : List LaneEvent,
      StopSeverity.held (LaneCell.run {} events).state.reason ≤
        StopSeverity.held (LaneCell.run {} (events ++ later)).state.reason ∧
      ((LaneCell.run {} events).state.reason = some .kill →
        (LaneCell.run {} (events ++ later)).state.reason = some .kill) ∧
      ∀ reason, (LaneCell.run {} events).tryRaise reason = .refused ∨
          (LaneCell.run {} events).refuses reason = true →
        (LaneCell.run {} (events ++ later)).tryRaise reason = .refused ∧
          (LaneCell.run {} (events ++ later)).refuses reason = true := by
  have hbest : (LaneCell.run {} events).state.reason =
      Latest.best key (LaneCell.accepted {} events) := LaneCell.reason_run
  refine ⟨hbest, fun reason hheld => ?_, fun raises others later hperm => ?_, fun later => ?_⟩
  · exact Latest.isLatest_of_best (hbest.symm.trans hheld)
  · rw [LaneCell.run_append, LaneCell.run_append, LaneCell.run_append, LaneCell.run_append]
    exact (LaneCell.alike_of_perm hperm).run.strength
  · rw [LaneCell.run_append]
    refine ⟨LaneCell.held_le_run, LaneCell.kill_run, fun reason hrefused => ?_⟩
    rw [LaneCell.tryRaise_refused_iff, LaneCell.refuses_iff, or_self] at hrefused
    rw [LaneCell.tryRaise_refused_iff, LaneCell.refuses_iff, and_self]
    exact LaneCell.shut_run hrefused

/-- Two raises in either order, and a `Kill` in a lane that is sealed after it. -/
theorem lane_keeps_latest_maximum_kill :
    (Latest.strength key
          (LaneCell.run {} ([.raise .graceful] ++
            [StopReason.cancelled, .parentKilled].map .raise ++ [.sealLane])).state.reason =
        Latest.strength key
          (LaneCell.run {} ([.raise .graceful] ++
            [StopReason.parentKilled, .cancelled].map .raise ++ [.sealLane])).state.reason) ∧
    (LaneCell.run {} ([.raise .kill, .sealLane] ++ [.raise .graceful])).state.reason =
      some .kill ∧
    (LaneCell.run {} ([.raise .kill, .sealLane] ++ [.raise .graceful])).tryRaise .kill =
      .refused := by
  have hkill := (lane_keeps_latest_maximum [.raise .kill, .sealLane]).2.2.2 [.raise .graceful]
  exact ⟨(lane_keeps_latest_maximum [.raise .graceful]).2.2.1 _ _ [.sealLane] (.swap _ _ _),
    hkill.2.1 (by decide), (hkill.2.2 .kill (.inl (by decide))).1⟩

end TokioActors
