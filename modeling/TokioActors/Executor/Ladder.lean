/-
# The stop ladder

A stop order starts the ladder of an incarnation: its first signal, `Kill` once
the policy's window has passed, the abort after the kill grace, and the verdict
after the settle time. The decision procedure says what each event does at each
position; `Climb` says which positions a ladder reaches, with the trail of what it
did and when.
-/

import TokioActors.Supervision.Slot

namespace TokioActors.Executor

/-- A request a stop raises on an incarnation's lane. -/
inductive Signal
  | parentRequest
  | kill
  deriving DecidableEq, Repr

def Signal.reason : Signal → StopReason
  | parentRequest => .parentRequest
  | kill => .kill

/-- The first signal of a stop under the policy. -/
def firstSignal : Shutdown → Signal
  | .kill => .kill
  | .timeout _ => .parentRequest
  | .infinity => .parentRequest

/-- Where an incarnation's stop ladder stands. -/
inductive LadderStep
  | idle
  | graceful (deadline : Option Nat)
  | killGrace (deadline : Nat)
  | abortGrace (deadline : Nat)
  | spent
  deriving DecidableEq, Repr

/-- Where a ladder stands, without its deadlines. -/
inductive AttemptLadder
  | off
  | window
  | killGrace
  | abortGrace
  | spent
  deriving DecidableEq, Repr

namespace LadderStep

def position : LadderStep → AttemptLadder
  | idle => .off
  | graceful _ => .window
  | killGrace _ => .killGrace
  | abortGrace _ => .abortGrace
  | spent => .spent

/-- The instant at which the ladder next acts, if it waits for one. -/
def deadline : LadderStep → Option Nat
  | graceful deadline => deadline
  | killGrace deadline => some deadline
  | abortGrace deadline => some deadline
  | idle => none
  | spent => none

end LadderStep

/-- What happened to the ladder. -/
inductive LadderEvent
  | order (order : StopOrder)
  | deadlineReached
  | taskEnded
  deriving DecidableEq, Repr

/-- What the ladder's owner does next. -/
inductive LadderAction
  | none
  | raise (signal : Signal)
  | abort
  | writeVerdict
  | releaseMark
  deriving DecidableEq, Repr

/-- A deadline counted from an instant, capped so that a timer can be set to it. -/
def deadlineAfter (base after : Nat) : Nat := base + min after farFuture

/-- The position of a kill path that starts without an order. -/
def killGraceFrom (now grace : Nat) : LadderStep := .killGrace (deadlineAfter now grace)

/-- Where the order's policy clock starts. -/
def clockStart (order : StopOrder) (now : Nat) : Nat :=
  if order.initialRaised then order.issuedAt else now

/-- What an order's start of the ladder asks for. -/
def openingAction (order : StopOrder) : LadderAction :=
  if order.initialRaised then .none else .raise (firstSignal order.policy)

/-- The decision procedure of a stop ladder. -/
def ladderStep (step : LadderStep) (event : LadderEvent) (now grace : Nat) :
    LadderStep × LadderAction :=
  match step, event with
  | step, .taskEnded => (step, .releaseMark)
  | .idle, .order order =>
    (match order.policy with
      | .kill => .killGrace (deadlineAfter (clockStart order now) grace)
      | .timeout window => .graceful (some (deadlineAfter (clockStart order now) window))
      | .infinity => .graceful none,
      openingAction order)
  | .graceful (some _), .deadlineReached => (.killGrace (deadlineAfter now grace), .raise .kill)
  | .killGrace _, .deadlineReached => (.abortGrace (deadlineAfter now abortSettle), .abort)
  | .abortGrace _, .deadlineReached => (.spent, .writeVerdict)
  | step, _ => (step, .none)

/-- The end of the task asks for the release of the mark, wherever the ladder is. -/
@[simp]
theorem ladderStep_taskEnded (step : LadderStep) (now grace : Nat) :
    ladderStep step .taskEnded now grace = (step, .releaseMark) := by
  cases step <;> rfl

/-! ## Trails -/

/-- What a ladder did, with the instants, oldest first. -/
abbrev Trail := List (Nat × LadderAction)

/-- A trail with one more action, unless there is nothing to do. -/
def Trail.add (trail : Trail) (now : Nat) (action : LadderAction) : Trail :=
  if action = .none then trail else trail ++ [(now, action)]

/-- The trail of a ladder that has just started from an order. -/
def opening (order : StopOrder) (now : Nat) : Trail := Trail.add [] now (openingAction order)

/-- The positions a ladder reaches from an order, with the trail that leads there. -/
inductive Climb (grace : Nat) (order : StopOrder) : LadderStep → Trail → Prop
  | window {now window : Nat} (issued : order.issuedAt ≤ now)
      (policy : order.policy = .timeout window) :
      Climb grace order (.graceful (some (deadlineAfter (clockStart order now) window)))
        (opening order now)
  | unbounded {now : Nat} (issued : order.issuedAt ≤ now) (policy : order.policy = .infinity) :
      Climb grace order (.graceful none) (opening order now)
  | killed {now : Nat} (issued : order.issuedAt ≤ now) (policy : order.policy = .kill) :
      Climb grace order (.killGrace (deadlineAfter (clockStart order now) grace))
        (opening order now)
  | kill {deadline now : Nat} {trail : Trail}
      (climb : Climb grace order (.graceful (some deadline)) trail) (due : deadline ≤ now) :
      Climb grace order (.killGrace (deadlineAfter now grace)) (trail ++ [(now, .raise .kill)])
  | abort {deadline now : Nat} {trail : Trail}
      (climb : Climb grace order (.killGrace deadline) trail)
      (due : deadline ≤ now) :
      Climb grace order (.abortGrace (deadlineAfter now abortSettle)) (trail ++ [(now, .abort)])
  | verdict {deadline now : Nat} {trail : Trail}
      (climb : Climb grace order (.abortGrace deadline) trail) (due : deadline ≤ now) :
      Climb grace order .spent (trail ++ [(now, .writeVerdict)])

/-! ## What a trail shows -/

theorem deadlineAfter_mono {base base' : Nat} (after : Nat) (hle : base ≤ base') :
    deadlineAfter base after ≤ deadlineAfter base' after := Nat.add_le_add_right hle _

theorem issuedAt_le_clockStart {order : StopOrder} {now : Nat} (hissued : order.issuedAt ≤ now) :
    order.issuedAt ≤ clockStart order now := by
  unfold clockStart
  split
  · exact le_rfl
  · exact hissued

/-- What a ladder under an order's policy may do, in order. -/
def rungs (order : StopOrder) : List LadderAction :=
  match order.policy with
  | .kill => [.raise .kill, .abort, .writeVerdict]
  | .timeout _ => [.raise (firstSignal order.policy), .raise .kill, .abort, .writeVerdict]
  | .infinity => [.raise (firstSignal order.policy)]

theorem nodup_rungs (order : StopOrder) : (rungs order).Nodup := by
  cases hpolicy : order.policy <;> simp [rungs, hpolicy, firstSignal]

/-- The rungs up to the `Kill`. -/
def upToKill (order : StopOrder) : List LadderAction :=
  match order.policy with
  | .kill => [.raise .kill]
  | _ => [.raise (firstSignal order.policy), .raise .kill]

/-- The rungs behind each position. -/
def behind (order : StopOrder) : LadderStep → List LadderAction
  | .idle => []
  | .graceful _ => [.raise (firstSignal order.policy)]
  | .killGrace _ => upToKill order
  | .abortGrace _ => upToKill order ++ [.abort]
  | .spent => upToKill order ++ [.abort] ++ [.writeVerdict]

namespace Climb

variable {grace : Nat} {order : StopOrder} {step : LadderStep} {trail : Trail}

theorem of_order {now : Nat} (hissued : order.issuedAt ≤ now) :
    Climb grace order (ladderStep .idle (.order order) now grace).1 (opening order now) := by
  cases hpolicy : order.policy with
  | kill => simpa only [ladderStep, hpolicy] using killed hissued hpolicy
  | timeout window => simpa only [ladderStep, hpolicy] using Climb.window hissued hpolicy
  | infinity => simpa only [ladderStep, hpolicy] using unbounded hissued hpolicy

theorem ne_idle (hclimb : Climb grace order step trail) : step ≠ .idle := by
  cases hclimb <;> nofun

theorem map_opening (order : StopOrder) (now : Nat) :
    ((opening order now).map Prod.snd).Sublist [.raise (firstSignal order.policy)] := by
  unfold opening Trail.add openingAction
  cases order.initialRaised with
  | true | false => simp

/-- A ladder whose window can end was ordered with one. -/
theorem timeout_of_window {deadline : Nat}
    (hclimb : Climb grace order (.graceful (some deadline)) trail) :
    ∃ window, order.policy = .timeout window := by
  cases hclimb with
  | @window _ window _ hpolicy => exact ⟨window, hpolicy⟩

/-- What a climb did is the part of the ladder behind it, perhaps without the first
signal, which may have been raised before. -/
theorem sublist_behind (hclimb : Climb grace order step trail) :
    (trail.map Prod.snd).Sublist (behind order step) := by
  induction hclimb with
  | window | unbounded => exact map_opening order _
  | killed _ hpolicy =>
    have hopening := map_opening order
    simp only [hpolicy, firstSignal] at hopening
    simpa only [behind, upToKill, hpolicy] using hopening _
  | kill hbefore _ ih =>
    obtain ⟨window, hpolicy⟩ := hbefore.timeout_of_window
    have hkill : upToKill order = behind order (.graceful none) ++ [.raise .kill] := by
      simp [upToKill, behind, hpolicy]
    rw [List.map_append]
    show List.Sublist _ (upToKill order)
    rw [hkill]
    exact ih.append (List.Sublist.refl _)
  | abort _ _ ih | verdict _ _ ih =>
    rw [List.map_append]
    exact ih.append (List.Sublist.refl _)

theorem infinity (hclimb : Climb grace order step trail) (hpolicy : order.policy = .infinity) :
    step = .graceful none := by
  induction hclimb with
  | window _ hown | killed _ hown => cases hpolicy.symm.trans hown
  | unbounded => rfl
  | kill _ _ ih | abort _ _ ih | verdict _ _ ih => cases ih

theorem sublist (hclimb : Climb grace order step trail) :
    (trail.map Prod.snd).Sublist (rungs order) := by
  have hbehind := hclimb.sublist_behind
  refine hbehind.trans ?_
  cases hpolicy : order.policy with
  | infinity =>
    rw [hclimb.infinity hpolicy]
    simp [behind, rungs, hpolicy]
  | timeout => cases step <;> simp [behind, upToKill, rungs, hpolicy]
  | kill => cases step <;> simp [behind, upToKill, rungs, hpolicy, firstSignal]

/-- A ladder opens with a `Kill` only when that is the order's first signal. -/
theorem opening_kill {now t : Nat} (hmem : (t, LadderAction.raise .kill) ∈ opening order now) :
    order.policy = .kill ∧ order.initialRaised = false ∧ t = now := by
  unfold opening Trail.add openingAction at hmem
  cases hraised : order.initialRaised with
  | true => simp [hraised] at hmem
  | false =>
    cases hpolicy : order.policy <;> simp [hraised, hpolicy, firstSignal] at hmem
    exact ⟨rfl, rfl, hmem⟩

theorem not_mem_opening {now t : Nat} {action : LadderAction}
    (hne : ∀ signal, action ≠ .raise signal) :
    (t, action) ∉ opening order now := by
  unfold opening Trail.add openingAction
  cases order.initialRaised with
  | true => simp
  | false => simp [hne]

/-- `Kill` is raised no earlier than the window allows. -/
theorem kill_time (hclimb : Climb grace order step trail) {t window : Nat}
    (hpolicy : order.policy = .timeout window) (hmem : (t, LadderAction.raise .kill) ∈ trail) :
    order.issuedAt + min window farFuture ≤ t := by
  have hopening {now : Nat} (hmem : (t, LadderAction.raise .kill) ∈ opening order now) : False := by
    cases hpolicy.symm.trans (opening_kill hmem).1
  induction hclimb with
  | window | unbounded | killed => exact absurd hmem hopening
  | abort _ _ ih | verdict _ _ ih => exact ih (by simpa using hmem)
  | kill hbefore hdue ih =>
    rcases List.mem_append.mp hmem with hold | hnew
    · exact ih hold
    · obtain rfl : t = _ := congrArg Prod.fst (List.mem_singleton.mp hnew)
      cases hbefore with
      | @window now other hissued hown =>
        cases hpolicy.symm.trans hown
        exact (deadlineAfter_mono window (issuedAt_le_clockStart hissued)).trans hdue

/-- The abort comes no earlier than the grace after a `Kill`, the one the order
was issued with or the one the ladder raised. -/
theorem abort_time (hclimb : Climb grace order step trail) {t : Nat}
    (hmem : (t, LadderAction.abort) ∈ trail) :
    ∃ killed, killed + min grace farFuture ≤ t ∧
      ((killed, LadderAction.raise .kill) ∈ trail ∨
        order.policy = .kill ∧ order.initialRaised = true ∧ killed = order.issuedAt) := by
  have hopening {now : Nat} : (t, LadderAction.abort) ∉ opening order now :=
    not_mem_opening (by nofun)
  induction hclimb with
  | window | unbounded | killed => exact absurd hmem hopening
  | kill _ _ ih | verdict _ _ ih =>
    obtain ⟨killed, hle, hkilled⟩ := ih (by simpa using hmem)
    exact ⟨killed, hle, hkilled.imp_left (List.mem_append_left _)⟩
  | abort hbefore hdue ih =>
    rcases List.mem_append.mp hmem with hold | hnew
    · obtain ⟨killed, hle, hkilled⟩ := ih hold
      exact ⟨killed, hle, hkilled.imp_left (List.mem_append_left _)⟩
    · obtain rfl : t = _ := congrArg Prod.fst (List.mem_singleton.mp hnew)
      cases hbefore with
      | @killed now hissued hpolicy =>
        refine ⟨clockStart order now, hdue, ?_⟩
        cases hraised : order.initialRaised with
        | true => exact .inr ⟨hpolicy, rfl, by simp [clockStart, hraised]⟩
        | false =>
          refine .inl (List.mem_append_left _ ?_)
          simp [opening, Trail.add, openingAction, clockStart, hraised, hpolicy, firstSignal]
      | @kill _ now _ _ _ => exact ⟨now, hdue, .inl (by simp)⟩

/-- The verdict comes no earlier than the settle time after the abort. -/
theorem verdict_time (hclimb : Climb grace order step trail) {t : Nat}
    (hmem : (t, LadderAction.writeVerdict) ∈ trail) :
    ∃ aborted, aborted + abortSettle ≤ t ∧ (aborted, LadderAction.abort) ∈ trail := by
  have hopening {now : Nat} : (t, LadderAction.writeVerdict) ∉ opening order now :=
    not_mem_opening (by nofun)
  induction hclimb with
  | window | unbounded | killed => exact absurd hmem hopening
  | kill _ _ ih | abort _ _ ih =>
    obtain ⟨aborted, hle, haborted⟩ := ih (by simpa using hmem)
    exact ⟨aborted, hle, List.mem_append_left _ haborted⟩
  | verdict hbefore hdue ih =>
    rcases List.mem_append.mp hmem with hold | hnew
    · obtain ⟨aborted, hle, haborted⟩ := ih hold
      exact ⟨aborted, hle, List.mem_append_left _ haborted⟩
    · obtain rfl : t = _ := congrArg Prod.fst (List.mem_singleton.mp hnew)
      cases hbefore with
      | @abort _ now _ _ _ =>
        refine ⟨now, ?_, by simp⟩
        have hsettle : min abortSettle farFuture = abortSettle := by decide
        rwa [deadlineAfter, hsettle] at hdue

end Climb

end TokioActors.Executor
