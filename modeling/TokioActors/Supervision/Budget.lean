/-
# The restart budget is charged for failures

A turn of the worklist charges the restart budget exactly if the report it handles
is of a failure that is to be charged: one the strategy restarts its child for, or
one of the chain's own front. An end is charged at most once, and never when it is
exempt or nothing ended at all. The budget answers each charge like a counter over
the charges it granted before.
-/

import TokioActors.Supervision.Origins
import TokioActors.Supervision.Window

namespace TokioActors

open SupervisionState Machine Registry

variable {rules : Rules} {c d : Config} {ev : Report} {work : List Report} {id : ActorId}
  {n : Token}

def chargesOf (id : ActorId) (n : Token) (log : List Obs) : Nat :=
  (charges log).countP fun charge => decide (charge.id = id ∧ charge.token = n)

def grantedTimes (charges : List Charge) : List Nat :=
  (charges.filter Charge.granted).map Charge.time

/-- Every charge is granted exactly if fewer than the maximum of the charges before
it were granted in the window that ends with it. -/
def Answered (maxRestarts restartWindow : Nat) : List Charge → Prop
  | [] => True
  | charge :: earlier =>
    (charge.granted = true ↔ RestartBudget.inWindow restartWindow charge.time
      (grantedTimes earlier) < maxRestarts) ∧ Answered maxRestarts restartWindow earlier

theorem Uncharged.chargesOf {sup next : SupervisionState} (hsame : Uncharged sup next) :
    chargesOf id n next.log = chargesOf id n sup.log := by
  unfold TokioActors.chargesOf
  rw [hsame.2]

theorem ChargedFor.chargesOf {sup next : SupervisionState} (hcharged : ChargedFor sup ev next) :
    chargesOf id n next.log =
      chargesOf id n sup.log + if ev.childId = id ∧ ev.incarnation = n then 1 else 0 := by
  unfold TokioActors.chargesOf
  rw [hcharged.2, List.countP_cons]
  simp only [decide_eq_true_eq]

/-! ## The books -/

/-- The budget and the record agree. -/
structure Billed (maxRestarts restartWindow : Nat) (c : Config) : Prop where
  once : ∀ id n, chargesOf id n c.sup.log ≤ 1
  charged : ∀ id n, 0 < chargesOf id n c.sup.log →
    n < c.sup.nextIncarnation ∧ ¬ c.sup.Open id n ∧ Obs.taken id n ∈ c.sup.log
  maximum : c.sup.budget.maxRestarts = maxRestarts
  window : c.sup.budget.restartWindow = restartWindow
  remembers : ∃ latest ≤ c.sup.now, RestartBudget.Remembers restartWindow latest
    c.sup.budget.timestamps (grantedTimes (charges c.sup.log))
  answered : Answered maxRestarts restartWindow (charges c.sup.log)

theorem drawn_of_open (hsound : Sound c) (hopen : c.sup.Open id n) :
    n < c.sup.nextIncarnation := by
  obtain ⟨life, hlife, hclass⟩ := hopen
  rw [← heldToken_of_open hclass]
  exact hsound.fresh id life hlife

variable {maxRestarts restartWindow : Nat} {sup seen : SupervisionState} {s t : Sys} {child : Child}
  {kind asked : ManualStop} {reason : StopReason}

theorem Billed.uncharged (hbilled : Billed maxRestarts restartWindow c) (hopen : c.sup.Open id n) :
    chargesOf id n c.sup.log = 0 := by
  by_contra hpos
  exact (hbilled.charged id n (Nat.pos_of_ne_zero hpos)).2.1 hopen

theorem Move.billed (hmove : Move rules c d) (hsound : Sound c)
    (hbilled : Billed maxRestarts restartWindow c) : Billed maxRestarts restartWindow d := by
  have hold {id : ActorId} {n : Token} (hpos : 0 < chargesOf id n c.sup.log) :
      n < d.sup.nextIncarnation ∧ ¬ d.sup.Open id n ∧ Obs.taken id n ∈ d.sup.log := by
    obtain ⟨hdrawn, hclosed, htaken⟩ := hbilled.charged id n hpos
    obtain ⟨hafter, hstays⟩ := hmove.closed_stays ⟨hdrawn, hclosed⟩
    exact ⟨hafter, hstays, hmove.grows.1.subset htaken⟩
  obtain ⟨latest, hpast, hremembers⟩ := hbilled.remembers
  cases hmove.decision with
  | none hsame hlater =>
    refine ⟨fun id n => ?_, fun id n hpos => ?_, ?_, ?_, ⟨latest, hpast.trans hlater, ?_⟩, ?_⟩
    · rw [hsame.chargesOf]
      exact hbilled.once id n
    · rw [hsame.chargesOf] at hpos
      exact hold hpos
    · rw [hsame.1, hbilled.maximum]
    · rw [hsame.1, hbilled.window]
    · rw [hsame.1, hsame.2]
      exact hremembers
    · rw [hsame.2]
      exact hbilled.answered
  | charges ev _ hbefore hafter htaken hcharged hnow =>
    obtain ⟨hanswer, hmaximum, hwindow, hrecalls⟩ := hremembers.call hbilled.window hpast
    refine ⟨fun id n => ?_, fun id n hpos => ?_, ?_, ?_, ⟨c.sup.now, hnow.ge, ?_⟩, ?_⟩
    · rw [hcharged.chargesOf]
      split
      next hown =>
        obtain ⟨rfl, rfl⟩ := hown
        rw [hbilled.uncharged hbefore]
      · exact hbilled.once id n
    · rw [hcharged.chargesOf] at hpos
      split at hpos
      next hown =>
        obtain ⟨rfl, rfl⟩ := hown
        exact ⟨Nat.lt_of_lt_of_le (drawn_of_open hsound hbefore) hmove.grows.2, hafter,
          hmove.grows.1.subset (htaken hsound)⟩
      · exact hold hpos
    · rw [hcharged.1, hmaximum, hbilled.maximum]
    · rw [hcharged.1, hwindow]
    · rw [hcharged.1, hcharged.2]
      cases hgranted : (c.sup.budget.checkAndRecord c.sup.now).2 with
      | true | false =>
        rw [hgranted] at hrecalls
        exact hrecalls
    · rw [hcharged.2]
      rw [hbilled.maximum] at hanswer
      exact ⟨hanswer, hbilled.answered⟩

theorem Moves.chargesOf_of_closed (hmoves : Moves rules c d)
    (hclosed : n < c.sup.nextIncarnation ∧ ¬ c.sup.Open id n) :
    chargesOf id n d.sup.log = chargesOf id n c.sup.log := by
  induction hmoves with
  | refl => rfl
  | tail hbefore hlast ih =>
    rw [← ih]
    cases hlast.decision with
    | none hsame => exact hsame.chargesOf
    | charges ev _ hopen _ _ hcharged =>
      rw [hcharged.chargesOf, if_neg, Nat.add_zero]
      rintro ⟨rfl, rfl⟩
      exact (Moves.closed_stays hbefore hclosed).2 hopen

/-! ## A turn of the worklist -/

/-- A failure that is to be charged is open, and no manual stop is in progress. -/
theorem SupervisionState.ChargeDue.open (hdue : sup.ChargeDue ev) :
    ∃ life, sup.registry.life ev.childId = some life ∧ reportClass life ev.incarnation ≠ .stale ∧
      ∀ kind, life ≠ .stopping ev.incarnation kind := by
  rcases hdue with ⟨_, p, _, _, _, hlife⟩ | ⟨_, child, hget, _, hends⟩
  · exact ⟨_, hlife, by simp [reportClass], by simp⟩
  · refine ⟨_, life_of_get hget, ?_⟩
    rcases hends with h | h | ⟨p, h, _⟩ <;> simp [h, reportClass]

/-- The member at the front of the chain is one the group restarts. -/
theorem not_unplanned_of_failedFront (hfailed : sup.FailedFront id n) : ¬ sup.Unplanned id := by
  obtain ⟨chain, p, hpending, hhead, _, hlife⟩ := hfailed
  intro hunplanned
  exact (unplanned_iff.mp hunplanned _ _ hpending hlife).2 rfl (List.mem_of_head? hhead)

/-- A turn on a failure that is to be charged decides it. -/
theorem TurnCase.judged_of_due (hcase : TurnCase c ev work d) (hdue : c.sup.ChargeDue ev) :
    ∃ seen, (seen = c.sup ∨ seen = c.sup.noteSubtree ev.childId) ∧
      Judged (c.withSup seen) ev work d := by
  obtain ⟨life, hlife, hclass, hunstopped⟩ := hdue.open
  cases hcase with
  | judged _ seen hsame hjudged => exact ⟨seen, hsame, hjudged⟩
  | classified kind hstopping =>
    rw [hstopping] at hlife
    cases hlife
    exact absurd rfl (hunstopped kind)
  | left hwaits =>
    obtain ⟨hpending, hunplanned, _⟩ := hwaits ⟨life, hlife, hclass⟩
    rcases hdue with hfailed | ⟨hidle, _⟩
    · exact absurd hunplanned (not_unplanned_of_failedFront hfailed)
    · exact absurd hidle hpending

theorem chargeDue_seen (hsame : seen = sup ∨ seen = sup.noteSubtree ev.childId) :
    seen.ChargeDue ev ↔ sup.ChargeDue ev := by
  rcases hsame with rfl | rfl
  · rfl
  · exact chargeDue_noteSubtree

theorem Judged.bill (hsame : seen = c.sup ∨ seen = c.sup.noteSubtree ev.childId)
    (hjudged : Judged (c.withSup seen) ev work d) :
    ¬ c.sup.ChargeDue ev ∧ Uncharged c.sup d.sup ∨ c.sup.ChargeDue ev ∧
      ChargedFor c.sup ev d.sup := by
  obtain ⟨event, budget, obs, _, hjudgement, hmoves⟩ := hjudged.decided
  have hafter := (hmoves ⟨False, False, True, False⟩).uncharged trivial
  have hbill := hjudgement.bill
  rw [show (c.withSup seen).sup.ChargeDue ev ↔ _ from chargeDue_seen hsame] at hbill
  refine hbill.imp ?_ ?_ <;> rintro ⟨hdecided, hbudget, hcharges⟩ <;>
    refine ⟨hdecided, ?_, ?_⟩ <;> rcases hsame with rfl | rfl
  all_goals first | exact hafter.1.trans hbudget | exact hafter.2.trans hcharges

/-- A turn charges the end of its report if that is due, and else nothing. -/
theorem TurnCase.bill (hcase : TurnCase c ev work d) :
    ¬ c.sup.ChargeDue ev ∧ Uncharged c.sup d.sup ∨ c.sup.ChargeDue ev ∧
      ChargedFor c.sup ev d.sup := by
  by_cases hdue : c.sup.ChargeDue ev
  · obtain ⟨seen, hsame, hjudged⟩ := hcase.judged_of_due hdue
    exact hjudged.bill hsame
  · cases hcase with
    | judged _ seen hsame hjudged => exact hjudged.bill hsame
    | classified _ _ _ hmoves =>
      exact .inl ⟨hdue, (hmoves ⟨False, False, True, False⟩).uncharged trivial⟩
    | left _ _ hmoves =>
      exact .inl ⟨hdue, (hmoves ⟨False, False, True, False⟩ False.elim).uncharged trivial⟩

theorem Sys.turn_case {action : Action} (hsound : Sound s.config)
    (hturn : s.turnOf action = some ev) (hstep : s.step action = some t) :
    ∃ work, TurnCase s.config ev work t.config := by
  unfold Sys.turnOf at hturn
  split at hturn
  next drop first work hphase =>
    cases hturn
    simp only [Sys.step, Sys.loopStep, hphase] at hstep
    cases hstep
    refine ⟨work, ?_⟩
    rw [config_proceed (by rw [hphase]; rfl)]
    exact turn_handleReport (turn_of_phase hsound hphase)
  · cases hturn

/-! ## Ends that are exempt -/

theorem not_open_classified (hdrawn : n < sup.nextIncarnation)
    (hget : sup.registry.get id = some child) (hheld : child.lifecycle.heldToken = n)
    (hcalm : kind = .bounce → reason.isFailure = false) :
    ¬ (sup.classifyManualCompletion id n kind reason).Open id n := by
  have hdown {pending : DownPending} : (sup.transition id (.down n pending)).registry.life id =
      some (.down n pending) := life_transition_down (life_of_get hget) hheld
  unfold classifyManualCompletion
  rw [hget]
  dsimp only
  rcases @classifyManual_cases kind reason child.restartType sup.pool (sup.inRestartSet id)
    with ⟨hkind, hfailed, _⟩ | hmember | hstays | ⟨_, _, hrebound⟩
  · rw [hcalm hkind] at hfailed
    cases hfailed
  · rw [hmember]
    exact not_open_of_down hdown (by simp)
  · rw [hstays]
    cases sup.pool || child.restartType == .temporary with
    | false => exact not_open_of_down hdown (by simp)
    | true =>
      rintro ⟨life, hlife, _⟩
      change (sup.registry.remove id).life id = some life at hlife
      rw [life_remove, if_pos rfl] at hlife
      cases hlife
  · rw [hrebound]
    rintro ⟨life, hlife, hclass⟩
    have hbegun := @life_initiateRestart ((sup.transition id (.down n .snapshot)).keepSnapshot id n
      ⟨id, child.name, reason, .restartInitiated⟩) id n .snapshot .bounce hdown hdrawn
    cases hlife.symm.trans hbegun
    exact Nat.lt_irrefl n (hdrawn.trans_eq (heldToken_of_open hclass))

/-- A turn closes the end of a child that is being stopped, if the stop met no crash,
one that no pending group leaves waiting, and the failure of an attempt that a call
began. -/
theorem TurnCase.closes (hcase : TurnCase c ev work d) (hsound : Sound c)
    (hopen : c.sup.Open ev.childId ev.incarnation)
    (hcalm : ∀ kind, c.sup.registry.life ev.childId = some (.stopping ev.incarnation kind) →
      kind = .bounce → ev.reason.isFailure = false)
    (hheld : (∃ kind, c.sup.registry.life ev.childId = some (.stopping ev.incarnation kind)) ∨
      ¬ c.sup.Unplanned ev.childId ∨ c.sup.AskedFor ev.childId ev.incarnation) :
    ¬ d.sup.Open ev.childId ev.incarnation := by
  have hdrawn := drawn_of_open hsound hopen
  cases hcase with
  | judged _ seen hsame hjudged =>
    obtain ⟨event, budget, obs, _, _, hmoves⟩ := hjudged.decided
    obtain ⟨life, hlife, hclass⟩ := hopen
    refine ((hmoves Rules.free).closed_stays ?_).2
    rcases hsame with rfl | rfl
    · exact ⟨hdrawn, not_open_of_down
        (life_transition_down hlife (heldToken_of_open hclass)) (by simp)⟩
    · exact ⟨hdrawn, not_open_of_down (life_transition_down
        (life_noteSubtree.trans hlife) (heldToken_of_open hclass)) (by simp)⟩
  | classified kind hstopping hregistry =>
    obtain ⟨child, hget, hlife⟩ := exists_get_of_life hstopping
    unfold Open
    rw [hregistry]
    exact not_open_classified hdrawn hget (by rw [hlife]; rfl) (hcalm kind hstopping)
  | left hwaits hunstopped =>
    obtain ⟨_, hunplanned, hunasked⟩ := hwaits hopen
    rcases hheld with ⟨kind, h⟩ | h | h
    · exact absurd h (hunstopped kind)
    · exact absurd hunplanned h
    · exact absurd h hunasked

theorem registry_runEffects {policy : Shutdown} {raised : Bool} {effects : List CommitEffect}
    (heffects : ∀ effect ∈ effects, effect ≠ .classify ∧ effect ≠ .dismiss) :
    (runEffects id policy n kind sup raised effects).1.registry = sup.registry := by
  have hctl (sup : SupervisionState) (f : Slot → Slot) :
      (sup.updateCtl id f).registry = sup.registry := by
    unfold updateCtl
    split <;> rfl
  induction effects generalizing sup raised with
  | nil => rfl
  | cons effect rest ih =>
    have hrest (sup : SupervisionState) (raised : Bool) :
        (runEffects id policy n kind sup raised rest).1.registry = sup.registry :=
      ih fun effect hmem => heffects effect (List.mem_cons_of_mem _ hmem)
    have hfirst := heffects effect List.mem_cons_self
    cases effect with
    | classify => exact absurd rfl hfirst.1
    | dismiss => exact absurd rfl hfirst.2
    | raiseFirst | writeOrder | reask | reaskOnce => exact (hrest _ _).trans (hctl _ _)
    | recordOverride | leaveRestartOrder => exact hrest _ _
    | rewriteSnapshot =>
      refine (hrest _ _).trans ?_
      unfold rewriteRestartSnapshot
      split <;> rfl
    | join | answer => rfl

theorem registry_afterStop : (s.afterStop id asked kind).sup.registry = s.sup.registry := by
  unfold Sys.afterStop
  dsimp only
  split
  · split
    · split
      · split <;> rfl
      · rfl
    · split <;> rfl
  · split <;> rfl

def ManualStop.call (asked : ManualStop) (id : ActorId) : CallAction :=
  match asked with
  | .bounce => .stopChild id
  | .terminate => .terminateChild id

/-- What makes the end of an incarnation exempt from being charged, in the step of a
run that settles it. -/
inductive Exempts (strategy : RestartStrategy) (maxRestarts restartWindow : Nat) (s : Sys)
    (action : Action) (id : ActorId) (n : Token) : Prop
  /-- The loop reads the end of a child that is being stopped, and the stop met no
  crash. -/
  | stopRead (ev : Report) (turn : s.turnOf action = some ev) (own : ev.key = (id, n))
      (kind : ManualStop) (stopping : s.sup.registry.life id = some (.stopping n kind))
      (calm : kind = .bounce → ev.reason.isFailure = false)
  /-- The call that stops the child reads its end. -/
  | stopJoined (built : Bool) (asked acts kind : ManualStop) (reason : StopReason)
      (resumes : action = .call (.resume built))
      (waits : s.call = some (.joining id n asked acts))
      (ended : awaitCell (s.sup.slots n) = some (.fate reason))
      (stops : s.sup.registry.life id = some (.stopping n kind) ∨
        s.sup.registry.life id = some (.running n) ∧ kind = acts)
      (calm : kind = .bounce → reason.isFailure = false)
  /-- A call stops a child that it finds ended. -/
  | stopLate (asked : ManualStop) (child : Child) (calls : action = .call (asked.call id))
      (accepted : s.sup.finalDelivery = false) (alone : s.sup.groupMembership id = .none)
      (entry : s.sup.registry.get id = some child) (running : child.lifecycle = .running n)
      (ended : (s.sup.slots child.ctl).taskState = .ended)
      (calm : effectiveKind asked (s.sup.manualFacts id) = .bounce →
        stopRoute (s.sup.manualFacts id) = .bounce ∧
          (s.sup.slots child.ctl).endReason.isFailure = false)
  /-- The pending group waits for the child or restarts it, and the end is not the
  failure of the attempt the chain made for its front. -/
  | member (ev : Report) (turn : s.turnOf action = some ev) (own : ev.key = (id, n))
      (opens : s.sup.Open id n)
      (unstopped : ∀ kind, s.sup.registry.life id ≠ some (.stopping n kind))
      (planned : ¬ s.sup.Unplanned id) (foreign : ¬ s.sup.FailedFront id n)
  /-- A group restart that is decided covers the child, which owes the decision. -/
  | absorbed (ev : Report) (turn : s.turnOf action = some ev) (absorbs : s.sup.Absorbs ev id n)
  /-- The attempt that a `restart_child` earlier in the run began fails. -/
  | manualRestart (before after : Sys) (p : Token)
      (run : Sys.Reaches always strategy maxRestarts restartWindow before)
      (asks : before.step (.call (.restartChild id)) = some after)
      (draws : before.sup.nextIncarnation = n)
      (begins : after.sup.registry.life id = some (.restarting p n))
      (onward : Reaches Sys.step always after s)
      (ev : Report) (turn : s.turnOf action = some ev) (own : ev.key = (id, n))
      (attempt : s.sup.registry.life id = some (.restarting p n))
  /-- A call that terminates its child dismisses the decision the end owes. -/
  | dismissed (asked : ManualStop) (calls : action = .call (asked.call id))
      (accepted : s.sup.finalDelivery = false)
      (acts : effectiveKind asked (s.sup.manualFacts id) = .terminate)
      (free : s.sup.groupMembership id = .none ∨ s.sup.groupMembership id = .queued)
      (owes : s.sup.registry.life id = some (.down n .evaluate))

theorem registry_call (hstep : s.step (.call (asked.call id)) = some t)
    (hcalls : s.sup.finalDelivery = false) :
    t.sup.registry = (s.sup.manualStopDecided id asked).1.1.registry := by
  have hstops : t = s.manualStop id asked := by
    simp only [Sys.step, Sys.callStep] at hstep
    split at hstep
    · cases hcall : s.call <;> cases asked <;> rw [hcall] at hstep <;> cases hstep <;> rfl
    · cases hstep
  rw [hstops]
  unfold Sys.manualStop
  rw [if_neg (by rw [hcalls]; simp)]
  dsimp only
  split
  · exact registry_afterStop
  · rfl
  · rfl

theorem recordIf_effects {facts : ManualFacts} {kept : Bool} :
    ∀ effect ∈ recordIf facts kept ++ [.answer .ok],
      effect ≠ CommitEffect.classify ∧ effect ≠ .dismiss := by
  intro effect hmem
  unfold recordIf at hmem
  split at hmem <;> simp at hmem
  · rcases hmem with rfl | rfl <;> simp
  · subst hmem
    simp

theorem not_open_stopLate (hdrawn : n < sup.nextIncarnation)
    (hget : sup.registry.get id = some child) (hrunning : child.lifecycle = .running n)
    (halone : sup.groupMembership id = .none) (hended : (sup.slots child.ctl).taskState = .ended)
    (hcalm : effectiveKind asked (sup.manualFacts id) = .bounce →
      stopRoute (sup.manualFacts id) = .bounce ∧
        (sup.slots child.ctl).endReason.isFailure = false) :
    ¬ (sup.manualStopDecided id asked).1.1.Open id n := by
  obtain ⟨hlife, hmember, _, htask⟩ := manualFacts_of_get hget
  have hentry := (life_of_get hget).trans (congrArg some hrunning)
  rw [hrunning] at hlife
  rw [halone] at hmember
  rw [hended] at htask
  have hcommit : ∃ rest, manualCommit asked (sup.manualFacts id) = ⟨none, .classify :: rest⟩ ∧
      ∀ effect ∈ rest, effect ≠ .classify ∧ effect ≠ .dismiss := by
    cases hacts : effectiveKind asked (sup.manualFacts id) with
    | terminate =>
      rw [manualCommit_terminate hlife hacts]
      refine ⟨_, ?_, @recordIf_effects (sup.manualFacts id) (!(sup.manualFacts id).prunable)⟩
      simp [terminateCommit, ChildLifecycle.isRestarting, hmember, htask]
    | bounce =>
      obtain ⟨hroute, _⟩ := hcalm hacts
      refine ⟨[.answer .ok], ?_, by simp⟩
      cases asked with
      | terminate => simp [effectiveKind] at hacts
      | bounce => simp [manualCommit, hlife, hroute, bounceCommit, htask]
  obtain ⟨rest, hcommit, hplain⟩ := hcommit
  have hreason : (sup.ctlSlot id).endReason = (sup.slots child.ctl).endReason := by
    rw [ctlSlot, hget]
  have hregistry : (sup.manualStopDecided id asked).1.1.registry =
      (sup.classifyManualCompletion id n (effectiveKind asked (sup.manualFacts id))
        (sup.slots child.ctl).endReason).registry := by
    unfold manualStopDecided
    dsimp only
    rw [hcommit, hlife, ← finishManualStop_running hentry, ← hreason]
    exact registry_runEffects hplain
  unfold Open
  rw [hregistry]
  refine not_open_classified hdrawn hget ?_ fun h => (hcalm h).2
  rw [hrunning]
  rfl

theorem not_open_dismissed (hacts : effectiveKind asked (sup.manualFacts id) = .terminate)
    (hfree : sup.groupMembership id = .none ∨ sup.groupMembership id = .queued)
    (howes : sup.registry.life id = some (.down n .evaluate)) :
    ¬ (sup.manualStopDecided id asked).1.1.Open id n := by
  obtain ⟨child, hget, hdown⟩ := exists_get_of_life howes
  obtain ⟨hlife, hmember, _⟩ := manualFacts_of_get hget
  rw [hdown] at hlife
  have hcommit : ∃ rest, manualCommit asked (sup.manualFacts id) = ⟨none, .dismiss :: rest⟩ ∧
      ∀ effect ∈ rest, effect ≠ .classify ∧ effect ≠ .dismiss := by
    rw [manualCommit_terminate hlife hacts]
    rcases hfree with h | h
    · refine ⟨_, ?_, @recordIf_effects (sup.manualFacts id) (!(sup.manualFacts id).prunable)⟩
      simp [terminateCommit, ChildLifecycle.isRestarting, hmember, h]
    · refine ⟨[.recordOverride, .leaveRestartOrder, .answer .ok], ?_, by simp⟩
      simp [terminateCommit, ChildLifecycle.isRestarting, hmember, h]
  obtain ⟨rest, hcommit, hplain⟩ := hcommit
  have hregistry : (sup.manualStopDecided id asked).1.1.registry =
      (sup.dismissOwedEvaluation id).registry := by
    unfold manualStopDecided
    dsimp only
    rw [hcommit]
    exact registry_runEffects hplain
  unfold Open
  rw [hregistry]
  rcases (@moves_dismissOwedEvaluation Rules.free { sup := sup } id _ _
    (by simp [Rules.free]) hget hdown).2 with ⟨_, hgone⟩ | ⟨_, hleft⟩
  · rintro ⟨life, hlife, _⟩
    rw [life_eq_none_iff.mpr hgone] at hlife
    cases hlife
  · exact not_open_of_down (hleft.life howes rfl) (by simp)

theorem not_open_stopJoined {built : Bool} {acts : ManualStop} (hdrawn : n < s.sup.nextIncarnation)
    (hstep : s.step (.call (.resume built)) = some t)
    (hwaits : s.call = some (.joining id n asked acts))
    (hended : awaitCell (s.sup.slots n) = some (.fate reason))
    (hstops : s.sup.registry.life id = some (.stopping n kind) ∨
      s.sup.registry.life id = some (.running n) ∧ kind = acts)
    (hcalm : kind = .bounce → reason.isFailure = false) : ¬ t.sup.Open id n := by
  have hregistry : t.sup.registry = (s.sup.finishManualStop id n acts reason).registry := by
    simp only [Sys.step, Sys.callStep, hwaits, Sys.resumeCall, hended] at hstep
    split at hstep
    · cases hstep
      exact registry_afterStop
    · cases hstep
  have hfinish : s.sup.finishManualStop id n acts reason =
      s.sup.classifyManualCompletion id n kind reason := by
    unfold finishManualStop
    rcases hstops with h | ⟨h, rfl⟩ <;> rw [h] <;> simp
  obtain ⟨child, hget, hheld⟩ : ∃ child, s.sup.registry.get id = some child ∧
      child.lifecycle.heldToken = n := by
    rcases hstops with h | ⟨h, _⟩ <;> obtain ⟨child, hget, hlife⟩ := exists_get_of_life h <;>
      exact ⟨child, hget, by rw [hlife]; rfl⟩
  unfold Open
  rw [hregistry, hfinish]
  exact not_open_classified hdrawn hget hheld hcalm

section Runs

variable {s t : Sys} {strategy : RestartStrategy} {action : Action}

/-- An attempt that a `restart_child` of the run began is one the ledger says a call
asked for, and no chain's. -/
theorem askedFor_of_restartChild {before after : Sys} {p : Token}
    (hreach : Sys.Reaches always strategy maxRestarts restartWindow before)
    (hasks : before.step (.call (.restartChild id)) = some after)
    (hbegins : after.sup.registry.life id = some (.restarting p before.sup.nextIncarnation))
    (honward : Reaches Sys.step always after s)
    (hattempt : s.sup.registry.life id = some (.restarting p before.sup.nextIncarnation)) :
    s.sup.AskedFor id before.sup.nextIncarnation ∧
      ¬ s.sup.FailedFront id before.sup.nextIncarnation := by
  have hafter : Sys.Reaches always strategy maxRestarts restartWindow after :=
    .tail hreach trivial hasks
  obtain ⟨hcall, hnone⟩ := (hafter.free.onward (honward.mono fun _ _ _ => Rules.free_allows)).byCall
    (hafter.free.moves.2.fresh id _ hbegins)
    (restartChild_begins hreach.free.moves.2 (hreach.unstarted _ (Nat.le_refl _)) hasks)
  constructor
  · obtain ⟨child, hget, hlife⟩ := exists_get_of_life hattempt
    exact ⟨child, p, hget, hlife, hcall child p hget hlife⟩
  · rintro ⟨chain, _, hpending, _, hstarted, _⟩
    exact hnone chain hpending hstarted

/-- An exempt end is open before the step and closed after it, and no failure that is
to be charged. -/
theorem Exempts.closes
    (hexempts : Exempts strategy maxRestarts restartWindow s action id n)
    (hsound : Sound s.config) (hstep : s.step action = some t) :
    s.sup.Open id n ∧ ¬ t.sup.Open id n ∧
      ∀ ev, s.turnOf action = some ev → s.sup.ChargeDue ev → ev.key ≠ (id, n) := by
  have hturns {ev : Report} (hturn : s.turnOf action = some ev)
      (hundue : ev.key = (id, n) → ¬ s.sup.ChargeDue ev) :
      ∀ other, s.turnOf action = some other → s.sup.ChargeDue other → other.key ≠ (id, n) := by
    intro other hother hdue hown
    rw [hturn] at hother
    cases hother
    exact hundue hown hdue
  cases hexempts with
  | stopRead ev hturn hown kind hstopping hcalm =>
    obtain ⟨rfl, rfl⟩ := Prod.mk.inj hown
    have hopen : s.sup.Open ev.childId ev.incarnation := ⟨_, hstopping, by simp [reportClass]⟩
    obtain ⟨work, hcase⟩ := Sys.turn_case hsound hturn hstep
    refine ⟨hopen, hcase.closes hsound hopen (fun other hother => ?_) (.inl ⟨kind, hstopping⟩),
      hturns hturn fun _ hdue => ?_⟩
    · cases hstopping.symm.trans hother
      exact hcalm
    · obtain ⟨life, hlife, _, hunstopped⟩ := hdue.open
      cases hstopping.symm.trans hlife
      exact hunstopped kind rfl
  | stopJoined built asked acts kind reason hresumes hwaits hended hstops hcalm =>
    subst hresumes
    have hopen : s.sup.Open id n := by
      rcases hstops with h | ⟨h, _⟩ <;> exact ⟨_, h, by simp [reportClass]⟩
    exact ⟨hopen, not_open_stopJoined (drawn_of_open hsound hopen) hstep hwaits hended hstops hcalm,
      by simp [Sys.turnOf]⟩
  | stopLate asked child hcalls haccepted halone hget hrunning hended hcalm =>
    subst hcalls
    have hopen : s.sup.Open id n :=
      ⟨_, (life_of_get hget).trans (congrArg some hrunning), by simp [reportClass]⟩
    refine ⟨hopen, ?_, by simp [Sys.turnOf]⟩
    unfold Open
    rw [registry_call hstep haccepted]
    exact not_open_stopLate (drawn_of_open hsound hopen) hget hrunning halone hended hcalm
  | member ev hturn hown hopen hunstopped hplanned hforeign =>
    obtain ⟨rfl, rfl⟩ := Prod.mk.inj hown
    obtain ⟨work, hcase⟩ := Sys.turn_case hsound hturn hstep
    refine ⟨hopen, hcase.closes hsound hopen (fun kind h => absurd h (hunstopped kind))
      (.inr (.inl hplanned)), hturns hturn fun _ hdue => ?_⟩
    rcases hdue with hfailed | ⟨hidle, _⟩
    · exact hforeign hfailed
    · exact hplanned (by simp [Unplanned, groupMembership, hidle])
  | absorbed ev hturn habsorbs =>
    obtain ⟨hdue, hgranted, hone, hsimple, hne, hcovered, howes⟩ := habsorbs
    obtain ⟨work, hcase⟩ := Sys.turn_case hsound hturn hstep
    obtain ⟨seen, hsame, hjudged⟩ := hcase.judged_of_due hdue
    refine ⟨⟨_, howes, by simp [reportClass]⟩, hjudged.absorbs id n ?_, hturns hturn fun hown => ?_⟩
    · refine ⟨(chargeDue_seen hsame).mpr hdue, ?_⟩
      rcases hsame with rfl | rfl
      · exact ⟨hgranted, hone, hsimple, hne, hcovered, howes⟩
      · refine ⟨hgranted, hone, hsimple, hne, ?_, life_noteSubtree.trans howes⟩
        change id ∈ commitIds s.sup.strategy (s.sup.registry.noteSubtree _ ev.childId).ids
          ev.childId
        rwa [ids_noteSubtree]
    · exact absurd (Prod.mk.inj hown).1.symm hne
  | manualRestart before after p hrun hasks hdraws hbegins honward ev hturn hown hattempt =>
    subst hdraws
    obtain ⟨hasked, hforeign⟩ := askedFor_of_restartChild hrun hasks hbegins honward hattempt
    have hopen : s.sup.Open id before.sup.nextIncarnation := ⟨_, hattempt, by simp [reportClass]⟩
    obtain ⟨work, hcase⟩ := Sys.turn_case hsound hturn hstep
    obtain ⟨rfl, hn⟩ := Prod.mk.inj hown
    rw [← hn] at hopen hasked hforeign hattempt hturns ⊢
    refine ⟨hopen, hcase.closes hsound hopen (fun kind h => ?_) (.inr (.inr hasked)),
      hturns hturn fun _ hdue => ?_⟩
    · cases hattempt.symm.trans h
    · rcases hdue with hfailed | ⟨_, child, hget, _, hends⟩
      · exact hforeign hfailed
      · obtain ⟨entry, _, hentry, hlife, hmanual⟩ := hasked
        cases hget.symm.trans hentry
        rcases hends with h | h | ⟨_, _, hother⟩
        · cases hlife.symm.trans h
        · cases hlife.symm.trans h
        · exact hother hmanual
  | dismissed asked hcalls haccepted hacts hfree howes =>
    subst hcalls
    refine ⟨⟨_, howes, by simp [reportClass]⟩, ?_, by simp [Sys.turnOf]⟩
    unfold Open
    rw [registry_call hstep haccepted]
    exact not_open_dismissed hacts hfree howes

/-! ## Over a run -/

theorem billed_init : Billed maxRestarts restartWindow
    (Sys.init strategy maxRestarts restartWindow).config where
  once := fun id n => Nat.zero_le 1
  charged := fun id n hpos => absurd hpos (Nat.lt_irrefl 0)
  maximum := rfl
  window := rfl
  remembers := ⟨0, Nat.le_refl 0, ⟨[], rfl, by simp⟩, .nil, by simp [Sys.init, Sys.config]⟩
  answered := trivial

theorem uncharged_of_no_turn (hfit : s.Fit Rules.free) (hsound : Sound s.config)
    (hstep : s.step action = some t) (hturn : s.turnOf action = none) : Uncharged s.sup t.sup :=
  (@simulate_step ⟨False, False, True, False⟩ s t action ⟨hfit.waits, hfit.fits, False.elim⟩ hsound
    ⟨False.elim, False.elim, fun _ => hturn, False.elim⟩ hstep).1.uncharged trivial

/-- **The restart budget is charged for failures, once each.** A step of any run charges
it exactly if it is a turn of the worklist on a failure the strategy restarts its child
for, or on the failed start of the chain's own front: it is asked once, for the one end,
whatever the size of the group that is restarted. Every other step leaves it as it is.
What is exempt when a step settles it is never charged, in whatever run follows. No end
is charged twice and no cancelled attempt at all, and the budget answers each charge as
a counter over the charges it granted. -/
theorem budget_charged_exactly
    (hreach : Sys.Reaches always strategy maxRestarts restartWindow s) :
    (∀ action t, s.step action = some t →
      (∀ ev, s.turnOf action = some ev → s.sup.ChargeDue ev → ChargedFor s.sup ev t.sup) ∧
      ((∀ ev, s.turnOf action = some ev → ¬ s.sup.ChargeDue ev) → Uncharged s.sup t.sup) ∧
      ∀ id n, Exempts strategy maxRestarts restartWindow s action id n →
        ∀ u, Reaches Sys.step always t u → chargesOf id n u.sup.log = 0) ∧
    (∀ id n, chargesOf id n s.sup.log ≤ 1) ∧
    (∀ id n, Obs.cancelled id n ∈ s.sup.log → chargesOf id n s.sup.log = 0) ∧
    Answered maxRestarts restartWindow (charges s.sup.log) := by
  obtain ⟨_, hfit, hsound⟩ := hreach.free.simulated
  have hbilled : Billed maxRestarts restartWindow s.config :=
    hreach.free.books billed_init fun c d hsound hbilled hmove => hmove.billed hsound hbilled
  refine ⟨fun action t hstep => ?_, hbilled.once, fun id n hcancelled => ?_, hbilled.answered⟩
  · have hcharged {ev : Report} (hturn : s.turnOf action = some ev)
        (hdue : s.sup.ChargeDue ev) : ChargedFor s.sup ev t.sup := by
      obtain ⟨work, hcase⟩ := Sys.turn_case hsound hturn hstep
      exact (hcase.bill.resolve_left fun h => h.1 hdue).2
    have huncharged (hundue : ∀ ev, s.turnOf action = some ev → ¬ s.sup.ChargeDue ev) :
        Uncharged s.sup t.sup := by
      cases hturn : s.turnOf action with
      | none => exact uncharged_of_no_turn hfit hsound hstep hturn
      | some ev =>
        obtain ⟨work, hcase⟩ := Sys.turn_case hsound hturn hstep
        exact (hcase.bill.resolve_right fun h => hundue ev hturn h.1).2
    refine ⟨fun ev => hcharged, huncharged, fun id n hexempts u honward => ?_⟩
    obtain ⟨hopen, hclosed, hother⟩ := hexempts.closes hsound hstep
    have hnext : Sys.Reaches always strategy maxRestarts restartWindow t :=
      .tail hreach trivial hstep
    have hdrawn := Nat.lt_of_lt_of_le (drawn_of_open hsound hopen)
      (simulate_step hfit hsound Rules.free_allows hstep).1.grows.2
    have honce := (hnext.free.onward (honward.mono
        fun _ _ _ => Rules.free_allows)).chargesOf_of_closed
      ⟨hdrawn, hclosed⟩
    refine honce.trans (Eq.trans ?_ (hbilled.uncharged hopen))
    by_cases hdue : ∃ ev, s.turnOf action = some ev ∧ s.sup.ChargeDue ev
    · obtain ⟨ev, hturn, hdue⟩ := hdue
      have hcount := @ChargedFor.chargesOf ev id n _ _ (hcharged hturn hdue)
      rwa [if_neg fun h => hother ev hturn hdue (Prod.ext h.1 h.2), Nat.add_zero] at hcount
    · exact (huncharged fun ev hturn h => hdue ⟨ev, hturn, h⟩).chargesOf
  · by_contra hpos
    exact hsound.not_taken_of_cancelled hcancelled
      (hbilled.charged id n (Nat.pos_of_ne_zero hpos)).2.2

end Runs

set_option maxRecDepth 10000 in
def crashTaken : Sys :=
  (run Sys.step (Sys.init .oneForOne 3 1000) endDelivered.dropLast).get (by decide +kernel)

set_option maxRecDepth 10000 in
def childTerminated : Sys :=
  (run Sys.step (Sys.init .oneForOne 3 1000)
    ([spawned 1 "a", .call (.terminateChild 1)] ++ incarnationEnds 1 .graceful ++
      [.call (.resume true)])).get (by decide +kernel)

set_option maxRecDepth 10000 in
def restartAsked : Sys := (childTerminated.step (.call (.restartChild 1))).get (by decide +kernel)

set_option maxRecDepth 10000 in
/-- The factory of the attempt fails, and the loop takes the report. -/
def attemptTaken : Sys :=
  (run Sys.step restartAsked
    [.loop (.return none), .env (.attemptProceeds 2), .env (.attemptChecked 2),
      .env (.attemptUnbuilt 2 (.user "no")), .loop (.pollRestart 2)]).get (by decide +kernel)

set_option maxRecDepth 10000 in
theorem budget_charged_exactly_oneCrash :
    (∃ t, Sys.Reaches always .oneForOne 3 1000 crashTaken ∧
      crashTaken.step (.loop (.work none)) = some t ∧
      ChargedFor crashTaken.sup ⟨1, crash, 1⟩ t.sup) ∧
    ∃ t, Sys.Reaches always .oneForOne 3 1000 attemptTaken ∧
      attemptTaken.step (.loop (.work none)) = some t ∧
      Exempts .oneForOne 3 1000 attemptTaken (.loop (.work none)) 1 2 ∧
      chargesOf 1 2 t.sup.log = 0 := by
  constructor
  · have hreach : Sys.Reaches always .oneForOne 3 1000 crashTaken := reaches_get _
    have hstep := (Option.some_get (show (crashTaken.step (.loop (.work none))).isSome from
      by decide +kernel)).symm
    exact ⟨_, hreach, hstep, ((budget_charged_exactly hreach).1 _ _ hstep).1 _
      (by decide +kernel) (.inr ⟨by decide +kernel,
        ⟨1, some "a", .permanent, .timeout 5, .running 1, .initial, some 1⟩, by decide +kernel,
        by decide, .inl rfl⟩)⟩
  · have hbefore : Sys.Reaches always .oneForOne 3 1000 childTerminated :=
      reaches_get _
    have hasks : childTerminated.step (.call (.restartChild 1)) = some restartAsked :=
      (Option.some_get _).symm
    have honward : Reaches Sys.step always restartAsked attemptTaken :=
      reaches_get _
    have hreach : Sys.Reaches always .oneForOne 3 1000 attemptTaken :=
      Reaches.trans (.tail hbefore trivial hasks) honward
    have hstep := (Option.some_get (show (attemptTaken.step (.loop (.work none))).isSome from
      by decide +kernel)).symm
    have hexempts : Exempts .oneForOne 3 1000 attemptTaken (.loop (.work none)) 1 2 :=
      .manualRestart _ _ 1 hbefore hasks (by decide +kernel) (by decide +kernel) honward
        ⟨1, .failure (.user "no"), 2⟩ (by decide +kernel) rfl (by decide +kernel)
    exact ⟨_, hreach, hstep, hexempts,
      ((budget_charged_exactly hreach).1 _ _ hstep).2.2 1 2 hexempts _ .refl⟩

end TokioActors
