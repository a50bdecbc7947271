/-
# How ends are decided

The end of an incarnation is open while its ledger entry waits for it or owes its
decision. A move that charges the restart budget for an end finds it open and
closes it, and no closed end opens again.
-/

import TokioActors.Supervision.Soundness

namespace TokioActors

open SupervisionState

variable {rules : Rules} {c d : Config} {id : ActorId} {n : Token}

/-- Only the end of an incarnation that is begun opens. -/
theorem Move.open_of_open (hmove : Move rules c d) (hopen : d.sup.Open id n) :
    c.sup.Open id n ∨ n = c.sup.nextIncarnation ∧ n < d.sup.nextIncarnation := by
  obtain ⟨life, hlife, hclass⟩ := hopen
  have hheld := heldToken_of_open hclass
  cases @Move.entry rules c d id hmove with
  | same hsame => exact .inl ⟨life, by rw [← hsame, hlife], hclass⟩
  | removed hgone => rw [hgone] at hlife; cases hlife
  | spawned _ hdrawn hentry | begun _ _ _ _ _ hdrawn hentry =>
    rw [hentry] at hlife
    cases hlife
    have heq : c.sup.nextIncarnation = n := hheld
    subst heq
    exact .inr ⟨rfl, by rw [hdrawn]; exact Nat.lt_succ_self _⟩
  | committed m kind before hbefore hmoves hentry =>
    rw [hentry] at hlife
    cases hlife
    have heq : m = n := hheld
    subst heq
    refine .inl ⟨before, hbefore, ?_⟩
    rcases hmoves with rfl | ⟨rfl, _⟩ <;> simp [reportClass]
  | adopted p m hbefore hgone hentry =>
    rw [hentry] at hlife
    cases hlife
    have heq : m = n := hheld
    subst heq
    exact .inl ⟨_, hbefore, by simp [reportClass]⟩
  | downed m pending before hbefore hsame hdowning hopens hentry =>
    rw [hentry] at hlife
    cases hlife
    have heq : m = n := hheld
    subst heq
    have howes : pending = .evaluate := by
      by_contra hrests
      exact hclass (by simp [reportClass, hrests])
    exact .inl ⟨before, hbefore, hopens howes⟩

theorem not_open_of_down {sup : SupervisionState} {pending : DownPending}
    (hlife : sup.registry.life id = some (.down n pending)) (hrests : pending ≠ .evaluate) :
    ¬ sup.Open id n := by
  rintro ⟨life, hsame, hclass⟩
  rw [hlife] at hsame
  cases hsame
  exact hclass (by simp [reportClass, hrests])

theorem Move.closed_stays (hmove : Move rules c d)
    (hclosed : n < c.sup.nextIncarnation ∧ ¬ c.sup.Open id n) :
    n < d.sup.nextIncarnation ∧ ¬ d.sup.Open id n := by
  refine ⟨Nat.lt_of_lt_of_le hclosed.1 hmove.grows.2, fun hopen => ?_⟩
  rcases hmove.open_of_open hopen with hbefore | ⟨rfl, _⟩
  · exact hclosed.2 hbefore
  · exact Nat.lt_irrefl _ hclosed.1

theorem Moves.closed_stays (hmoves : Moves rules c d)
    (hclosed : n < c.sup.nextIncarnation ∧ ¬ c.sup.Open id n) :
    n < d.sup.nextIncarnation ∧ ¬ d.sup.Open id n := by
  induction hmoves with
  | refl => exact hclosed
  | tail _ hlast ih => exact hlast.closed_stays ih

/-! ## The moves that charge -/

structure Charge where
  id : ActorId
  token : Token
  time : Nat
  granted : Bool
  deriving DecidableEq, Repr

def Obs.charge : Obs → Option Charge
  | .charged id n time granted => some ⟨id, n, time, granted⟩
  | _ => none

def charges (log : List Obs) : List Charge := log.filterMap Obs.charge

/-- The restart budget is charged for the end of the report, at the present instant. -/
def ChargedFor (sup : SupervisionState) (ev : Report) (next : SupervisionState) : Prop :=
  next.budget = (sup.budget.checkAndRecord sup.now).1 ∧
    charges next.log = ⟨ev.childId, ev.incarnation, sup.now,
      (sup.budget.checkAndRecord sup.now).2⟩ :: charges sup.log

/-- The restart budget is as it was. -/
def Uncharged (sup next : SupervisionState) : Prop :=
  next.budget = sup.budget ∧ charges next.log = charges sup.log

/-- What a move does to the budget: nothing, or it charges one end that was open
and is closed now. -/
inductive Decision (rules : Rules) (c d : Config) : Prop
  | none (same : Uncharged c.sup d.sup) (later : c.sup.now ≤ d.sup.now)
  | charges (ev : Report) (loud : ¬ rules.still) (before : c.sup.Open ev.childId ev.incarnation)
      (after : ¬ d.sup.Open ev.childId ev.incarnation)
      (taken : Sound c → Obs.taken ev.childId ev.incarnation ∈ c.sup.log)
      (charged : ChargedFor c.sup ev d.sup) (now : d.sup.now = c.sup.now)

theorem charges_append_of {obs log : List Obs} (hobs : ∀ o ∈ obs, o.charge = none) :
    charges (obs ++ log) = charges log := by
  rw [charges, List.filterMap_append, List.filterMap_eq_nil_iff.mpr hobs]
  rfl

theorem obs_initiateRestart {sup : SupervisionState} {id : ActorId} {origin : Origin} :
    ∃ obs, (sup.initiateRestart id origin).log = obs ++ sup.log ∧
      ∀ o ∈ obs, ∃ life m, o = .began id life m origin := by
  rcases @initiateRestart_cases sup id origin with hsame | ⟨child, n, pending, _, _, _, hbegin⟩
  · rw [hsame]
    exact ⟨[], rfl, by simp⟩
  · rw [hbegin]
    unfold «begin»
    dsimp only
    split
    · exact ⟨[_], rfl, by simp⟩
    · exact ⟨[], rfl, by simp⟩

theorem uncharged_initiateRestart {sup : SupervisionState} {id : ActorId} {origin : Origin} :
    Uncharged sup (sup.initiateRestart id origin) := by
  obtain ⟨obs, hlog, hobs⟩ := @obs_initiateRestart sup id origin
  refine ⟨by rw [frame_initiateRestart], ?_⟩
  rw [hlog, charges_append_of]
  intro o ho
  obtain ⟨life, m, rfl⟩ := hobs o ho
  rfl

/-- A judgement charges its own end if that is due, and else nothing. -/
theorem Judgement.bill {sup : SupervisionState} {ev : Report} {budget : RestartBudget}
    {obs : List Obs} (hjudged : Judgement sup ev budget obs) :
    let next := { sup with budget := budget, log := obs ++ sup.log }
    ¬ sup.ChargeDue ev ∧ Uncharged sup next ∨ sup.ChargeDue ev ∧ ChargedFor sup ev next := by
  unfold ChargedFor
  cases hjudged with
  | spared hundue | removed hundue => exact .inl ⟨hundue, rfl, rfl⟩
  | exhausted hdue hanswer | restartOne hdue hanswer | restartGroup _ hdue hanswer
  | retried _ hdue hanswer => exact .inr ⟨hdue, rfl, by rw [hanswer]; rfl⟩

/-- Every move charges one end at most. -/
theorem Move.decision (hmove : Move rules c d) : Decision rules c d := by
  have hinitiated {sup : SupervisionState} {other : ActorId} {origin : Origin}
      (hsup : d.sup = sup.initiateRestart other origin) (hsame : Uncharged c.sup sup)
      (hnow : sup.now = c.sup.now) : Decision rules c d := by
    obtain ⟨hbudget, hcharges⟩ := @uncharged_initiateRestart sup other origin
    refine .none ⟨?_, ?_⟩ ?_ <;> rw [hsup]
    · exact hbudget.trans hsame.1
    · exact hcharges.trans hsame.2
    · rw [frame_initiateRestart]
      exact hnow.ge
  cases hmove with
  | plane hplane =>
    obtain ⟨_, _, _, _, _, obs, rfl, hobs⟩ := hplane.frame.same
    refine .none ⟨rfl, charges_append_of fun o ho => ?_⟩ (Nat.le_add_right _ _)
    have hplane := hobs o ho
    cases o <;> first | rfl | cases hplane
  | group hgroup =>
    obtain ⟨group, slots, obs, rfl, hobs⟩ := hgroup.frame
    refine .none ⟨rfl, charges_append_of fun o ho => ?_⟩ (Nat.le_refl _)
    have hgroup := hobs o ho
    cases o <;> first | rfl | cases hgroup
  | rebound | restart | «begin» | chainBegin => exact hinitiated rfl ⟨rfl, rfl⟩ rfl
  | cancel task =>
    rw [frame_recordCancelled]
    exact .none ⟨rfl, rfl⟩ (Nat.le_refl _)
  | close ev work event budget obs hlooping hunplanned hhead hopens hjudged hsubject hloud =>
    rcases hjudged.bill with ⟨_, hsame⟩ | ⟨_, hcharged⟩
    · exact .none hsame (Nat.le_refl _)
    · obtain ⟨life, hlife, hclass⟩ := hopens
      refine .charges ev hloud ⟨life, hlife, hclass⟩ ?_ (fun hsound => ?_) hcharged rfl
      · exact not_open_of_down (life_transition_down hlife (heldToken_of_open hclass)) (by simp)
      · refine hsound.taken ev.key (Config.mem_heldKeys.mpr (.inr (.inr (.inl ?_))))
        rw [hhead]
        exact List.mem_map_of_mem List.mem_cons_self
  | collect | discard | discardLost =>
    rw [frame_recordCollectedEnd]
    exact .none ⟨rfl, rfl⟩ (Nat.le_refl _)
  | _ => exact .none ⟨rfl, rfl⟩ (Nat.le_refl _)

theorem Moves.uncharged (hmoves : Moves rules c d) (hstill : rules.still) :
    Uncharged c.sup d.sup := by
  induction hmoves with
  | refl => exact ⟨rfl, rfl⟩
  | tail _ hlast ih =>
    cases hlast.decision with
    | none hsame => exact ⟨hsame.1.trans ih.1, hsame.2.trans ih.2⟩
    | charges _ hloud => exact absurd hstill hloud

end TokioActors
