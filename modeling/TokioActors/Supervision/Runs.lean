/-
# Runs of the machine

What the simulation gives for whole runs: the configuration of a reached state is
reached by moves, so an invariant of the moves holds of it.
-/

import TokioActors.Supervision.Simulation.Ending

namespace TokioActors

open SupervisionState Machine Sys

variable {rules : Rules} {s : Sys} {strategy : RestartStrategy} {maxRestarts restartWindow : Nat}

theorem sound_init : Sound (init strategy maxRestarts restartWindow).config where
  nodup := List.nodup_nil
  fresh := fun id life hlife => by cases hlife
  once := fun n => by simp [Config.accounts, logTally, init, config]
  unbegun := fun n _ => by simp [Config.accounts, logTally, init, config]
  worked := fun n => by
    simp [Config.accounts, Config.tasks, logTally, init, config, deathKeys, restartKeys]
  handled := fun n => by
    simp [Config.accounts, Config.held, logTally, init, config, Phase.reports, Phase.out]
  taken := fun key hkey => by
    simp [Config.heldKeys, init, config, Phase.reports, Phase.out] at hkey
  subjects := fun id n event hfound => by
    simp [init, config] at hfound
  restarting := fun id n hkey => by
    simp [restartKeys, init, config] at hkey

/-- The configuration of a reached state is reached by moves, and what waits and
what is booked fits. -/
theorem Sys.Reaches.simulated
    (hreach : Reaches rules.Allows strategy maxRestarts restartWindow s) :
    Moves rules (init strategy maxRestarts restartWindow).config s.config ∧
      s.Fit rules ∧ Sound s.config := by
  refine @Machine.Reaches.simulation Sys Action step rules.Allows _ s Config
    config (Move rules) (fun s => s.Fit rules ∧ Sound s.config) ⟨.idle rfl, sound_init⟩ ?_ hreach
  intro state label next hfit hallows hstep
  obtain ⟨hmoves, hnext⟩ := simulate_step hfit.1 hfit.2 hallows hstep
  exact ⟨hmoves, hnext, hmoves.sound hfit.2⟩

theorem Sys.Reaches.moves (hreach : Reaches rules.Allows strategy maxRestarts restartWindow s) :
    Moves rules (init strategy maxRestarts restartWindow).config s.config ∧
      Sound s.config :=
  ⟨hreach.simulated.1, hreach.simulated.2.2⟩

/-- A run that goes on from a reached state goes on by moves. -/
theorem Sys.Reaches.onward {t : Sys}
    (hreach : Reaches rules.Allows strategy maxRestarts restartWindow s)
    (hrun : Machine.Reaches step rules.Allows s t) : Moves rules s.config t.config := by
  induction hrun with
  | refl => exact .refl
  | tail hbefore hallows hstep ih =>
    obtain ⟨_, hfit, hsound⟩ := Reaches.simulated (hreach.trans hbefore)
    exact ih.trans (simulate_step hfit hsound hallows hstep).1

theorem Sys.Reaches.free (hreach : Reaches always strategy maxRestarts restartWindow s) :
    Reaches Rules.free.Allows strategy maxRestarts restartWindow s :=
  Machine.Reaches.mono (fun _ _ _ => Rules.free_allows) hreach

/-- The invariant rule: what holds of the books at the start and survives each
move of sound books holds in every reached state. -/
theorem Sys.Reaches.books {inv : Config → Prop}
    (hstart : inv (init strategy maxRestarts restartWindow).config)
    (hmove : ∀ c d, Sound c → inv c → Move rules c d → inv d)
    (hreach : Reaches rules.Allows strategy maxRestarts restartWindow s) : inv s.config := by
  have hboth : ∀ d, Moves rules (init strategy maxRestarts restartWindow).config d →
      Sound d ∧ inv d := by
    intro d hmoves
    induction hmoves with
    | refl => exact ⟨sound_init, hstart⟩
    | tail _ hlast ih => exact ⟨hlast.sound ih.1, hmove _ _ ih.1 ih.2 hlast⟩
  exact (hboth _ hreach.moves.1).2

/-! ## Pieces of runs -/

/-- The incarnation ends with its subtree, and its runner reports the end. -/
def incarnationEnds (n : Token) (reason : StopReason) : List Action :=
  [.env (.ends n (some reason)), .env (.subtreeEnds n), .env (.fateRecorded n),
    .env (.taskReturns n)]

def endHandled (n : Token) : List Action := [.loop (.pollDeath n), .loop (.work none)]

def attemptAdopted (n : Token) : List Action :=
  [.env (.attemptProceeds n), .env (.attemptChecked n), .env (.attemptBuilds n), .env (.initDone n),
    .env (.attemptAdopts n), .loop (.pollRestart n), .loop (.work none)]

def crash : StopReason := .failure (.user "boom")

def spawned (id : ActorId) (name : String) : Action :=
  .call (.spawnNamed id name .permanent (.timeout 5) true)

/-! ## The ends of a run -/

/-- Every report taken is in the supervisor's hands or delivered. -/
def Config.Kept (c : Config) : Prop :=
  ∀ n, (c.accounts n).taken = (c.accounts n).held + (c.accounts n).delivered

theorem Moves.kept {c d : Config} (hmoves : Moves rules c d) (hkept : rules.kept)
    (hbooks : c.Kept) : d.Kept := by
  induction hmoves with
  | refl => exact hbooks
  | tail _ hlast ih =>
    cases hlast.transfer with
    | lose _ _ hlossy => exact absurd hkept hlossy
    | keep hsame => simpa only [Config.Kept, hsame] using ih
    | begin m _ _ hmoved | take m hmoved | cancel m hmoved | deliver m hmoved | forget m hmoved =>
      intro n
      have hbefore := ih n
      rw [hmoved]
      dsimp only
      omega

/-- **The end of an incarnation is in one place.** A task works for it, or its report is
in the supervisor's hands, or it was cancelled, or delivered, and never two of these, so
no end is delivered twice and no cancelled attempt is. What was taken is in hand or
delivered, unless a step of the run was taken with the supervisor killed, with its
teardown next and triggers queued, or on a report that the ledger had moved past. -/
theorem ends_are_delivered_once
    (hreach : Reaches always strategy maxRestarts restartWindow s) :
    (∀ n, s.config.tasks n + s.config.held n + logTally Obs.cancels n s.sup.log +
      logTally Obs.delivers n s.sup.log ≤ 1) ∧
    ((∀ n, logTally Obs.takes n s.sup.log =
      s.config.held n + logTally Obs.delivers n s.sup.log) ∨
      ∃ before action after, Reaches always strategy maxRestarts restartWindow before ∧
        before.LetsGo action ∧ before.step action = some after ∧
        Machine.Reaches step always after s) := by
  refine ⟨hreach.free.moves.2.places, ?_⟩
  change s.config.Kept ∨ _
  induction hreach with
  | refl =>
    left
    intro n
    simp [Config.accounts, Config.held, logTally, init, config, Phase.reports, Phase.out]
  | @tail s t action hreach _ hstep ih =>
    rcases ih with hbooks | ⟨before, other, after, hbefore, hlets, hgoes, honward⟩
    · by_cases hlets : s.LetsGo action
      · exact .inr ⟨s, action, t, hreach, hlets, hstep, .refl⟩
      · obtain ⟨_, hfit, hsound⟩ := Reaches.simulated (Reaches.free hreach)
        have hallows : Rules.Allows ⟨False, False, False, True⟩ s action :=
          ⟨False.elim, False.elim, False.elim, fun _ => hlets⟩
        exact .inl ((simulate_step ⟨hfit.waits, hfit.fits, False.elim⟩ hsound hallows
          hstep).1.kept trivial hbooks)
    · exact .inr ⟨before, other, after, hbefore, hlets, hgoes, .tail honward trivial hstep⟩

def endDelivered : List Action :=
  [spawned 1 "a", .loop (.return none)] ++ incarnationEnds 1 crash ++ endHandled 1

set_option maxRecDepth 10000 in
theorem ends_are_delivered_once_crash : ∃ s,
    Reaches always .oneForOne 3 1000 s ∧ logTally Obs.delivers 1 s.sup.log = 1 ∧
      s.config.tasks 1 + s.config.held 1 + logTally Obs.cancels 1 s.sup.log +
        logTally Obs.delivers 1 s.sup.log ≤ 1 := by
  have hreach := @reaches_get Sys Action step (init .oneForOne 3 1000) endDelivered
    (by decide +kernel)
  exact ⟨_, hreach, by decide +kernel, (ends_are_delivered_once hreach).1 1⟩

end TokioActors
