/-
# What a group restart never touches

Under `RestForOne` a group restart leaves the children started before the failed
one alone, through its first plan and every retry of it. The children it leaves
stay the first ones of the registry: a removal keeps the order, and a spawn adds
at the end. A retry starts from a child at the front of the chain, which is none
of them, so what it covers begins behind them.
-/

import TokioActors.Supervision.Coverage
import TokioActors.Supervision.Decisions
import TokioActors.Supervision.Tokens

namespace TokioActors

open SupervisionState

variable {rules : Rules} {c d : Config} {b : ActorId}
variable {id failed : ActorId} {sup : SupervisionState} {n : Token} {obs since : List Obs}
  {phase : GroupPhase} {commit first : List Committed} {origin : Origin}
  {spared covered : List ActorId}

/-! ## Leaving a child alone -/

/-- The group neither stops the child, nor waits for it, nor restarts it. -/
def GroupPhase.Spares (b : ActorId) : GroupPhase → Prop
  | .stopping group =>
    b ∉ group.restartOrder ∧ b ∉ group.stopQueue ∧ group.awaiting.lookup b = none
  | .restarting chain => b ∉ chain.queue

abbrev SupervisionState.Spares (b : ActorId) (sup : SupervisionState) : Prop :=
  ∀ phase, sup.pendingGroup = some phase → phase.Spares b

theorem SupervisionState.Spares.congr {next : SupervisionState} (hspares : sup.Spares b)
    (hgroup : next.pendingGroup = sup.pendingGroup) : next.Spares b :=
  fun phase hphase => hspares phase (hgroup.symm.trans hphase)

/-- The observation shows a group restart that covers, stops or starts the child. -/
def Obs.Concerns (b : ActorId) : Obs → Prop
  | .planned commit => b ∈ commit.map Committed.id
  | .ordered id _ => id = b
  | .began id _ _ origin => id = b ∧ origin = .chain
  | _ => False

/-- A group restart is decided anew. -/
def Obs.firstPlan : Obs → Bool
  | .evaluated _ _ .restartGroup => true
  | _ => false

/-- An observation that has nothing to do with plans and their members. -/
def Obs.plain : Obs → Bool
  | .planned _ => false
  | .ordered _ _ => false
  | .began _ _ _ origin => origin != .chain
  | .spawned _ _ => false
  | .evaluated _ _ verdict => verdict != .restartGroup
  | _ => true

/-- The pending group and the plan that is laid out next leave the child alone. -/
structure Spared (b : ActorId) (c : Config) : Prop where
  group : c.sup.Spares b
  plan : ∀ plan, c.plan = some plan → plan.laid = true → b ∉ plan.commit.map Committed.id
  current : b ∉ (currentPlan c.sup.log).map Committed.id

theorem currentPlan_append {log : List Obs} (hobs : ∀ o ∈ obs, ∀ commit, o ≠ .planned commit) :
    currentPlan (obs ++ log) = currentPlan log := by
  induction obs with
  | nil => rfl
  | cons o obs ih =>
    have hrest := ih fun other hother => hobs other (List.mem_cons_of_mem _ hother)
    have hne := hobs o List.mem_cons_self
    cases o with
    | planned commit => exact absurd rfl (hne commit)
    | _ => exact hrest

theorem GroupPhase.Spares.removeSpec (hspares : phase.Spares b) :
    (phase.removeSpec id).Spares b := by
  cases phase with
  | stopping => exact ⟨fun hmem => hspares.1 (List.mem_filter.mp hmem).1, hspares.2⟩
  | restarting => exact fun hmem => hspares (List.mem_filter.mp hmem).1

theorem GroupPhase.Spares.leaveRestartSet
    (hspares : phase.Spares b) : (phase.leaveRestartSet id).Spares b := by
  cases phase with
  | stopping => exact ⟨fun hmem => hspares.1 (List.mem_filter.mp hmem).1, hspares.2⟩
  | restarting => exact fun hmem => hspares (List.mem_filter.mp hmem).1

theorem GroupPhase.Spares.recordOverride
    (hspares : phase.Spares b) : (phase.recordOverride id n).Spares b := by
  cases phase <;> exact hspares

theorem GroupPhase.Spares.recordStarted
    (hspares : phase.Spares b) : (phase.recordStarted id n).Spares b := by
  cases phase <;> exact hspares

theorem GroupPhase.Spares.settle {group : GroupRestart}
    (hspares : (GroupPhase.stopping group).Spares b) :
    (GroupPhase.stopping { group with awaiting := group.awaiting.erase id }).Spares b := by
  obtain ⟨horder, hstop, hfree⟩ := hspares
  refine ⟨horder, hstop, ?_⟩
  by_cases heq : b = id
  · rw [heq, Finmap.lookup_erase]
  · rw [Finmap.lookup_erase_ne heq, hfree]

theorem spares_layOut {overrides : TokenMap} {scope : GroupScope}
    (houtside : b ∉ commit.map Committed.id) : (layOut commit overrides scope).Spares b := by
  have horder : b ∉ restartIds commit := fun hmem => houtside (restartIds_sublist.subset hmem)
  unfold layOut
  split
  · exact horder
  · refine ⟨horder, fun hmem => ?_, ?_⟩
    · obtain ⟨member, hmember, rfl⟩ := List.mem_map.mp hmem
      exact houtside (List.mem_map_of_mem (List.mem_reverse.mp (List.mem_filter.mp hmember).1))
    · rw [awaitingOf, Finmap.dlookup_list_toFinmap, List.dlookup_eq_none]
      intro hkey
      obtain ⟨entry, hentry, rfl⟩ := List.mem_map.mp hkey
      obtain ⟨member, hmember, rfl⟩ := List.mem_map.mp hentry
      exact houtside (List.mem_map_of_mem (List.mem_filter.mp hmember).1)

/-! ## What a move does about plans -/

/-- A group restart is decided, over the children from the failed one on. -/
structure FirstPlan (c d : Config) (failed : ActorId) (n : Token) (commit : List Committed) :
    Prop where
  log : d.sup.log = .planned commit :: .evaluated failed n .restartGroup ::
    .charged failed n c.sup.now true :: c.sup.log
  members : commit.map Committed.id = commitIds c.sup.strategy c.sup.registry.ids failed
  present : failed ∈ c.sup.registry.ids
  ids : d.sup.registry.ids = c.sup.registry.ids
  strategy : d.sup.strategy = c.sup.strategy
  idle : d.sup.pendingGroup = none
  unplanned : d.plan = none

/-- The pending group is planned again, from the child at the front of its chain. -/
structure Replan (c d : Config) (failed : ActorId) (commit : List Committed) : Prop where
  log : d.sup.log = .planned commit :: c.sup.log
  members : commit.map Committed.id = commitIds c.sup.strategy c.sup.registry.ids failed
  present : failed ∈ c.sup.registry.ids
  member : ∃ chain, c.sup.pendingGroup = some (.restarting chain) ∧ failed ∈ chain.queue
  ids : d.sup.registry.ids = c.sup.registry.ids
  strategy : d.sup.strategy = c.sup.strategy
  group : ∃ overrides scope, d.sup.pendingGroup = some (layOut commit overrides scope)
  unplanned : d.plan = none

/-- No plan is made: what leaves a child alone still does. -/
structure KeepsPlans (c d : Config) (obs : List Obs) : Prop where
  log : d.sup.log = obs ++ c.sup.log
  unplanned : ∀ o ∈ obs, o.firstPlan = false ∧ ∀ commit, o ≠ .planned commit
  strategy : d.sup.strategy = c.sup.strategy
  spared : ∀ b, Spared b c → Spared b d
  unconcerned : ∀ b, Spared b c → ∀ o ∈ obs, ¬ o.Concerns b
  spawned : ∀ b n, Obs.spawned b n ∈ obs → b ∉ c.sup.registry.ids
  registered : ∀ b, ∀ o ∈ obs, o.Concerns b → b ∈ c.sup.registry.ids

theorem Obs.plain_spec {o : Obs} (hplain : o.plain = true) :
    o.firstPlan = false ∧ (∀ commit, o ≠ .planned commit) ∧ (∀ b, ¬ o.Concerns b) ∧
      ∀ b n, o ≠ .spawned b n := by
  cases o with
  | evaluated id n verdict => cases verdict <;> simp_all [plain, firstPlan, Concerns]
  | _ => simp_all [plain, firstPlan, Concerns]

theorem KeepsPlans.of_plain (obs : List Obs) (hlog : d.sup.log = obs ++ c.sup.log)
    (hobs : ∀ o ∈ obs, o.plain = true) (hstrategy : d.sup.strategy = c.sup.strategy)
    (hgroup : ∀ b, c.sup.Spares b → d.sup.Spares b)
    (hplan : ∀ plan, d.plan = some plan → plan.laid = true → c.plan = some plan) :
    KeepsPlans c d obs where
  log := hlog
  unplanned := fun o ho => ⟨(Obs.plain_spec (hobs o ho)).1, (Obs.plain_spec (hobs o ho)).2.1⟩
  strategy := hstrategy
  spared := by
    intro b hspared
    refine ⟨hgroup b hspared.group, fun plan hd hlaid => hspared.plan plan (hplan plan hd hlaid)
      hlaid,
      ?_⟩
    rw [hlog, currentPlan_append fun o ho => (Obs.plain_spec (hobs o ho)).2.1]
    exact hspared.current
  unconcerned := fun b _ o ho => (Obs.plain_spec (hobs o ho)).2.2.1 b
  spawned := fun b n hmem => absurd rfl ((Obs.plain_spec (hobs _ hmem)).2.2.2 b n)
  registered := fun b o ho hconcerns => absurd hconcerns ((Obs.plain_spec (hobs o ho)).2.2.1 b)

theorem plain_of_plane {o : Obs} (hobs : o.ofPlane = true) : o.plain = true := by
  cases o <;> simp_all [Obs.ofPlane, Obs.plain]

/-- What a move of the group records, and that it keeps away from the children the
group leaves alone. -/
structure GroupSpares (sup next : SupervisionState) (obs : List Obs) : Prop where
  strategy : next.strategy = sup.strategy
  log : next.log = obs ++ sup.log
  unplanned : ∀ o ∈ obs, o.firstPlan = false ∧ (∀ commit, o ≠ .planned commit) ∧
    ∀ b n, o ≠ .spawned b n
  spared : ∀ b, sup.Spares b → next.Spares b
  unconcerned : ∀ b, sup.Spares b → ∀ o ∈ obs, ¬ o.Concerns b
  registered : ∀ b, ∀ o ∈ obs, o.Concerns b → b ∈ sup.registry.ids

theorem applyQueueStep_gone {step : QueueStep}
    (hgone : id ∉ sup.registry.ids) : sup.applyQueueStep id step = sup := by
  unfold applyQueueStep
  rw [Registry.get_eq_none_iff.mpr hgone]

theorem GroupMove.spares {next : SupervisionState} (hmove : GroupMove sup next) :
    ∃ obs, GroupSpares sup next obs := by
  have hstill (hlog : next.log = sup.log) (hstrategy : next.strategy = sup.strategy)
      (hgroup : ∀ b, sup.Spares b → next.Spares b) : ∃ obs, GroupSpares sup next obs :=
    ⟨[], hstrategy, hlog, by simp, hgroup, by simp, by simp⟩
  cases hmove with
  | stopPop group head rest hpending hqueue =>
    refine hstill rfl rfl fun b hspares phase hphase => ?_
    cases hphase
    obtain ⟨horder, hstop, hawaited⟩ := hspares _ hpending
    rw [hqueue] at hstop
    exact ⟨horder, fun hmem => hstop (List.mem_cons_of_mem _ hmem), hawaited⟩
  | stopAct group head rest reached hpending hqueue =>
    obtain ⟨slots, obs, happly, hobs⟩ :=
      @orders_applyQueueStep sup head (stopQueueNext (sup.queueHead group head))
    have hmember (hgone : head ∉ sup.registry.ids) : obs = [] := by
      have hlog := congrArg SupervisionState.log happly
      rw [applyQueueStep_gone hgone] at hlog
      exact List.self_eq_append_left.mp hlog
    rw [happly]
    refine ⟨obs, rfl, rfl, fun o ho => ?_, fun b hspares phase hphase => ?_,
      fun b hspares o ho => ?_, fun b o ho hconcerns => ?_⟩
    · obtain ⟨n, rfl⟩ := hobs o ho
      simp [Obs.firstPlan]
    · cases hphase
      have hfree := hspares _ hpending
      exact hfree
    · obtain ⟨n, rfl⟩ := hobs o ho
      rintro rfl
      exact (hspares _ hpending).2.1 (by rw [hqueue]; exact List.mem_cons_self)
    · obtain ⟨n, rfl⟩ := hobs o ho
      have hsame : head = b := hconcerns
      subst hsame
      by_contra hgone
      rw [hmember hgone] at ho
      cases ho
  | settle group id n hpending =>
    refine hstill rfl rfl fun b hspares phase hphase => ?_
    cases hphase
    exact (hspares _ hpending).settle
  | awaitAdopted group id n hpending hmember =>
    refine hstill rfl rfl fun b hspares phase hphase => ?_
    cases hphase
    obtain ⟨horder, hstop, hfree⟩ := hspares _ hpending
    refine ⟨horder, hstop, ?_⟩
    change Finmap.lookup b (Finmap.insert id n group.awaiting) = none
    have hne : b ≠ id := by
      rintro rfl
      exact horder hmember
    rw [Finmap.lookup_insert_of_ne _ hne, hfree]
  | finish group hpending =>
    refine hstill rfl rfl fun b hspares phase hphase => ?_
    cases hphase
    exact fun hmem => (hspares _ hpending).1 (List.mem_filter.mp hmem).1
  | chainGone chain front rest hpending hqueue
  | chainFresh chain front rest n hpending hqueue =>
    refine hstill rfl rfl fun b hspares phase hphase => ?_
    cases hphase
    have hfree := hspares _ hpending
    exact fun hmem => hfree (by rw [hqueue]; exact List.mem_cons_of_mem _ hmem)
  | foreign chain front =>
    exact ⟨[.foreignFront front], rfl, rfl, by simp [Obs.firstPlan], fun b hspares => hspares,
      by simp [Obs.Concerns], by simp [Obs.Concerns]⟩
  | keep id life hunplanned hentry =>
    refine hstill rfl rfl fun b hspares phase hphase => ?_
    obtain ⟨old, hold, rfl⟩ := Option.map_eq_some_iff.mp hphase
    rw [hentry]
    exact (hspares old hold).recordOverride
  | leaveGone id =>
    refine ⟨[.released id], rfl, rfl, by simp [Obs.firstPlan], fun b hspares phase hphase => ?_,
      by simp [Obs.Concerns], by simp [Obs.Concerns]⟩
    obtain ⟨old, hold, rfl⟩ := Option.map_eq_some_iff.mp hphase
    exact (hspares old hold).leaveRestartSet

/-- What a move does about plans. -/
inductive PlanChange (c d : Config) : Prop
  | first (failed : ActorId) (n : Token) (commit : List Committed)
      (plan : FirstPlan c d failed n commit)
  | again (failed : ActorId) (commit : List Committed) (plan : Replan c d failed commit)
  | none (obs : List Obs) (keeps : KeepsPlans c d obs)

theorem pendingGroup_initiateRestart {sup : SupervisionState} {id : ActorId} {origin : Origin} :
    (sup.initiateRestart id origin).pendingGroup = sup.pendingGroup ∨
      ∃ seq, (sup.initiateRestart id origin).pendingGroup =
        sup.pendingGroup.map (GroupPhase.recordStarted id seq) := by
  rcases @initiateRestart_cases sup id origin with hsame | ⟨child, n, pending, _, _, _, hbegin⟩
  · rw [hsame]
    exact .inl rfl
  · rw [hbegin]
    unfold «begin»
    dsimp only
    split
    · exact .inr ⟨_, rfl⟩
    · exact .inl rfl

theorem spares_recordCollectedEnd (hspares : sup.Spares b) :
    (Sys.recordCollectedEnd sup id n).Spares b := by
  have hsettle (mid : SupervisionState) (hmid : mid.pendingGroup = sup.pendingGroup) :
      (mid.settleBarrier id n).1.Spares b := by
    intro phase hphase
    unfold settleBarrier at hphase
    split at hphase
    next group hpending =>
      rw [hmid] at hpending
      split at hphase
      · cases hphase
        exact (hspares _ hpending).settle
      · exact hspares.congr hmid phase hphase
    · exact hspares.congr hmid phase hphase
  unfold Sys.recordCollectedEnd
  dsimp only
  refine hsettle _ ?_
  dsimp only
  split <;> rfl

theorem spares_initiateRestart (hspares : sup.Spares b) :
    (sup.initiateRestart id origin).Spares b := by
  intro phase hphase
  rcases @pendingGroup_initiateRestart sup id origin with hsame | ⟨seq, hstarted⟩
  · exact hspares.congr hsame phase hphase
  · rw [hstarted] at hphase
    obtain ⟨old, hold, rfl⟩ := Option.map_eq_some_iff.mp hphase
    exact (hspares old hold).recordStarted

theorem spares_removeSpec (hspares : sup.Spares b) : (sup.removeSpec id).Spares b := by
  intro phase hphase
  obtain ⟨old, hold, rfl⟩ := Option.map_eq_some_iff.mp hphase
  exact (hspares old hold).removeSpec

theorem strategy_initiateRestart :
    (sup.initiateRestart id origin).strategy = sup.strategy := by
  rw [frame_initiateRestart]

/-- An attempt that no chain begins is no group's. -/
theorem PlanChange.of_initiate
    (hsup : d.sup = sup.initiateRestart id origin) (horigin : origin ≠ .chain)
    (obs : List Obs) (hlog : sup.log = obs ++ c.sup.log)
    (hobs : ∀ o ∈ obs, o.plain = true) (hstrategy : sup.strategy = c.sup.strategy)
    (hgroup : sup.pendingGroup = c.sup.pendingGroup)
    (hplan : ∀ plan, d.plan = some plan → plan.laid = true → c.plan = some plan) :
    PlanChange c d := by
  obtain ⟨later, hlater, hbegan⟩ := @obs_initiateRestart sup id origin
  refine .none (later ++ obs) (.of_plain _ ?_ (fun o ho => ?_) ?_ (fun b hspares => ?_) hplan)
  · rw [hsup, hlater, hlog, List.append_assoc]
  · rcases List.mem_append.mp ho with h | h
    · obtain ⟨life, m, rfl⟩ := hbegan o h
      simpa [Obs.plain] using horigin
    · exact hobs o h
  · rw [hsup, strategy_initiateRestart, hstrategy]
  · rw [hsup]
    exact spares_initiateRestart (hspares.congr hgroup)

theorem Judgement.plans {ev : Report} {budget : RestartBudget}
    (hjudged : Judgement sup ev budget obs) :
    (∀ o ∈ obs, o.plain = true) ∨ ∃ commit,
      obs = [.planned commit, .evaluated ev.childId ev.incarnation .restartGroup,
          .charged ev.childId ev.incarnation sup.now true] ∧
        commit.map Committed.id = commitIds sup.strategy sup.registry.ids ev.childId ∧
        sup.pendingGroup = none := by
  cases hjudged with
  | restartGroup commit _ hgranted hcovers hidle => exact .inr ⟨commit, rfl, hcovers, hidle⟩
  | _ => left; simp [Obs.plain]

/-- Every move makes a plan in one of two ways, or none. -/
theorem Move.plans (hmove : Move rules c d) : PlanChange c d := by
  have hself : ∀ b, c.sup.Spares b → c.sup.Spares b := fun _ h => h
  have hkept : ∀ plan, c.plan = some plan → plan.laid = true → c.plan = some plan :=
    fun _ hplan _ => hplan
  have hgone : ∀ plan : Plan, (none : Option Plan) = some plan → plan.laid = true →
      c.plan = some plan := fun _ hplan _ => nomatch hplan
  have hcleared : ∀ b, c.sup.Spares b →
      ∀ phase : GroupPhase, (none : Option GroupPhase) = some phase → phase.Spares b :=
    fun _ _ _ hphase => nomatch hphase
  have hsame (hlog : d.sup.log = c.sup.log) (hstrategy : d.sup.strategy = c.sup.strategy)
      (hgroup : d.sup.pendingGroup = c.sup.pendingGroup) (hplan : d.plan = c.plan) :
      PlanChange c d := by
    refine .none [] (.of_plain [] hlog (by simp) hstrategy (fun _ h => h.congr hgroup) ?_)
    rw [hplan]
    exact hkept
  have hnoted (obs : Obs) (hobs : obs.plain = true) (hlog : d.sup.log = obs :: c.sup.log)
      (hstrategy : d.sup.strategy = c.sup.strategy)
      (hgroup : d.sup.pendingGroup = c.sup.pendingGroup) (hplan : d.plan = c.plan) :
      PlanChange c d := by
    refine .none [obs] (.of_plain [obs] hlog (by simpa using hobs) hstrategy
      (fun _ h => h.congr hgroup) ?_)
    rw [hplan]
    exact hkept
  have hremoved {id : ActorId} (hsup : d.sup = c.sup.removeSpec id) (hplan : d.plan = c.plan) :
      PlanChange c d := by
    refine .none [.specRemoved id] (.of_plain _ (by rw [hsup]; rfl) (by simp [Obs.plain])
      (by rw [hsup]; rfl) ?_ ?_)
    · rw [hsup]
      exact fun b hspares => spares_removeSpec hspares
    · rw [hplan]
      exact hkept
  cases hmove with
  | plane hplane =>
    obtain ⟨_, _, _, _, _, obs, rfl, hobs⟩ := hplane.frame.same
    exact .none obs (.of_plain obs rfl (fun o ho => plain_of_plane (hobs o ho)) rfl hself hkept)
  | group hgroup =>
    obtain ⟨obs, hspares⟩ := hgroup.spares
    have hobs := hspares.unplanned
    refine .none obs ⟨hspares.log, fun o ho => ⟨(hobs o ho).1, (hobs o ho).2.1⟩,
      hspares.strategy, fun b hspared => ⟨hspares.spared b hspared.group, hspared.plan, ?_⟩,
      fun b hspared => hspares.unconcerned b hspared.group,
      fun b n hmem => absurd rfl ((hobs _ hmem).2.2 b n), hspares.registered⟩
    rw [Config.withSup, hspares.log, currentPlan_append fun o ho => (hobs o ho).2.1]
    exact hspared.current
  | spawn id name restartType shutdown habsent =>
    refine .none [.spawned id c.sup.nextIncarnation] ⟨rfl, by simp [Obs.firstPlan], rfl,
      fun b hspared => ⟨hspared.group, hspared.plan, hspared.current⟩,
      fun b _ => by simp [Obs.Concerns], fun b n hmem => ?_, by simp [Obs.Concerns]⟩
    simp only [List.mem_singleton, Obs.spawned.injEq] at hmem
    rw [hmem.1]
    exact Registry.get_eq_none_iff.mp habsent
  | rebound id n =>
    exact .of_initiate rfl (by nofun) [] rfl (by simp) rfl rfl hkept
  | release phase id life hquiet hpending hentry =>
    refine .none [.released id] (.of_plain _ rfl (by simp [Obs.plain]) rfl
      (fun b hspares other hother => ?_) hkept)
    obtain ⟨middle, hmiddle, rfl⟩ := Option.map_eq_some_iff.mp hother
    obtain ⟨old, hold, rfl⟩ := Option.map_eq_some_iff.mp hmiddle
    rw [hentry]
    exact ((hspares old hold).recordOverride).leaveRestartSet
  | restart | «begin» => exact .of_initiate rfl (by nofun) [] rfl (by simp) rfl rfl hkept
  | prune => exact hremoved rfl rfl
  | chainBegin chain front rest n owed hlooping hplan hpending hqueue hentry =>
    obtain ⟨obs, hlog, hbegan⟩ := @obs_initiateRestart c.sup front .chain
    have hquiet : ∀ o ∈ obs, o.firstPlan = false ∧ ∀ commit, o ≠ .planned commit := by
      intro o ho
      obtain ⟨life, m, rfl⟩ := hbegan o ho
      simp [Obs.firstPlan]
    refine .none obs ⟨hlog, hquiet, strategy_initiateRestart, fun b hspared =>
      ⟨spares_initiateRestart hspared.group, hspared.plan, ?_⟩, fun b hspared o ho => ?_,
      fun b m hmem => ?_, fun b o ho hconcerns => ?_⟩
    · change b ∉ (currentPlan (c.sup.initiateRestart front .chain).log).map Committed.id
      rw [hlog, currentPlan_append fun o ho => (hquiet o ho).2]
      exact hspared.current
    · obtain ⟨life, m, rfl⟩ := hbegan o ho
      rintro ⟨rfl, _⟩
      exact hspared.group _ hpending (by rw [hqueue]; exact List.mem_cons_self)
    · obtain ⟨life, k, hobs⟩ := hbegan _ hmem
      cases hobs
    · obtain ⟨life, k, rfl⟩ := hbegan o ho
      rw [← hconcerns.1]
      exact Registry.mem_ids_of_life hentry
  | complete =>
    exact .none [.groupCompleted] (.of_plain _ rfl (by simp [Obs.plain]) rfl hcleared hkept)
  | decide plan hfresh =>
    refine .none [] (.of_plain [] rfl (by simp) rfl hself fun other hother hlaid => ?_)
    cases hother
    rw [hfresh] at hlaid
    cases hlaid
  | lay plan hplanned hlooping hidle hcurrent =>
    refine .none [] ⟨rfl, by simp, rfl, fun b hspared => ⟨hspared.group, ?_, hspared.current⟩,
      by simp, by simp, by simp⟩
    intro other hother _
    cases hother
    dsimp only
    rw [← hcurrent]
    exact hspared.current
  | install plan hplanned hlaid =>
    refine .none [] ⟨rfl, by simp, rfl, fun b hspared => ⟨?_, ?_, hspared.current⟩, by simp,
      by simp, by simp⟩
    · intro phase hphase
      cases hphase
      exact spares_layOut (hspared.plan plan hplanned hlaid)
    · intro other hother
      cases hother
  | reinstall plan chain hpending hfront habsorbed hpresent =>
    exact .again plan.failed (c.sup.planRetry plan.failed).commit ⟨rfl, planRetry_ids, hpresent,
      ⟨chain, hpending, List.mem_of_mem_head? hfront⟩, rfl, rfl, ⟨_, _, rfl⟩, rfl⟩
  | takeLost => exact .none [_, _] (.of_plain _ rfl (by simp [Obs.plain]) rfl hself hkept)
  | cancel task =>
    rw [frame_recordCancelled]
    exact .none [_] (.of_plain _ rfl (by simp [Obs.plain]) rfl hself hkept)
  | close ev work event budget obs hlooping hunplanned hhead hopens hjudged =>
    rcases hjudged.plans with hplain | ⟨commit, rfl, hmembers, hidle⟩
    · exact .none obs (.of_plain obs rfl hplain rfl hself hkept)
    · obtain ⟨life, hlife, _⟩ := hopens
      exact .first ev.childId ev.incarnation commit ⟨rfl, hmembers,
        Registry.mem_ids_of_life hlife, Registry.ids_transition, rfl, hidle, hunplanned⟩
  | endLoop => exact .none [.loopEnded] (.of_plain _ rfl (by simp [Obs.plain]) rfl hself hgone)
  | collect | discard =>
    exact .none [] (.of_plain [] (by rw [frame_recordCollectedEnd]; rfl) (by simp)
      (by rw [frame_recordCollectedEnd]) (fun b hspares => spares_recordCollectedEnd hspares) hkept)
  | drainDeaths => exact .none [] (.of_plain [] rfl (by simp) rfl hcleared hkept)
  | teardown => exact .none [] (.of_plain [] rfl (by simp) rfl hcleared hgone)
  | discardLost =>
    exact .none [_] (.of_plain _ (by rw [frame_recordCollectedEnd]; rfl) (by simp [Obs.plain])
      (by rw [frame_recordCollectedEnd]) (fun b hspares => spares_recordCollectedEnd hspares) hkept)
  | abort => exact .none [] (.of_plain [] rfl (by simp) rfl hself hgone)
  | subtree | commit | crash | rewrite | adoptStale | drop | snapshot | retitle | reorder
  | owe | enter | gather | drainRestarts | refuse | kill | queue | absorb | record
  | dismiss | absorbSnapshot => exact hsame rfl rfl rfl rfl
  | _ => exact hnoted _ rfl rfl rfl rfl rfl

/-! ## The children before the failed one -/

/-- The registry falls into the children that were there before the first plan and
outside of it, and those it covers or that were spawned since. The former come
first, and the group has left them alone since. -/
structure Parted (c : Config) (since : List Obs) (first : List Committed)
    (spared covered : List ActorId) : Prop where
  ids : c.sup.registry.ids = spared ++ covered
  outside : ∀ b ∈ spared, b ∉ first.map Committed.id ∧ ∀ n, Obs.spawned b n ∉ since
  inside : ∀ id ∈ covered, id ∈ first.map Committed.id ∨ ∃ n, Obs.spawned id n ∈ since
  alone : ∀ b ∈ spared, Spared b c
  quiet : ∀ b, b ∉ first.map Committed.id → (∀ n, Obs.spawned b n ∉ since) →
    ∀ o ∈ since, ¬ o.Concerns b

/-- Since its first plan a `RestForOne` group has left the children before the
failed one alone. -/
structure ScopeKept (c : Config) : Prop where
  planned : ∀ o ∈ c.sup.log.head?, o.firstPlan = false
  parted : c.sup.strategy = .restForOne → ∀ since first failed n earlier,
    c.sup.log = since ++ .planned first :: .evaluated failed n .restartGroup :: earlier →
    (∀ o ∈ since, o.firstPlan = false) → ∃ spared covered, Parted c since first spared covered

theorem since_of_append {log earlier : List Obs} (hobs : ∀ o ∈ obs, ∀ commit, o ≠ .planned commit)
    (hlog : obs ++ log = since ++ .planned first :: .evaluated failed n .restartGroup :: earlier) :
    ∃ before, since = obs ++ before ∧
      log = before ++ .planned first :: .evaluated failed n .restartGroup :: earlier := by
  rcases List.append_eq_append_iff.mp hlog with ⟨rest, hsince, hrest⟩ | ⟨rest, hsplit, hrest⟩
  · exact ⟨rest, hsince, hrest⟩
  · cases rest with
    | nil =>
      refine ⟨[], ?_, ?_⟩
      · rw [hsplit, List.append_nil, List.append_nil]
      · rw [List.nil_append, hrest, List.nil_append]
    | cons o =>
      rw [List.cons_append, List.cons.injEq] at hrest
      refine absurd hrest.1.symm (hobs o ?_ first)
      rw [hsplit]
      exact List.mem_append_right _ List.mem_cons_self

theorem Parted.keep (hparted : Parted c since first spared covered)
    (hkeeps : KeepsPlans c d obs) (hspecs : SpecChange c d) :
    ∃ spared covered, Parted d (obs ++ since) first spared covered := by
  have hmem {b : ActorId} (hb : b ∈ spared) : b ∈ c.sup.registry.ids := by
    rw [hparted.ids]
    exact List.mem_append_left _ hb
  have houtside {b : ActorId} (hb : b ∈ spared) :
      b ∉ first.map Committed.id ∧ ∀ n, Obs.spawned b n ∉ obs ++ since := by
    refine ⟨(hparted.outside b hb).1, fun n hspawned => ?_⟩
    rcases List.mem_append.mp hspawned with h | h
    · exact hkeeps.spawned b n h (hmem hb)
    · exact (hparted.outside b hb).2 n h
  have hinside {id : ActorId} (hid : id ∈ covered) :
      id ∈ first.map Committed.id ∨ ∃ n, Obs.spawned id n ∈ obs ++ since := by
    rcases hparted.inside id hid with h | ⟨n, h⟩
    · exact .inl h
    · exact .inr ⟨n, List.mem_append_right _ h⟩
  have halone {b : ActorId} (hb : b ∈ spared) : Spared b d :=
    hkeeps.spared b (hparted.alone b hb)
  have hquiet (b : ActorId) (hfirst : b ∉ first.map Committed.id)
      (hspawned : ∀ n, Obs.spawned b n ∉ obs ++ since) : ∀ o ∈ obs ++ since, ¬ o.Concerns b := by
    have hbefore : ∀ n, Obs.spawned b n ∉ since :=
      fun n hmem => hspawned n (List.mem_append_right _ hmem)
    intro o ho hconcerns
    rcases List.mem_append.mp ho with h | h
    · have hid := hkeeps.registered b o h hconcerns
      rw [hparted.ids, List.mem_append] at hid
      rcases hid with hb | hb
      · exact hkeeps.unconcerned b (hparted.alone b hb) o h hconcerns
      · rcases hparted.inside b hb with hin | ⟨n, hn⟩
        · exact hfirst hin
        · exact hbefore n hn
    · exact hparted.quiet b hfirst hbefore o h hconcerns
  cases hspecs with
  | same hids | torn hids =>
    exact ⟨spared, covered, hids.trans hparted.ids, fun b hb => houtside hb,
      fun id hid => hinside hid, fun b hb => halone hb, hquiet⟩
  | removed id hsup =>
    refine ⟨spared.filter (· != id), covered.filter (· != id), ?_,
      fun b hb => houtside (List.mem_filter.mp hb).1,
      fun other hother => hinside (List.mem_filter.mp hother).1,
      fun b hb => halone (List.mem_filter.mp hb).1, hquiet⟩
    rw [hsup]
    change (c.sup.registry.remove id).ids = _
    rw [Registry.ids_remove, hparted.ids, List.filter_append]
  | spawned id name restartType shutdown hup habsent hsup =>
    refine ⟨spared, covered ++ [id], ?_, fun b hb => houtside hb, fun other hother => ?_,
      fun b hb => halone hb, hquiet⟩
    · rw [hsup, ← List.append_assoc, ← hparted.ids]
      exact List.map_append
    · rcases List.mem_append.mp hother with h | h
      · exact hinside h
      · rw [List.mem_singleton] at h
        subst h
        refine .inr ⟨c.sup.nextIncarnation, List.mem_append_left _ ?_⟩
        have hlog := hkeeps.log
        rw [hsup] at hlog
        have hobs : [Obs.spawned other c.sup.nextIncarnation] = obs :=
          List.append_cancel_right
            (hlog : [Obs.spawned other c.sup.nextIncarnation] ++ c.sup.log = _)
        rw [← hobs]
        exact List.mem_cons_self

/-- A plan that starts behind the spared children covers none of them. -/
theorem not_mem_commitIds_of_spared
    (hnodup : (spared ++ covered).Nodup) (hfailed : failed ∈ covered) (hb : b ∈ spared) :
    b ∉ commitIds .restForOne (spared ++ covered) failed := by
  have hskip : (spared ++ covered).dropWhile (fun id => id != failed) =
      covered.dropWhile fun id => id != failed := by
    refine List.dropWhile_append_of_pos fun id hid => ?_
    have hne : id ≠ failed := by
      rintro rfl
      exact (List.nodup_append.mp hnodup).2.2 id hid id hfailed rfl
    simpa using hne
  unfold commitIds
  rw [if_pos ⟨rfl, List.mem_append_right _ hfailed⟩, hskip]
  intro hmem
  exact (List.nodup_append.mp hnodup).2.2 b hb b ((List.dropWhile_sublist _).subset hmem) rfl

theorem Parted.replan (hparted : Parted c since first spared covered)
    (hplan : Replan c d failed commit) (hnodup : c.sup.registry.ids.Nodup)
    (hstrategy : c.sup.strategy = .restForOne) :
    Parted d (.planned commit :: since) first spared covered := by
  obtain ⟨chain, hpending, hqueued⟩ := hplan.member
  have hcovered : failed ∈ covered := by
    have hmem := hplan.present
    rw [hparted.ids] at hmem
    refine (List.mem_append.mp hmem).resolve_left fun hspared => ?_
    exact (hparted.alone failed hspared).group _ hpending hqueued
  have hoff {b : ActorId} (hb : b ∈ spared) : b ∉ commit.map Committed.id := by
    rw [hplan.members, hstrategy, hparted.ids]
    rw [hparted.ids] at hnodup
    exact not_mem_commitIds_of_spared hnodup hcovered hb
  refine ⟨hplan.ids.trans hparted.ids, fun b hb => ⟨(hparted.outside b hb).1, fun n hmem => ?_⟩,
    fun id hid => ?_, fun b hb => ⟨fun phase hphase => ?_, fun plan hsome => ?_, ?_⟩,
    fun b hfirst hspawned o ho => ?_⟩
  · rcases List.mem_cons.mp hmem with h | h
    · cases h
    · exact (hparted.outside b hb).2 n h
  · rcases hparted.inside id hid with h | ⟨n, h⟩
    · exact .inl h
    · exact .inr ⟨n, List.mem_cons_of_mem _ h⟩
  · obtain ⟨overrides, scope, hgroup⟩ := hplan.group
    rw [hgroup] at hphase
    cases hphase
    exact spares_layOut (hoff hb)
  · rw [hplan.unplanned] at hsome
    cases hsome
  · rw [hplan.log]
    exact hoff hb
  · have hbefore : ∀ n, Obs.spawned b n ∉ since :=
      fun n hmem => hspawned n (List.mem_cons_of_mem _ hmem)
    rcases List.mem_cons.mp ho with rfl | h
    · intro hconcerns
      have hid : b ∈ c.sup.registry.ids := by
        have hmem : b ∈ commit.map Committed.id := hconcerns
        rw [hplan.members] at hmem
        exact commitIds_sublist.subset hmem
      rw [hparted.ids, List.mem_append] at hid
      rcases hid with hb | hb
      · exact hoff hb hconcerns
      · rcases hparted.inside b hb with hin | ⟨n, hn⟩
        · exact hfirst hin
        · exact hbefore n hn
    · exact hparted.quiet b hfirst hbefore o h

theorem FirstPlan.parted
    (hplan : FirstPlan c d failed n commit) (hnodup : c.sup.registry.ids.Nodup)
    (hstrategy : c.sup.strategy = .restForOne) :
    ∃ spared covered, Parted d [] commit spared covered := by
  have hmembers : commit.map Committed.id = c.sup.registry.ids.dropWhile
      fun id => id != failed := by
    rw [hplan.members, hstrategy]
    exact if_pos ⟨rfl, hplan.present⟩
  have hoff {b : ActorId} (hb : b ∈ c.sup.registry.ids.takeWhile fun id => id != failed) :
      b ∉ commit.map Committed.id := by
    rw [hmembers]
    exact fun hmem => not_mem_takeWhile_of_mem_dropWhile hnodup hmem hb
  refine ⟨c.sup.registry.ids.takeWhile fun id => id != failed,
    c.sup.registry.ids.dropWhile fun id => id != failed, ?_,
    fun b hb => ⟨hoff hb, fun n hmem => nomatch hmem⟩,
      fun id hid => .inl (by rw [hmembers]; exact hid),
    fun b hb => ⟨fun phase hphase => ?_, fun plan hsome => ?_, ?_⟩,
    fun b _ _ o ho => nomatch ho⟩
  · rw [hplan.ids, List.takeWhile_append_dropWhile]
  · rw [hplan.idle] at hphase
    cases hphase
  · rw [hplan.unplanned] at hsome
    cases hsome
  · rw [hplan.log]
    exact hoff hb

theorem ScopeKept.step (hkept : ScopeKept c) (hnodup : c.sup.registry.ids.Nodup)
    (hmove : Move rules c d) : ScopeKept d := by
  cases hmove.plans with
  | first failed n commit hplan =>
    constructor
    · rw [hplan.log]
      simp [Obs.firstPlan]
    · intro hstrategy since first other m earlier hlog hlast
      rw [hplan.log] at hlog
      rw [hplan.strategy] at hstrategy
      -- A second observation before the split would be the decision itself.
      match since with
      | [] =>
        cases hlog
        exact hplan.parted hnodup hstrategy
      | [_] => cases hlog
      | _ :: second :: _ =>
        simp only [List.cons_append, List.cons.injEq] at hlog
        have hsecond := hlast second (List.mem_cons_of_mem _ List.mem_cons_self)
        rw [← hlog.2.1] at hsecond
        cases hsecond
  | again failed commit hplan =>
    constructor
    · rw [hplan.log]
      simp [Obs.firstPlan]
    · intro hstrategy since first other m earlier hlog hlast
      rw [hplan.log] at hlog
      rw [hplan.strategy] at hstrategy
      cases since with
      | nil =>
        rw [List.nil_append, List.cons.injEq] at hlog
        have hhead := hkept.planned (.evaluated other m .restartGroup) (by rw [hlog.2]; rfl)
        simp [Obs.firstPlan] at hhead
      | cons newest since =>
        rw [List.cons_append, List.cons.injEq] at hlog
        obtain ⟨spared, covered, hparted⟩ := hkept.parted hstrategy since first other m earlier
          hlog.2 fun o ho => hlast o (List.mem_cons_of_mem _ ho)
        rw [← hlog.1]
        exact ⟨spared, covered, hparted.replan hplan hnodup hstrategy⟩
  | none obs hkeeps =>
    constructor
    · rw [hkeeps.log]
      cases obs with
      | nil => exact hkept.planned
      | cons o =>
        intro head hhead
        cases hhead
        exact (hkeeps.unplanned o List.mem_cons_self).1
    · intro hstrategy since first other m earlier hlog hlast
      rw [hkeeps.log] at hlog
      rw [hkeeps.strategy] at hstrategy
      obtain ⟨before, rfl, hbefore⟩ :=
        since_of_append (fun o ho => (hkeeps.unplanned o ho).2) hlog
      obtain ⟨spared, covered, hparted⟩ := hkept.parted hstrategy before first other m earlier
        hbefore fun o ho => hlast o (List.mem_append_right _ ho)
      exact hparted.keep hkeeps hmove.specs

variable {strategy : RestartStrategy} {maxRestarts restartWindow : Nat} {s : Sys}

theorem scopeKept_of_reaches
    (hreach : Sys.Reaches rules.Allows strategy maxRestarts restartWindow s) :
    ScopeKept s.config := by
  have hstart : ScopeKept (Sys.init strategy maxRestarts restartWindow).config := by
    constructor
    · intro o ho
      cases ho
    · intro _ since first failed n earlier hlog
      exact absurd hlog.symm (List.append_ne_nil_of_right_ne_nil _ (by simp))
  exact hreach.books hstart fun c d hsound hkept hmove => hkept.step hsound.nodup hmove

/-- Whatever a turn plans covers the children from the failed one on, stops those
that hold an occupant, newest first, and restarts, in start order, those that are
neither temporary nor released; what is absorbed before a retry changes neither
for the children that are left. Under `RestForOne`, from the first plan of a group
on, neither it nor any retry covers, stops or starts a child that the first plan
left out and that was not spawned since. -/
theorem group_plans_cover_and_spare
    (hreach : Sys.Reaches Machine.always strategy maxRestarts restartWindow s) :
    (∀ (ev : Report) (work : List Report),
      (∀ life, s.sup.registry.life ev.childId = some life →
        reportClass life ev.incarnation ≠ .stale) → Plans s.sup ev work) ∧
      (s.sup.strategy = .restForOne → ∀ since first failed n earlier,
        s.sup.log = since ++ .planned first :: .evaluated failed n .restartGroup :: earlier →
        (∀ o ∈ since, o.firstPlan = false) →
        ∀ b, b ∉ first.map Committed.id → (∀ m, Obs.spawned b m ∉ since) →
          (∀ o ∈ since, ¬ o.Concerns b) ∧
            (b ∈ s.sup.registry.ids →
              ∀ phase, s.sup.pendingGroup = some phase → phase.Spares b)) := by
  constructor
  · intro ev work hopen
    cases hget : s.sup.registry.get ev.childId with
    | none => exact plans_gone hget
    | some =>
      exact plans_turn hreach.free.simulated.2.2.nodup hget (hopen _ (Registry.life_of_get hget))
  · intro hstrategy since first failed n earlier hlog hlast b hfirst hspawned
    obtain ⟨spared, covered, hparted⟩ :=
      (scopeKept_of_reaches hreach.free).parted hstrategy since first failed n earlier hlog hlast
    refine ⟨hparted.quiet b hfirst hspawned, fun hid => ?_⟩
    have hids : s.sup.registry.ids = spared ++ covered := hparted.ids
    rw [hids, List.mem_append] at hid
    rcases hid with hb | hb
    · exact (hparted.alone b hb).group
    · rcases hparted.inside b hb with hin | ⟨m, hm⟩
      · exact absurd hin hfirst
      · exact absurd hm (hspawned m)

/-- The second of three children fails, and so does the attempt that restarts it
after the third was stopped. -/
def frontFailed : List Action :=
  [[spawned 1 "a", spawned 2 "b", spawned 3 "c", .loop (.return none)],
    incarnationEnds 2 crash, endHandled 2, [.loop (.return none), .loop (.work none)],
    incarnationEnds 3 .parentRequest, endHandled 3, [.loop (.return none), .loop (.work none)],
    [.env (.attemptProceeds 4), .env (.attemptChecked 4), .env (.attemptUnbuilt 4 (.user "boom")),
      .loop (.pollRestart 4)]].flatten

set_option maxRecDepth 20000 in
theorem frontFailed_goes :
    (Machine.run Sys.step (Sys.init .restForOne 9 1000) frontFailed).isSome = true := by
  decide +kernel

/-- The state in which the failed attempt of the chain is handled. -/
def atFailedFront : Sys :=
  (Machine.run Sys.step (Sys.init .restForOne 9 1000) frontFailed).get frontFailed_goes

theorem atFailedFront_reached : Sys.Reaches Machine.always .restForOne 9 1000 atFailedFront :=
  Machine.reaches_get frontFailed_goes

set_option maxRecDepth 20000 in
theorem atFailedFront_open : ∀ life, atFailedFront.sup.registry.life 2 = some life →
    reportClass life 4 ≠ .stale := by
  have hlife : atFailedFront.sup.registry.life 2 = some (.restarting 2 4) := by decide +kernel
  intro life hsome
  rw [hlife] at hsome
  cases hsome
  decide

set_option maxRecDepth 20000 in
/-- The plan of the group's first retry, and the first child, which it leaves alone. -/
theorem group_plans_cover_and_spare_failedFront :
    ((atFailedFront.sup.routeReport ⟨2, crash, 4⟩).2.1 = .chainRetry ∧
      Plans atFailedFront.sup ⟨2, crash, 4⟩ []) ∧
      Obs.ordered 3 3 ∈ atFailedFront.sup.log.take 8 ∧
        ∀ o ∈ atFailedFront.sup.log.take 8, ¬ o.Concerns 1 :=
  ⟨⟨by decide +kernel,
      (group_plans_cover_and_spare atFailedFront_reached).1 _ _ atFailedFront_open⟩,
    by decide +kernel,
    ((group_plans_cover_and_spare atFailedFront_reached).2 (by decide +kernel) _
      [⟨2, 2, ⟨false, false, true⟩⟩, ⟨3, 3, ⟨true, false, true⟩⟩] 2 2
      (atFailedFront.sup.log.drop 10) (by decide +kernel) (by decide +kernel) 1 (by decide)
      (by
        have hnone : ∀ o ∈ atFailedFront.sup.log.take 8, o.drawsFor 1 = none := by decide +kernel
        intro m hmem
        exact absurd (hnone _ hmem) (by simp [Obs.drawsFor]))).1⟩

end TokioActors
