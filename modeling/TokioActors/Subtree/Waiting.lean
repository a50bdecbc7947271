/-
# What a wait on a subtree knows

The signal, the budget and the count below a token change at any time between two
reads of a wait. Whatever changes a token's signal wakes the waits on it
afterwards, whatever raises its budget changes the signal afterwards, and every
change of the count has a generation of its own. So a wait that sleeps, with no
wake on its way, armed its deadline from the count and the budget that stand.
-/

import TokioActors.Subtree.Wait

namespace TokioActors.Subtree

open Machine

/-- A wake of the waits on the token is on its way. -/
def wakeDue (watch : Nat) (parties : List Hold) : Prop :=
  ∃ place ∈ parties, place.wakesNow watch = true

/-- The budget of the token was raised and its signal is about to change. -/
def bumpDue (watch : Nat) (parties : List Hold) : Prop :=
  ∃ place ∈ parties, place.bumpsNow watch = true

/-- What a step of the holds does to the token watched and to what is on its way. -/
structure Watched (token : Token) (wake bump : Prop) (token' : Token) (wake' bump' : Prop) :
    Prop where
  infGen : token.infGen ≤ token'.infGen
  belowGen : token.belowGen ≤ token'.belowGen
  wakes : token.wakes ≤ token'.wakes
  below : token.belowNanos ≤ token'.belowNanos
  gone : token.gone = true → token'.gone = true
  live : token'.infGen = token.infGen → token'.infLive = token.infLive
  signal : token'.signal ≠ token.signal → wake'
  wake : wake → wake' ∨ token.wakes < token'.wakes
  raised : token'.belowNanos ≠ token.belowNanos → bump'
  bump : bump → bump' ∨ token.belowGen < token'.belowGen

theorem Forest.Moved.watched {watch i : Nat} {token token' : Token} {place place' : Hold}
    {parties entering : List Hold} (hplace : parties[i]? = some place)
    (hmoved : Forest.Moved watch token place token' place' entering) :
    Watched token (wakeDue watch parties) (bumpDue watch parties) token'
      (wakeDue watch (parties.set i place' ++ entering))
      (bumpDue watch (parties.set i place' ++ entering)) := by
  obtain ⟨hi, _⟩ := List.getElem?_eq_some_iff.mp hplace
  have hset : place' ∈ parties.set i place' ++ entering :=
    List.mem_append_left _ (List.mem_set hi place')
  refine ⟨hmoved.infGen, hmoved.belowGen, hmoved.wakes, hmoved.below, hmoved.gone, hmoved.live,
    fun hsignal => ?_, fun hwake => ?_, fun hbelow => ⟨place', hset, hmoved.raised hbelow⟩,
    fun hbump => ?_⟩
  · obtain ⟨other, hother, hwakes⟩ := hmoved.signal hsignal
    rcases List.mem_cons.mp hother with rfl | henters
    · exact ⟨other, hset, hwakes⟩
    · exact ⟨other, List.mem_append_right _ henters, hwakes⟩
  · cases hnow : place.wakesNow watch with
    | true => exact Or.inr (hmoved.woke hnow)
    | false =>
      refine Or.inl (Pool.exists_after hplace (fun hwakes => ?_) hwake)
      cases hnow.symm.trans hwakes
  · cases hnow : place.bumpsNow watch with
    | true => exact Or.inr (hmoved.bumped hnow)
    | false =>
      refine Or.inl (Pool.exists_after hplace (fun hbumps => ?_) hbump)
      cases hnow.symm.trans hbumps

/-! ## The stages -/

namespace WaitStage

/-- A re-arm has read the count. -/
def isArmed : WaitStage → Bool
  | .fresh | .loadsBelow | .loadsBound | .loadsLive _ => false
  | _ => true

def isCovered : WaitStage → Bool
  | .fresh | .loadsBelow | .loadsBound | .loadsLive _ | .arms _ => false
  | _ => true

/-- A raise of the budget since it was read is still to be told. -/
def isLoaded : WaitStage → Bool
  | .fresh | .loadsBelow | .checks => false
  | _ => true

/-- What was read last is what the deadline was armed from. -/
def isSettled : WaitStage → Bool
  | .idle | .enabled _ | .floors _ | .parked _ _ | .checks => true
  | _ => false

/-- The subtree was not gone when the signal was read. -/
def isOpen : WaitStage → Bool
  | .floors _ | .parked _ _ | .woken | .checks => true
  | _ => false

/-- How many wakes had been made when the wait registered. -/
def mark? : WaitStage → Option Nat
  | .enabled mark | .floors mark | .parked mark _ => some mark
  | _ => none

/-- The wait registered and then read the signal it had seen. -/
def isAsleep : WaitStage → Bool
  | .floors _ | .parked _ _ => true
  | _ => false

end WaitStage

/-- The deadline is at least the bound of what was read, counted from the clock then. -/
def Covers (wait : SubtreeWait) (armed : Arming) : Prop :=
  match releaseBound armed.belowNanos armed.signal.infLive with
  | none => wait.deadline = none
  | some bound => ∃ deadline, wait.deadline = some deadline ∧ armed.at' + bound ≤ deadline

structure Tracks (token : Token) (wake bump : Prop) (waiter : Waiter) : Prop where
  seen : waiter.stage ≠ .fresh → waiter.wait.seen.infGen ≤ token.infGen ∧
    waiter.wait.seen.belowGen ≤ token.belowGen ∧
    (waiter.wait.seen.gone = true → token.gone = true)
  armedGen : waiter.stage.isArmed = true → waiter.armed.signal.infGen ≤ token.infGen ∧
    (waiter.armed.signal.infGen = token.infGen → waiter.armed.signal.infLive = token.infLive) ∧
    (waiter.wait.seen.gone = false → waiter.wait.seen.infGen ≤ waiter.armed.signal.infGen)
  armedBelow : waiter.stage.isArmed = true → waiter.wait.belowSeen ≤ waiter.armed.belowNanos ∧
    waiter.armed.belowNanos ≤ token.belowNanos
  loadsBound : waiter.stage = .loadsBound → waiter.wait.belowSeen ≤ token.belowNanos
  loadsLive : ∀ below, waiter.stage = .loadsLive below →
    waiter.wait.belowSeen ≤ below ∧ below ≤ token.belowNanos
  arms : ∀ bound, waiter.stage = .arms bound → waiter.lastRead = waiter.armed.signal ∧
    bound = releaseBound waiter.armed.belowNanos waiter.armed.signal.infLive
  covers : waiter.stage.isCovered = true → Covers waiter.wait waiter.armed
  told : waiter.stage.isLoaded = true → waiter.wait.seen.gone = false →
    token.belowNanos ≠ waiter.wait.belowSeen →
      waiter.wait.seen.belowGen < token.belowGen ∨ bump
  opened : waiter.stage.isOpen = true → waiter.wait.seen.gone = false
  marked : ∀ mark, waiter.stage.mark? = some mark → mark ≤ token.wakes
  asleep : waiter.stage.isAsleep = true → ∀ mark, waiter.stage.mark? = some mark →
    token.signal ≠ waiter.wait.seen → mark < token.wakes ∨ wake
  last : waiter.stage.isSettled = true → 0 < waiter.lastRead.infLive →
    waiter.wait.deadline = none

section

variable {token token' : Token} {wake bump wake' bump' : Prop} {waiter after : Waiter} {now : Nat}
  {input : WaitInput}

theorem Tracks.watched (htracks : Tracks token wake bump waiter)
    (hwatched : Watched token wake bump token' wake' bump') :
    Tracks token' wake' bump' waiter where
  seen := by
    intro hstage
    obtain ⟨hinf, hbelow, hgone⟩ := htracks.seen hstage
    exact ⟨hinf.trans hwatched.infGen, hbelow.trans hwatched.belowGen,
      fun h => hwatched.gone (hgone h)⟩
  armedGen := by
    intro hstage
    obtain ⟨hle, hlive, hseen⟩ := htracks.armedGen hstage
    refine ⟨hle.trans hwatched.infGen, fun heq => ?_, hseen⟩
    have hsame : token'.infGen = token.infGen := le_antisymm (heq ▸ hle) hwatched.infGen
    rw [hwatched.live hsame]
    exact hlive (heq.trans hsame)
  armedBelow := fun hstage =>
    ⟨(htracks.armedBelow hstage).1, (htracks.armedBelow hstage).2.trans hwatched.below⟩
  loadsBound := fun hstage => (htracks.loadsBound hstage).trans hwatched.below
  loadsLive := fun below hstage =>
    ⟨(htracks.loadsLive below hstage).1, (htracks.loadsLive below hstage).2.trans hwatched.below⟩
  arms := htracks.arms
  covers := htracks.covers
  told := by
    intro hstage hopen hbelow
    by_cases hsame : token'.belowNanos = token.belowNanos
    · rw [hsame] at hbelow
      rcases htracks.told hstage hopen hbelow with hlt | hbump
      · exact Or.inl (hlt.trans_le hwatched.belowGen)
      · rcases hwatched.bump hbump with hbump' | hlt
        · exact Or.inr hbump'
        · refine Or.inl (lt_of_le_of_lt (htracks.seen ?_).2.1 hlt)
          intro hfresh
          rw [hfresh] at hstage
          cases hstage
    · exact Or.inr (hwatched.raised hsame)
  opened := htracks.opened
  marked := fun mark hmark => (htracks.marked mark hmark).trans hwatched.wakes
  asleep := by
    intro hstage mark hmark hsignal
    by_cases hsame : token'.signal = token.signal
    · rw [hsame] at hsignal
      rcases htracks.asleep hstage mark hmark hsignal with hlt | hwake
      · exact Or.inl (hlt.trans_le hwatched.wakes)
      · rcases hwatched.wake hwake with hwake' | hlt
        · exact Or.inr hwake'
        · exact Or.inl (lt_of_le_of_lt (htracks.marked mark hmark) hlt)
    · exact Or.inr (hwatched.signal hsame)
  last := htracks.last

/-! ## A step of the wait -/

theorem releaseBound_le {below live bound : Nat} (hbound : releaseBound below live = some bound) :
    bound ≤ farFuture := by
  obtain ⟨whole, _, rfl⟩ := Option.map_eq_some_iff.mp hbound
  exact Nat.min_le_right _ _

theorem releaseBound_live {below live : Nat} (hlive : 0 < live) :
    releaseBound below live = none := by
  unfold releaseBound successorBound
  rw [if_pos hlive]
  rfl

theorem Covers.deadline_eq_none {wait : SubtreeWait} {armed : Arming} (hcovers : Covers wait armed)
    (hlive : 0 < armed.signal.infLive) : wait.deadline = none := by
  unfold Covers at hcovers
  rwa [releaseBound_live hlive] at hcovers

/-- The clock is read after the bound, and a deadline only ever grows by it. -/
theorem covers_arm {wait : SubtreeWait} {armed : Arming} :
    Covers (wait.arm now (releaseBound armed.belowNanos armed.signal.infLive))
      { armed with at' := now } := by
  unfold Covers
  cases hbound : releaseBound armed.belowNanos armed.signal.infLive with
  | none => rfl
  | some bound =>
    have hle : now + bound ≤ saturatingDeadline now bound := by
      unfold saturatingDeadline
      rw [Nat.min_eq_left (releaseBound_le hbound)]
    refine ⟨_, rfl, ?_⟩
    cases wait.deadline with
    | none => exact hle
    | some => exact hle.trans (le_max_right _ _)

/-- What the wait was armed from is what stands, when its generation is. -/
theorem Tracks.deadline_eq_none (htracks : Tracks token wake bump waiter)
    (harmed : waiter.stage.isArmed = true) (hcovered : waiter.stage.isCovered = true)
    (hopen : waiter.wait.seen.gone = false)
    (hgen : token.infGen = waiter.wait.seen.infGen) (hlive : 0 < token.infLive) :
    waiter.wait.deadline = none := by
  obtain ⟨hle, hsame, hseen⟩ := htracks.armedGen harmed
  have heq : waiter.armed.signal.infGen = token.infGen :=
    le_antisymm hle (hgen ▸ hseen hopen)
  exact (htracks.covers hcovered).deadline_eq_none (hsame heq ▸ hlive)

section

variable {wait : SubtreeWait} {old stage : WaitStage} {lastRead read : SubtreeSignal}
  {armed : Arming} {bound : Option Nat} {mark : Nat}

/-- An armed wait goes on with what it was armed from. -/
theorem Tracks.goOn (htracks : Tracks token wake bump ⟨wait, old, lastRead, armed⟩)
    (hold : old.isCovered = true) (hstage : stage.isCovered = true)
    (hloaded : stage.isLoaded = true → old.isLoaded = true)
    (hopen : stage.isOpen = true → wait.seen.gone = false)
    (hmarked : ∀ mark, stage.mark? = some mark → mark ≤ token.wakes)
    (hasleep : stage.isAsleep = true → ∀ mark, stage.mark? = some mark →
      token.signal ≠ wait.seen → mark < token.wakes ∨ wake)
    (hlast : stage.isSettled = true → 0 < read.infLive → wait.deadline = none) :
    Tracks token wake bump ⟨wait, stage, read, armed⟩ := by
  have harmed : old.isArmed = true := by
    cases old <;> first | rfl | cases hold
  refine ⟨fun _ => htracks.seen ?_, fun _ => htracks.armedGen harmed,
    fun _ => htracks.armedBelow harmed, ?_, ?_, ?_, fun _ => htracks.covers hold,
    fun h => htracks.told (hloaded h), hopen, hmarked, hasleep, hlast⟩
  · rintro rfl
    cases hold
  · rintro rfl
    cases hstage
  · rintro _ rfl
    cases hstage
  · rintro _ rfl
    cases hstage

/-- A re-arm ends with the deadline of what it read. -/
theorem Tracks.arm (htracks : Tracks token wake bump ⟨wait, .arms bound, lastRead, armed⟩) :
    Tracks token wake bump ⟨wait.arm now bound, .idle, lastRead, { armed with at' := now }⟩ := by
  have hboth : lastRead = armed.signal ∧
      bound = releaseBound armed.belowNanos armed.signal.infLive := htracks.arms bound rfl
  have hcovers : Covers (wait.arm now bound) { armed with at' := now } := by
    rw [hboth.2]
    exact covers_arm
  have hseen : (wait.arm now bound).seen = wait.seen := by
    cases bound <;> rfl
  have hbelow : (wait.arm now bound).belowSeen = wait.belowSeen := by
    cases bound <;> rfl
  refine ⟨?_, ?_, ?_, nofun, nofun, nofun, fun _ => hcovers, ?_, nofun, nofun, nofun,
    fun _ hlive => hcovers.deadline_eq_none (hboth.1 ▸ hlive)⟩ <;> intro _ <;>
    simp only [hseen, hbelow]
  · exact htracks.seen nofun
  · exact htracks.armedGen rfl
  · exact htracks.armedBelow rfl
  · exact htracks.told rfl

/-- A registered wait reads the signal before it sleeps. -/
theorem Tracks.enabled (htracks : Tracks token wake bump ⟨wait, .enabled mark, lastRead, armed⟩)
    (hgone : token.gone = true → token.infLive = 0) :
    Tracks token wake bump ⟨wait, if token.gone then .idle
      else if token.signal = wait.seen then .floors mark else .woken, token.signal, armed⟩ := by
  by_cases hdead : token.gone = true
  · rw [if_pos hdead]
    refine htracks.goOn rfl rfl (fun _ => rfl) nofun nofun nofun fun _ hlive => ?_
    exact absurd (hgone hdead) (Nat.ne_of_gt hlive)
  rw [if_neg hdead]
  have hopen : wait.seen.gone = false := by
    cases hread : wait.seen.gone with
    | false => rfl
    | true => exact absurd ((htracks.seen nofun).2.2 hread) hdead
  split
  next hsame =>
    refine htracks.goOn rfl rfl (fun _ => rfl) (fun _ => hopen) htracks.marked
      (fun _ _ _ hne => absurd hsame hne) fun _ hlive => ?_
    exact htracks.deadline_eq_none rfl rfl hopen (congrArg SubtreeSignal.infGen hsame) hlive
  · exact htracks.goOn rfl rfl (fun _ => rfl) (fun _ => hopen) nofun nofun nofun

/-- A woken wait reads the signal again. -/
theorem Tracks.woken (htracks : Tracks token wake bump ⟨wait, .woken, lastRead, armed⟩)
    (hgone : token.gone = true → token.infLive = 0) :
    Tracks token wake bump ⟨{ wait with seen := token.signal }, if token.gone then .idle
      else if token.infGen ≠ wait.seen.infGen then .loadsBelow
      else if token.belowGen ≠ wait.seen.belowGen then .checks
      else .idle, token.signal, armed⟩ := by
  have hopen : wait.seen.gone = false := htracks.opened rfl
  obtain ⟨hle, hlive, hseen⟩ := htracks.armedGen rfl
  by_cases hdead : token.gone = true
  · rw [if_pos hdead]
    have hshut {p : Prop} (hread : token.signal.gone = false) : p := by
      cases hdead.symm.trans hread
    exact ⟨fun _ => ⟨le_rfl, le_rfl, id⟩, fun _ => ⟨hle, hlive, hshut⟩,
      fun _ => htracks.armedBelow rfl, nofun, nofun, nofun, fun _ => htracks.covers rfl,
      fun _ hread => hshut hread, nofun, nofun, nofun,
      fun _ hpos => absurd (hgone hdead) (Nat.ne_of_gt hpos)⟩
  rw [if_neg hdead]
  by_cases hgen : token.infGen = wait.seen.infGen
  · rw [if_neg (not_not.mpr hgen)]
    have hseen' : token.signal.infGen ≤ armed.signal.infGen := hgen.trans_le (hseen hopen)
    have hlast (hpos : 0 < token.signal.infLive) : wait.deadline = none :=
      htracks.deadline_eq_none rfl rfl hopen hgen hpos
    by_cases hbelow : token.belowGen = wait.seen.belowGen
    · rw [if_neg (not_not.mpr hbelow)]
      refine ⟨fun _ => ⟨le_rfl, le_rfl, id⟩, fun _ => ⟨hle, hlive, fun _ => hseen'⟩,
        fun _ => htracks.armedBelow rfl, nofun, nofun, nofun, fun _ => htracks.covers rfl, ?_,
        nofun, nofun, nofun, fun _ => hlast⟩
      intro _ _ hraised
      refine (htracks.told rfl hopen hraised).imp_left fun hlt => ?_
      exact absurd hbelow (Nat.ne_of_gt hlt)
    · rw [if_pos hbelow]
      exact ⟨fun _ => ⟨le_rfl, le_rfl, id⟩, fun _ => ⟨hle, hlive, fun _ => hseen'⟩,
        fun _ => htracks.armedBelow rfl, nofun, nofun, nofun, fun _ => htracks.covers rfl, nofun,
        fun _ => Bool.eq_false_iff.mpr hdead, nofun, nofun, fun _ => hlast⟩
  · rw [if_pos hgen]
    exact ⟨fun _ => ⟨le_rfl, le_rfl, id⟩, nofun, nofun, nofun, nofun, nofun, nofun, nofun, nofun,
      nofun, nofun, nofun⟩

end

theorem Tracks.next (htracks : Tracks token wake bump waiter)
    (hgone : token.gone = true → token.infLive = 0)
    (hnext : waiter.next token now input = some after) : Tracks token wake bump after := by
  obtain ⟨wait, stage, lastRead, armed⟩ := waiter
  cases stage with
  | fresh =>
    cases input <;> cases hnext
    exact ⟨fun _ => ⟨le_rfl, le_rfl, id⟩, nofun, nofun, nofun, nofun, nofun, nofun, nofun, nofun,
      nofun, nofun, nofun⟩
  | loadsBelow =>
    cases input <;> cases hnext
    exact ⟨fun _ => htracks.seen nofun, nofun, nofun, fun _ => le_rfl, nofun, nofun, nofun,
      fun _ _ hbelow => absurd rfl hbelow, nofun, nofun, nofun, nofun⟩
  | loadsBound =>
    cases input <;> cases hnext
    refine ⟨fun _ => htracks.seen nofun, nofun, nofun, nofun, ?_, nofun, nofun,
      fun _ => htracks.told rfl, nofun, nofun, nofun, nofun⟩
    rintro below ⟨⟩
    exact ⟨htracks.loadsBound rfl, le_rfl⟩
  | loadsLive below =>
    cases input <;> cases hnext
    refine ⟨fun _ => htracks.seen nofun, fun _ => ⟨le_rfl, fun _ => rfl, fun _ => ?_⟩,
      fun _ => htracks.loadsLive below rfl, nofun, nofun, ?_, nofun, fun _ => htracks.told rfl,
      nofun, nofun, nofun, nofun⟩
    · exact (htracks.seen nofun).1
    · rintro bound ⟨⟩
      exact ⟨rfl, rfl⟩
  | arms =>
    cases input <;> cases hnext
    exact htracks.arm
  | idle =>
    cases input <;> cases hnext
    refine htracks.goOn rfl rfl (fun _ => rfl) nofun ?_ nofun fun _ => htracks.last rfl
    rintro mark ⟨⟩
    exact le_rfl
  | enabled =>
    cases input <;> cases hnext
    exact htracks.enabled hgone
  | floors =>
    cases input <;> cases hnext
    exact htracks.goOn rfl rfl (fun _ => rfl) (fun _ => htracks.opened rfl) htracks.marked
      (fun _ => htracks.asleep rfl) fun _ => htracks.last rfl
  | parked mark until' =>
    have hidle : Tracks token wake bump ⟨wait, .idle, lastRead, armed⟩ :=
      htracks.goOn rfl rfl (fun _ => rfl) nofun nofun nofun fun _ => htracks.last rfl
    cases input with
    | go =>
      simp only [Waiter.next, Option.ite_none_right_eq_some] at hnext
      obtain ⟨_, hnext⟩ := hnext
      cases hnext
      exact htracks.goOn rfl rfl (fun _ => rfl) (fun _ => htracks.opened rfl) nofun nofun nofun
    | timer =>
      cases until' with
      | none => cases hnext
      | some =>
        simp only [Waiter.next, Option.ite_none_right_eq_some] at hnext
        obtain ⟨_, hnext⟩ := hnext
        cases hnext
        exact hidle
    | cancel =>
      cases hnext
      exact hidle
  | woken =>
    cases input <;> cases hnext
    exact htracks.woken hgone
  | checks =>
    cases input <;> cases hnext
    by_cases hraised : token.belowNanos = wait.belowSeen
    · rw [if_neg (not_not.mpr hraised)]
      exact ⟨fun _ => htracks.seen nofun, fun _ => htracks.armedGen rfl,
        fun _ => htracks.armedBelow rfl, nofun, nofun, nofun, fun _ => htracks.covers rfl,
        fun _ _ hbelow => absurd hraised hbelow, nofun, nofun, nofun, fun _ => htracks.last rfl⟩
    · rw [if_pos hraised]
      exact ⟨fun _ => htracks.seen nofun, nofun, nofun, nofun, nofun, nofun, nofun, nofun, nofun,
        nofun, nofun, nofun⟩

end

/-! ## Whole runs -/

namespace WaitRun

section

variable {watch : Nat} {allowed : WaitRun → WaitLabel → Prop} {run later after : WaitRun}
  {label : WaitLabel} {waiter : Waiter} {deadline : Nat}

def token (watch : Nat) (run : WaitRun) : Token := run.pool.shared.node watch

theorem pool_reached (hreach : Reaches (step watch) allowed {} run) :
    Reaches (Pool.step Forest.next) always Forest.start run.pool := by
  induction hreach with
  | refl => exact .refl
  | @tail run after label _ _ htaken ih =>
    cases label with
    | hold =>
      obtain ⟨pool, hpool, rfl⟩ := Option.map_eq_some_iff.mp htaken
      exact ih.tail trivial hpool
    | tick =>
      cases htaken
      exact ih
    | wait =>
      simp only [step, Option.ite_none_right_eq_some] at htaken
      obtain ⟨_, hwaits⟩ := htaken
      obtain ⟨waiter, _, rfl⟩ := Option.map_eq_some_iff.mp hwaits
      exact ih

/-- A wait that was begun has its token. -/
def Begun (watch : Nat) (run : WaitRun) : Prop :=
  run.waiter = {} ∨ watch < run.pool.shared.size

theorem tracks_fresh {token : Token} {wake bump : Prop} : Tracks token wake bump {} :=
  ⟨fun h => absurd rfl h, nofun, nofun, nofun, nofun, nofun, nofun, nofun, nofun, nofun, nofun,
    nofun⟩

theorem tracks_step (hreach : Reaches (step watch) allowed {} run)
    (hunwrapped : run.pool.shared.Unwrapped)
    (hbegun : Begun watch run)
    (htracks : Tracks (run.token watch) (wakeDue watch run.pool.parties)
      (bumpDue watch run.pool.parties) run.waiter)
    (htaken : run.step watch label = some after) :
    Begun watch after ∧ Tracks (after.token watch) (wakeDue watch after.pool.parties)
      (bumpDue watch after.pool.parties) after.waiter := by
  cases label with
  | hold =>
    obtain ⟨pool, hpool, rfl⟩ := Option.map_eq_some_iff.mp htaken
    obtain ⟨place, forest, place', entering, hplace, hnext, rfl⟩ :=
      Pool.step_eq_some hpool
    rcases hbegun with hfresh | hwatch
    · refine ⟨Or.inl hfresh, ?_⟩
      rw [hfresh]
      exact tracks_fresh
    · have hsize : watch < forest.size :=
        ((Forest.turn_of_next hnext).below_le hwatch).1
      exact ⟨Or.inr hsize,
        htracks.watched ((Forest.moved_of_next hwatch hunwrapped hnext).watched hplace)⟩
  | tick =>
    cases htaken
    exact ⟨hbegun, htracks⟩
  | wait =>
    simp only [step, Option.ite_none_right_eq_some] at htaken
    obtain ⟨hwatch, hwaits⟩ := htaken
    obtain ⟨waiter, hnext, rfl⟩ := Option.map_eq_some_iff.mp hwaits
    refine ⟨Or.inr hwatch, htracks.next (fun hgone => ?_) hnext⟩
    exact Forest.infLive_of_gone (pool_reached hreach) hwatch hgone

theorem tracks_reached (hunwrapped : ∀ run label, allowed run label → run.pool.shared.Unwrapped)
    (hreach : Reaches (step watch) allowed {} run) :
    Begun watch run ∧ Tracks (run.token watch) (wakeDue watch run.pool.parties)
      (bumpDue watch run.pool.parties) run.waiter := by
  induction hreach with
  | refl => exact ⟨Or.inl rfl, tracks_fresh⟩
  | @tail run after label hbefore hmeets htaken ih =>
    exact tracks_step hbefore (hunwrapped run label hmeets) ih.1 ih.2 htaken

/-- A deadline that is armed is moved later, or disarmed. -/
theorem deadline_next {token : Token} {now : Nat} {after : Waiter} {input : WaitInput}
    (hnext : waiter.next token now input = some after)
    (hbefore : waiter.wait.deadline = some deadline) :
    after.wait.deadline = none ∨ ∃ moved, after.wait.deadline = some moved ∧ deadline ≤ moved := by
  have hsame {deadline' : Option Nat} (heq : deadline' = waiter.wait.deadline) :
      deadline' = none ∨ ∃ moved, deadline' = some moved ∧ deadline ≤ moved :=
    Or.inr ⟨deadline, heq.trans hbefore, le_rfl⟩
  unfold Waiter.next at hnext
  split at hnext
  case h_5 bound _ =>
    cases hnext
    cases bound with
    | none => exact Or.inl rfl
    | some =>
      refine Or.inr ⟨_, rfl, ?_⟩
      rw [hbefore]
      exact le_max_left _ _
  case h_1 =>
    cases hnext
    exact Or.inl rfl
  case h_9 | h_10 =>
    rw [Option.ite_none_right_eq_some] at hnext
    cases hnext.2
    exact hsame rfl
  case h_14 => cases hnext
  all_goals
    cases hnext
    exact hsame rfl

theorem deadline_step (htaken : run.step watch label = some after)
    (hbefore : run.waiter.wait.deadline = some deadline) :
    after.waiter.wait.deadline = none ∨
      ∃ moved, after.waiter.wait.deadline = some moved ∧ deadline ≤ moved := by
  cases label with
  | hold =>
    obtain ⟨pool, _, rfl⟩ := Option.map_eq_some_iff.mp htaken
    exact Or.inr ⟨deadline, hbefore, le_rfl⟩
  | tick =>
    cases htaken
    exact Or.inr ⟨deadline, hbefore, le_rfl⟩
  | wait =>
    simp only [step, Option.ite_none_right_eq_some] at htaken
    obtain ⟨_, hwaits⟩ := htaken
    obtain ⟨waiter, hnext, rfl⟩ := Option.map_eq_some_iff.mp hwaits
    exact deadline_next hnext hbefore

/-- As long as the wait stays bounded its deadline never moves earlier. -/
theorem deadline_later (hbefore : run.waiter.wait.deadline = some deadline)
    (hreach : Reaches (step watch) (fun run _ => run.waiter.wait.deadline.isSome = true) run
      later) :
    later.waiter.wait.deadline = none ∨
      ∃ moved, later.waiter.wait.deadline = some moved ∧ deadline ≤ moved := by
  induction hreach with
  | refl => exact Or.inr ⟨deadline, hbefore, le_rfl⟩
  | tail _ hbounded htaken ih =>
    rcases ih with hnone | ⟨moved, hmoved, hle⟩
    · rw [hnone] at hbounded
      cases hbounded
    · refine (deadline_step htaken hmoved).imp_right fun ⟨last, hlast, hlater⟩ => ?_
      exact ⟨last, hlast, hle.trans hlater⟩

/-- A wait that sleeps with no wake on its way has read what stands. -/
theorem at_rest {token : Token} {wake bump : Prop} (htracks : Tracks token wake bump waiter)
    {mark : Nat} {until' : Option Nat} (hparked : waiter.stage = .parked mark until')
    (hunwoken : ¬ mark < token.wakes) (hwake : ¬ wake) (hbump : ¬ bump) :
    waiter.wait.seen = token.signal ∧ waiter.armed.signal.infGen = token.infGen ∧
      waiter.armed.signal.infLive = token.infLive ∧
      waiter.armed.belowNanos = token.belowNanos := by
  have hseen : token.signal = waiter.wait.seen := by
    by_contra hne
    rcases htracks.asleep (by rw [hparked]; rfl) mark (by rw [hparked]; rfl) hne with hlt | hdue
    · exact hunwoken hlt
    · exact hwake hdue
  have hopen : waiter.wait.seen.gone = false := htracks.opened (by rw [hparked]; rfl)
  have hbelow : token.belowNanos = waiter.wait.belowSeen := by
    by_contra hne
    rcases htracks.told (by rw [hparked]; rfl) hopen hne with hlt | hdue
    · rw [← hseen] at hlt
      exact lt_irrefl _ hlt
    · exact hbump hdue
  obtain ⟨hle, hlive, hfrom⟩ := htracks.armedGen (by rw [hparked]; rfl)
  obtain ⟨hloaded, hread⟩ := htracks.armedBelow (by rw [hparked]; rfl)
  have hgen := hfrom hopen
  rw [← hseen] at hgen
  have hsame := le_antisymm hle hgen
  exact ⟨hseen.symm, hsame, hlive hsame, le_antisymm hread (hbelow ▸ hloaded)⟩

/-- In every run of a wait on a subtree, with actors attached, ended and turning bounded
or unbounded at any time. While the wait stays bounded its deadline never moves
earlier. The subtree reads as gone only when nobody keeps a token of it any more. And
as long as no generation wraps: a wait that last read an unbounded supervisor below
does not expire; its deadline is at least the bound of the budget it was last armed
from, counted from the clock it read after the budget; and a wait that sleeps with no
wake and no change of the signal on its way has seen the signal that stands and was
armed from the count and the budget that stand, after the last change of the count: a
count that changed and came back arms it anew. -/
theorem wait_follows_its_subtree (hreach : Reaches (step watch) allowed {} run) :
    (∀ later deadline, run.waiter.wait.deadline = some deadline →
      Reaches (step watch) (fun run _ => run.waiter.wait.deadline.isSome = true) run later →
      later.waiter.wait.deadline = none ∨
        ∃ moved, later.waiter.wait.deadline = some moved ∧ deadline ≤ moved) ∧
    ((run.token watch).gone = true → ∀ place ∈ run.pool.parties, ∀ node,
      place.keeping = some node → node ≠ watch ∧ watch ∉ (run.pool.shared.node node).above) ∧
    ((∀ before label, allowed before label → before.pool.shared.Unwrapped) →
      (run.waiter.stage.isSettled = true → 0 < run.waiter.lastRead.infLive →
        ∀ now, run.waiter.wait.expired (run.token watch) now = false) ∧
      (run.waiter.stage.isCovered = true → Covers run.waiter.wait run.waiter.armed) ∧
      (∀ mark until', run.waiter.stage = .parked mark until' → ¬ mark < (run.token watch).wakes →
        ¬ wakeDue watch run.pool.parties → ¬ bumpDue watch run.pool.parties →
          run.waiter.wait.seen = (run.token watch).signal ∧
          run.waiter.armed.signal.infGen = (run.token watch).infGen ∧
          run.waiter.armed.signal.infLive = (run.token watch).infLive ∧
          run.waiter.armed.belowNanos = (run.token watch).belowNanos)) := by
  refine ⟨fun later deadline hbefore hlater => deadline_later hbefore hlater, ?_, ?_⟩
  · intro hgone place hplace node hkeeping
    exact Forest.not_keeping_of_gone (pool_reached hreach) hgone hplace hkeeping
  · intro hunwrapped
    obtain ⟨_, htracks⟩ := tracks_reached hunwrapped hreach
    refine ⟨fun hsettled hlive now => ?_, htracks.covers,
      fun mark until' hparked hunwoken hwake hbump =>
        at_rest htracks hparked hunwoken hwake hbump⟩
    unfold SubtreeWait.expired SubtreeWait.verdictAt
    rw [htracks.last hsettled hlive]
    rfl

end

/-- An unbounded supervisor below a root ends while a wait on the root sleeps; the wait
is woken and arms its deadline. -/
def supervisorEnds : List WaitLabel :=
  .hold (0, .root) :: .hold (0, .attach 0 true .infinity 5) :: List.replicate 7 (.hold (2, .go)) ++
    List.replicate 8 (.wait .go) ++ .tick 10 :: List.replicate 6 (.hold (2, .go)) ++
    List.replicate 9 (.wait .go)

theorem supervisorEnds_goes : (runWhere (step 0) (fun run _ => run.pool.shared.Unwrapped) {}
      supervisorEnds).isSome = true := by
  decide +kernel

theorem wait_follows_its_subtree_supervisor :
    let run := (runWhere (step 0) (fun run _ => run.pool.shared.Unwrapped) {}
      supervisorEnds).get supervisorEnds_goes
    run.waiter.armed.signal.infGen = (run.token 0).infGen ∧
      run.waiter.armed.signal.infLive = (run.token 0).infLive ∧
      run.waiter.armed.belowNanos = (run.token 0).belowNanos ∧
      Covers run.waiter.wait run.waiter.armed ∧
      run.waiter.wait.deadline = some (15 + 2 * abortSettle) := by
  have hall := wait_follows_its_subtree (reaches_getWhere supervisorEnds_goes)
  obtain ⟨_, hcovers, hrest⟩ := hall.2.2 fun _ _ hmeets => hmeets
  obtain ⟨_, hgen, hlive, hbelow⟩ := hrest 3 (some (15 + 2 * abortSettle)) (by decide +kernel)
    (by decide +kernel) (by unfold wakeDue; decide +kernel) (by unfold bumpDue; decide +kernel)
  exact ⟨hgen, hlive, hbelow, hcovers (by decide +kernel), by decide +kernel⟩

/-- A worker below a root with a grace of forty years. -/
def longGrace : List WaitLabel :=
  .hold (0, .root) :: .hold (0, .attach 0 false .infinity (40 * 365 * 24 * 3600 * 10 ^ 9)) ::
    List.replicate 4 (.hold (2, .go)) ++ List.replicate 5 (.wait .go)

theorem longGrace_goes : (run (step 0) {} longGrace).isSome = true := by decide +kernel

/-- A deadline is armed at most thirty years ahead, however large the budget is. -/
theorem wait_caps_a_long_budget :
    ∃ run, Reaches (step 0) always {} run ∧ run.waiter.stage = .idle ∧
      (run.token 0).infLive = 0 ∧ run.waiter.armed.belowNanos = (run.token 0).belowNanos ∧
      run.waiter.wait.deadline = some (run.now + farFuture) ∧
      farFuture < (run.token 0).belowNanos :=
  ⟨_, reaches_get longGrace_goes, by decide +kernel, by decide +kernel, by decide +kernel,
    by decide +kernel, by decide +kernel⟩

end WaitRun

end TokioActors.Subtree
