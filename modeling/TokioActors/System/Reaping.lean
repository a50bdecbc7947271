/-
# What becomes of a reaper's entries

From the turns of the entries follows what the log can say of one of them: it
ends once, with the abort of its task or with the task finished, its `Kill` is
raised at most once, and an abort that was not forced by a drop keeps the
deadline and the grace.
-/

import TokioActors.System.ReaperTurns

namespace TokioActors

open ReaperEvent

namespace Reapers

variable {world after : Reapers} {entry : ReaperEntry} {reaper : Reaper} {i : Nat}
  {action : ReapersAction}

/-! ## What the log says -/

def raiseCount (id : Nat) (log : List ReaperEvent) : Nat :=
  log.countP fun event => event.raises == some id

def endCount (id : Nat) (log : List ReaperEvent) : Nat :=
  log.countP fun event => event.ends == some id

/-- What an entry in a container has behind it: it is as it was built, or its
`Kill` was raised at some instant and its abort waits for the grace. -/
inductive Story (world : Reapers) (made entry : ReaperEntry) (grace : Option Nat) : Prop
  | fresh (hsame : entry = made) (hgrace : grace = none)
      (hraises : raiseCount made.id world.log = 0)
  | killed (killAt span instant : Nat) (hmade : made.killAt = some (killAt, span))
      (hkill : entry.killAt = none) (hraised : raised made.id instant ∈ world.log)
      (hdeadline : made.deadline ≤ entry.deadline)
      (howed : (grace = some span ∧ instant ≤ world.now) ∨
        (grace = none ∧ instant + span ≤ entry.deadline))

/-- An entry in a container, with the entry it was built as. -/
structure Fits (world : Reapers) (entry : ReaperEntry) (grace : Option Nat) (made : ReaperEntry) :
    Prop where
  built : built made ∈ world.log
  id : made.id = entry.id
  task : made.task = entry.task
  fired : entry.fired = false
  story : Story world made entry grace

/-- What an event of the log stands for. -/
def Tells (world : Reapers) : ReaperEvent → Prop
  | .built made => made.id < world.count ∧ ∀ killAt grace, made.killAt = some (killAt, grace) →
      killAt + grace = made.deadline ∧ grace ≤ farFuture
  | .raised id instant => ∃ made killAt grace, built made ∈ world.log ∧ made.id = id ∧
      made.killAt = some (killAt, grace) ∧ killAt ≤ instant
  | .fired id task instant => ∃ made, built made ∈ world.log ∧ made.id = id ∧ made.task = task ∧
      made.deadline ≤ instant ∧ ∀ killAt grace, made.killAt = some (killAt, grace) →
        ∃ moment, raised id moment ∈ world.log ∧ killAt ≤ moment ∧ moment + grace ≤ instant
  | .dropped id task _ => ∃ made, built made ∈ world.log ∧ made.id = id ∧ made.task = task
  | .released id task _ => (∃ made, built made ∈ world.log ∧ made.id = id ∧ made.task = task) ∧
      task ∈ world.finished

/-- The account of all entries. -/
structure Sound (world : Reapers) : Prop where
  held : ∀ pair ∈ world.held, ∃ made, Fits world pair.1 pair.2 made
  once : ∀ id, (world.held.map fun pair => pair.1.id).count id + endCount id world.log =
    if id < world.count then 1 else 0
  raisedOnce : ∀ id, raiseCount id world.log ≤ 1
  tells : ∀ event ∈ world.log, Tells world event
  unique : ∀ made other, built made ∈ world.log → built other ∈ world.log → made.id = other.id →
    made = other
  keeps : ∀ reaper ∈ world.reapers, reaper.Keeps

section Step

variable {grace : Option Nat} {made : ReaperEntry} {event : ReaperEvent}
  {rest : List (ReaperEntry × Option Nat)} {id : Nat} {log : List ReaperEvent}

theorem raiseCount_cons (hevent : event.raises ≠ some id) :
    raiseCount id (event :: log) = raiseCount id log := by
  rw [raiseCount, List.countP_cons, if_neg (by simpa using hevent)]
  rfl

theorem endCount_cons (hevent : event.ends ≠ some id) :
    endCount id (event :: log) = endCount id log := by
  rw [endCount, List.countP_cons, if_neg (by simpa using hevent)]
  rfl

theorem endCount_cons_self (hevent : event.ends = some id) :
    endCount id (event :: log) = endCount id log + 1 := by
  rw [endCount, List.countP_cons, if_pos (by simp [hevent])]
  rfl

/-- An entry's account outlives every step that does not raise its `Kill`. -/
theorem Fits.mono (hfits : Fits world entry grace made) (hlog : world.log ⊆ after.log)
    (hnow : world.now ≤ after.now)
    (hraises : raiseCount entry.id after.log = raiseCount entry.id world.log) :
    Fits after entry grace made := by
  refine ⟨hlog hfits.built, hfits.id, hfits.task, hfits.fired, ?_⟩
  cases hfits.story with
  | fresh hsame hgrace hnone =>
    rw [hfits.id] at hnone
    exact .fresh hsame hgrace (by rw [hfits.id, hraises, hnone])
  | killed killAt span instant hmade hkill hraised hdeadline howed =>
    refine .killed killAt span instant hmade hkill (hlog hraised) hdeadline ?_
    exact howed.imp_left fun howed => ⟨howed.1, howed.2.trans hnow⟩

/-- What an event stands for it stands for ever after. -/
theorem Tells.mono (htells : Tells world event) (hlog : world.log ⊆ after.log)
    (hcount : world.count ≤ after.count) (hfinished : world.finished ⊆ after.finished) :
    Tells after event := by
  cases event with
  | built => exact ⟨htells.1.trans_le hcount, htells.2⟩
  | raised =>
    obtain ⟨made, killAt, grace, hbuilt, hrest⟩ := htells
    exact ⟨made, killAt, grace, hlog hbuilt, hrest⟩
  | fired =>
    obtain ⟨made, hbuilt, hid, htask, hdue, hgrace⟩ := htells
    refine ⟨made, hlog hbuilt, hid, htask, hdue, fun killAt grace hkill => ?_⟩
    obtain ⟨moment, hraised, hle⟩ := hgrace killAt grace hkill
    exact ⟨moment, hlog hraised, hle⟩
  | dropped =>
    obtain ⟨made, hbuilt, hrest⟩ := htells
    exact ⟨made, hlog hbuilt, hrest⟩
  | released =>
    obtain ⟨⟨made, hbuilt, hrest⟩, hover⟩ := htells
    exact ⟨⟨made, hlog hbuilt, hrest⟩, hfinished hover⟩

/-- An entry is in one container only. -/
theorem Sound.alone (hsound : Sound world) (hheld : world.held.Perm ((entry, grace) :: rest)) :
    ∀ pair ∈ rest, pair.1.id ≠ entry.id := by
  intro pair hpair hid
  have honce := hsound.once entry.id
  rw [(hheld.map fun pair => pair.1.id).count_eq, List.map_cons, List.count_cons_self] at honce
  have hpos : 0 < (rest.map fun pair => pair.1.id).count entry.id :=
    List.count_pos_iff.mpr (List.mem_map.mpr ⟨pair, hpair, hid⟩)
  split at honce <;> omega

theorem Sound.raiseCount_count (hsound : Sound world) : raiseCount world.count world.log = 0 := by
  rw [raiseCount, List.countP_eq_zero]
  intro event hevent hraises
  cases event with
  | raised id =>
    obtain ⟨made, killAt, grace, hbuilt, hid, _⟩ := hsound.tells _ hevent
    obtain rfl : id = world.count := by simpa [ReaperEvent.raises] using hraises
    have := (hsound.tells _ hbuilt).1
    omega
  | _ => simp [ReaperEvent.raises] at hraises

/-- The event that ends an entry says nothing else of it, and raises nothing. -/
theorem Ending.spec (hending : Ending world.now world.finished entry grace event) :
    event.ends = some entry.id ∧ event.raises = none ∧ ∀ made, event ≠ built made := by
  cases hending <;> exact ⟨rfl, rfl, nofun⟩

/-- What the end of an entry stands for. -/
theorem Fits.tells (hfits : Fits world entry grace made)
    (hraised : ∀ instant, raised made.id instant ∈ world.log → ∀ killAt span,
      made.killAt = some (killAt, span) → killAt ≤ instant)
    (hending : Ending world.now world.finished entry grace event) : Tells world event := by
  cases hending with
  | released hfinished => exact ⟨⟨made, hfits.built, hfits.id, hfits.task⟩, hfinished⟩
  | dropped => exact ⟨made, hfits.built, hfits.id, hfits.task⟩
  | fired _ hgrace hkill hdue =>
    refine ⟨made, hfits.built, hfits.id, hfits.task, ?_⟩
    cases hfits.story with
    | fresh hsame =>
      subst hsame
      refine ⟨hdue, fun killAt span hmade => ?_⟩
      rw [hkill] at hmade
      cases hmade
    | killed killAt span instant hmade _ hmoment hdeadline howed =>
      refine ⟨hdeadline.trans hdue, fun killAt' span' hmade' => ?_⟩
      obtain ⟨rfl, rfl⟩ : killAt = killAt' ∧ span = span' := by
        simpa using hmade.symm.trans hmade'
      refine ⟨instant, hfits.id ▸ hmoment, hraised instant hmoment _ _ hmade, ?_⟩
      rcases howed with ⟨hsome, _⟩ | ⟨_, hle⟩
      · rw [hgrace] at hsome
        cases hsome
      · exact hle.trans hdue

variable (hsound : Sound world)

include hsound

/-- A `Kill` of an entry is raised at or after the instant the entry names. -/
theorem Sound.raised_after (hbuilt : built made ∈ world.log) :
    ∀ instant, raised made.id instant ∈ world.log → ∀ killAt span,
      made.killAt = some (killAt, span) → killAt ≤ instant := by
  intro instant hraised killAt span hmade
  obtain ⟨other, killAt', span', hother, hid, hkill, hle⟩ := hsound.tells _ hraised
  obtain rfl := hsound.unique other made hother hbuilt hid
  obtain ⟨rfl, rfl⟩ : killAt' = killAt ∧ span' = span := by simpa using hkill.symm.trans hmade
  exact hle

theorem Sound.moves (hheld : world.held.Perm after.held)
    (hlog : after.log = world.log) (hcount : after.count = world.count)
    (hnow : world.now ≤ after.now) (hfinished : world.finished ⊆ after.finished)
    (hkeeps : ∀ reaper ∈ after.reapers, reaper.Keeps) : Sound after where
  held pair hpair := by
    obtain ⟨made, hfits⟩ := hsound.held pair (hheld.mem_iff.mpr hpair)
    exact ⟨made, hfits.mono (by rw [hlog]; exact List.Subset.refl _) hnow (by rw [hlog])⟩
  once id := by
    rw [← (hheld.map fun pair => pair.1.id).count_eq, hlog, hcount]
    exact hsound.once id
  raisedOnce := by
    rw [hlog]
    exact hsound.raisedOnce
  tells event hevent := by
    refine (hsound.tells event (hlog ▸ hevent)).mono ?_ hcount.ge hfinished
    rw [hlog]
    exact List.Subset.refl _
  unique := by
    rw [hlog]
    exact hsound.unique
  keeps := hkeeps

theorem Sound.builds (hheld : after.held.Perm (entry.waiting :: world.held))
    (hlog : after.log = built entry :: world.log) (hid : entry.id = world.count)
    (hfired : entry.fired = false)
    (hgrace : ∀ killAt grace, entry.killAt = some (killAt, grace) →
      killAt + grace = entry.deadline ∧ grace ≤ farFuture)
    (hcount : after.count = world.count + 1) (hnow : after.now = world.now)
    (hfinished : after.finished = world.finished)
    (hkeeps : ∀ reaper ∈ after.reapers, reaper.Keeps) : Sound after := by
  have hsub : world.log ⊆ after.log := hlog ▸ List.subset_cons_self _ _
  have hraises (id : Nat) : raiseCount id after.log = raiseCount id world.log :=
    hlog ▸ raiseCount_cons nofun
  have hnew : built entry ∈ after.log := hlog ▸ List.mem_cons_self
  constructor
  case held =>
    intro pair hpair
    rcases List.mem_cons.mp (hheld.mem_iff.mp hpair) with rfl | hold
    · refine ⟨entry, hnew, rfl, rfl, hfired, .fresh rfl rfl ?_⟩
      rw [hraises, hid]
      exact hsound.raiseCount_count
    · obtain ⟨made, hfits⟩ := hsound.held pair hold
      exact ⟨made, hfits.mono hsub hnow.ge (hraises _)⟩
  case once =>
    intro id
    have honce := hsound.once id
    have hends : endCount id after.log = endCount id world.log := hlog ▸ endCount_cons nofun
    rw [(hheld.map fun pair => pair.1.id).count_eq, hends, hcount, List.map_cons,
      List.count_cons]
    have hbeq : (entry.waiting.1.id == id) = decide (world.count = id) := by
      rw [← hid]
      rfl
    rw [hbeq]
    by_cases hlast : world.count = id
    · subst hlast
      simp only [lt_irrefl, if_false] at honce
      simp only [decide_true, if_true, Nat.lt_succ_self]
      omega
    · have hiff : id < world.count + 1 ↔ id < world.count := by omega
      simp only [hlast, decide_false, Bool.false_eq_true, if_false, hiff]
      omega
  case raisedOnce =>
    intro id
    rw [hraises]
    exact hsound.raisedOnce id
  case tells =>
    intro event hevent
    rw [hlog] at hevent
    rcases List.mem_cons.mp hevent with rfl | hold
    · exact ⟨by omega, hgrace⟩
    · exact (hsound.tells event hold).mono hsub (by omega) fun _ htask => hfinished ▸ htask
  case unique =>
    intro made other hmade hother hsame
    rw [hlog] at hmade hother
    have hless (made : ReaperEntry) (hmade : built made ∈ world.log) : made.id < world.count :=
      (hsound.tells _ hmade).1
    rcases List.mem_cons.mp hmade with heq | hmade
    · cases heq
      rcases List.mem_cons.mp hother with heq | hother
      · cases heq
        rfl
      · have := hless other hother
        omega
    · rcases List.mem_cons.mp hother with heq | hother
      · cases heq
        have := hless made hmade
        omega
      · exact hsound.unique made other hmade hother hsame
  case keeps => exact hkeeps

/-- The step rule for a turn of one entry that logs at most one event: `kept` is
what the other containers hold, and `pairs` is where the entry is afterwards. -/
theorem Sound.turns {kept pairs : List (ReaperEntry × Option Nat)} {events : List ReaperEvent}
    (hsame : Same world after)
    (hheld : world.held.Perm ((entry, grace) :: kept)) (hheld' : after.held.Perm (pairs ++ kept))
    (hlog : after.log = events ++ world.log)
    (hraises : ∀ id, id ≠ entry.id → raiseCount id after.log = raiseCount id world.log)
    (honce : ∀ id, (pairs.map fun pair => pair.1.id).count id + endCount id after.log =
      (if entry.id = id then 1 else 0) + endCount id world.log)
    (hpairs : ∀ pair ∈ pairs, ∃ made, Fits after pair.1 pair.2 made)
    (hraised : raiseCount entry.id after.log ≤ 1)
    (hevents : ∀ event ∈ events, Tells after event ∧ ∀ made, event ≠ built made)
    (hkeeps : ∀ reaper ∈ after.reapers, reaper.Keeps) : Sound after := by
  have hsub : world.log ⊆ after.log := hlog ▸ List.subset_append_right _ _
  have hbuilt (made : ReaperEntry) (hmade : built made ∈ after.log) : built made ∈ world.log := by
    rw [hlog] at hmade
    refine (List.mem_append.mp hmade).resolve_left fun hevent => ?_
    exact (hevents _ hevent).2 made rfl
  constructor
  case held =>
    intro pair hpair
    rcases List.mem_append.mp (hheld'.mem_iff.mp hpair) with hown | hold
    · exact hpairs pair hown
    · obtain ⟨made, hfits⟩ := hsound.held pair (hheld.mem_iff.mpr (List.mem_cons_of_mem _ hold))
      exact ⟨made, hfits.mono hsub hsame.now.ge (hraises _ (hsound.alone hheld pair hold))⟩
  case once =>
    intro id
    have hbefore := hsound.once id
    rw [(hheld.map fun pair => pair.1.id).count_eq, List.map_cons, List.count_cons] at hbefore
    rw [(hheld'.map fun pair => pair.1.id).count_eq, List.map_append, List.count_append,
      hsame.count, ← hbefore]
    have hown := honce id
    have hbeq : (entry.id == id) = decide (entry.id = id) := rfl
    simp only [hbeq, decide_eq_true_eq] at hown ⊢
    omega
  case raisedOnce =>
    intro id
    by_cases hid : id = entry.id
    · rw [hid]
      exact hraised
    · rw [hraises id hid]
      exact hsound.raisedOnce id
  case tells =>
    intro event hevent
    rw [hlog] at hevent
    rcases List.mem_append.mp hevent with hnew | hold
    · exact (hevents event hnew).1
    · exact (hsound.tells event hold).mono hsub hsame.count.ge
        fun _ htask => hsame.finished ▸ htask
  case unique =>
    exact fun made other hmade hother =>
      hsound.unique made other (hbuilt made hmade) (hbuilt other hother)
  case keeps => exact hkeeps

theorem Sound.raises {killAt span : Nat} (hheld : world.held.Perm (entry.waiting :: rest))
    (hheld' : after.held.Perm (({ entry with killAt := none }, some span) :: rest))
    (hlog : after.log = raised entry.id world.now :: world.log)
    (hkill : entry.killAt = some (killAt, span)) (hdue : killAt ≤ world.now)
    (hsame : Same world after) (hkeeps : ∀ reaper ∈ after.reapers, reaper.Keeps) : Sound after := by
  obtain ⟨made, hfits⟩ := hsound.held entry.waiting (hheld.mem_iff.mpr List.mem_cons_self)
  -- Its first stage is pending, so nothing was raised for the entry so far.
  obtain ⟨rfl, hnone⟩ : entry = made ∧ raiseCount made.id world.log = 0 := by
    cases hfits.story with
    | fresh hmade _ hnone => exact ⟨hmade, hnone⟩
    | killed _ _ _ _ hkilled =>
      rw [show entry.waiting.1.killAt = entry.killAt from rfl, hkill] at hkilled
      cases hkilled
  have hbuilt : built entry ∈ after.log := hlog ▸ List.mem_cons_of_mem _ hfits.built
  have hraised : raised entry.id world.now ∈ after.log := hlog ▸ List.mem_cons_self
  have hone : raiseCount entry.id after.log = 1 := by
    rw [hlog, raiseCount, List.countP_cons, if_pos (by simp [ReaperEvent.raises])]
    exact congrArg (· + 1) hnone
  refine @Sound.turns world after entry none hsound rest
    [({ entry with killAt := none }, some span)]
    [raised entry.id world.now] hsame hheld hheld' hlog ?_ ?_ ?_ hone.le ?_ hkeeps
  · intro id hid
    rw [hlog]
    exact raiseCount_cons (by simpa [ReaperEvent.raises] using Ne.symm hid)
  · intro id
    have hends : endCount id after.log = endCount id world.log := hlog ▸ endCount_cons nofun
    rw [hends]
    simp [List.count_cons]
  · intro pair hpair
    rw [List.mem_singleton.mp hpair]
    exact ⟨entry, hbuilt, rfl, rfl, hfits.fired,
      .killed killAt span world.now hkill rfl hraised le_rfl (.inl ⟨rfl, hsame.now.ge⟩)⟩
  · intro event hevent
    rw [List.mem_singleton.mp hevent]
    exact ⟨⟨entry, killAt, span, hbuilt, rfl, hkill, hdue⟩, nofun⟩

theorem Sound.rearms {span : Nat} (hheld : world.held.Perm ((entry, some span) :: rest))
    (hheld' : after.held.Perm ({ entry with
      deadline := max entry.deadline (saturatingDeadline world.now span) }.waiting :: rest))
    (hlog : after.log = world.log) (hsame : Same world after)
    (hkeeps : ∀ reaper ∈ after.reapers, reaper.Keeps) : Sound after := by
  obtain ⟨made, hfits⟩ := hsound.held _ (hheld.mem_iff.mpr List.mem_cons_self)
  refine @Sound.turns world after entry (some span) hsound rest [_] [] hsame hheld hheld' hlog
    (fun _ _ => by rw [hlog]) ?_ ?_ (hlog ▸ hsound.raisedOnce _) nofun hkeeps
  · intro id
    rw [hlog]
    simp [List.count_cons, ReaperEntry.waiting]
  · intro pair hpair
    rw [List.mem_singleton.mp hpair]
    refine ⟨made, hlog ▸ hfits.built, hfits.id, hfits.task, hfits.fired, ?_⟩
    cases hfits.story with
    | fresh _ hgrace => cases hgrace
    | killed killAt span' instant hmade hkill hraised hdeadline howed =>
      obtain ⟨hspan, hinstant⟩ := howed.resolve_right fun h => nomatch h.1
      obtain rfl : span = span' := by simpa using hspan
      -- The grace as built is within the cap, so the new deadline counts all of it.
      have hcap := ((hsound.tells _ hfits.built).2 killAt span hmade).2
      refine .killed killAt span instant hmade hkill (hlog ▸ hraised)
        (hdeadline.trans (le_max_left _ _)) (.inr ⟨rfl, ?_⟩)
      have hle : instant + span ≤ saturatingDeadline world.now span := by
        rw [saturatingDeadline, min_eq_left hcap]
        exact Nat.add_le_add_right hinstant span
      exact hle.trans (le_max_right _ _)

theorem Sound.ends (hheld : world.held.Perm ((entry, grace) :: after.held))
    (hlog : after.log = event :: world.log)
    (hending : Ending world.now world.finished entry grace event) (hsame : Same world after)
    (hkeeps : ∀ reaper ∈ after.reapers, reaper.Keeps) : Sound after := by
  obtain ⟨made, hfits⟩ := hsound.held _ (hheld.mem_iff.mpr List.mem_cons_self)
  obtain ⟨hends, hraises, hbuilt⟩ := hending.spec
  have hsub : world.log ⊆ after.log := hlog ▸ List.subset_cons_self _ _
  have hnone (id : Nat) : raiseCount id after.log = raiseCount id world.log :=
    hlog ▸ raiseCount_cons (by rw [hraises]; nofun)
  refine @Sound.turns world after entry grace hsound after.held [] [event] hsame hheld (.refl _)
    hlog
    (fun id _ => hnone id) ?_ nofun (hnone _ ▸ hsound.raisedOnce _) ?_ hkeeps
  · intro id
    rw [hlog]
    by_cases hid : entry.id = id
    · rw [endCount_cons_self (hends.trans (congrArg some hid)), if_pos hid]
      simp [Nat.add_comm]
    · rw [endCount_cons (by rw [hends]; simpa using hid), if_neg hid]
      simp
  · intro event' hevent
    rw [List.mem_singleton.mp hevent]
    refine ⟨?_, hbuilt⟩
    exact (hfits.tells (hsound.raised_after hfits.built) hending).mono hsub hsame.count.ge
      fun _ htask => hsame.finished ▸ htask

/-- The step rule: every turn keeps the account. -/
theorem Sound.turn (hturn : Turn world after world.held after.held)
    (hkeeps : ∀ reaper ∈ after.reapers, reaper.Keeps) : Sound after := by
  cases hturn with
  | moves hheld hlog hcount hnow hfinished =>
    exact hsound.moves hheld hlog hcount hnow hfinished hkeeps
  | builds entry hheld hlog hid hfired hgrace hcount hnow hfinished =>
    exact hsound.builds hheld hlog hid hfired hgrace hcount hnow hfinished hkeeps
  | raises entry killAt grace rest hheld hheld' hlog hkill hdue hsame =>
    exact hsound.raises hheld hheld' hlog hkill hdue hsame hkeeps
  | rearms entry grace rest hheld hheld' hlog hsame =>
    exact hsound.rearms hheld hheld' hlog hsame hkeeps
  | ends entry grace event hheld hlog hending hsame =>
    exact hsound.ends hheld hlog hending hsame hkeeps

theorem Sound.step (hstep : world.step action = some after) : Sound after := by
  have hunfired (pair : ReaperEntry × Option Nat) (hpair : pair ∈ world.held) :
      pair.1.fired = false := by
    obtain ⟨made, hfits⟩ := hsound.held pair hpair
    exact hfits.fired
  obtain ⟨hturn, hkeeps⟩ := turn_of_step hunfired hsound.keeps hstep
  exact hsound.turn hturn hkeeps

end Step

/-! ## Every run -/

/-- Every order of the steps of the senders, the reapers, the tasks and the clock. -/
def Reached (now : Nat) : Reapers → Prop :=
  Machine.Reaches step (fun _ _ => True) { now := now }

theorem sound_start {now : Nat} : Sound { now := now } where
  held := nofun
  once _ := rfl
  raisedOnce _ := Nat.zero_le _
  tells := nofun
  unique := nofun
  keeps := nofun

/-- The run rule: the account holds after every run. -/
theorem Reached.sound {now : Nat} (hreach : Reached now world) : Sound world :=
  Machine.Reaches.invariant sound_start (fun _ _ _ hsound _ hstep => hsound.step hstep) hreach

section Ends

variable {made : ReaperEntry} {id : Nat}

theorem Sound.ended (hsound : Sound world) (hbuilt : built made ∈ world.log)
    (hgone : ∀ pair ∈ world.held, pair.1.id ≠ made.id) :
    ∃ event ∈ world.log, event.ends = some made.id := by
  have honce := hsound.once made.id
  have hnone : (world.held.map fun pair => pair.1.id).count made.id = 0 := by
    rw [List.count_eq_zero]
    intro hmem
    obtain ⟨pair, hpair, hid⟩ := List.mem_map.mp hmem
    exact hgone pair hpair hid
  rw [hnone, if_pos (hsound.tells _ hbuilt).1, Nat.zero_add] at honce
  have hpos : 0 < endCount made.id world.log := by omega
  obtain ⟨event, hevent, hends⟩ := List.countP_pos_iff.mp hpos
  exact ⟨event, hevent, by simpa using hends⟩

/-- The task that an entry's end aborts, or finds finished, is the entry's own. -/
theorem Sound.ending (hsound : Sound world) (hbuilt : built made ∈ world.log)
    {event : ReaperEvent} (hevent : event ∈ world.log) (hends : event.ends = some made.id) :
    ∃ instant, event = fired made.id made.task instant ∨ event = dropped made.id made.task instant ∨
      (event = released made.id made.task instant ∧ made.task ∈ world.finished) := by
  have htells := hsound.tells event hevent
  cases event with
  | built | raised => cases hends
  | fired other task instant =>
    cases hends
    obtain ⟨other, hother, hid, rfl, _⟩ := htells
    rw [hsound.unique other made hother hbuilt hid]
    exact ⟨instant, .inl rfl⟩
  | dropped other task instant =>
    cases hends
    obtain ⟨other, hother, hid, rfl⟩ := htells
    rw [hsound.unique other made hother hbuilt hid]
    exact ⟨instant, .inr (.inl rfl)⟩
  | released other task instant =>
    cases hends
    obtain ⟨⟨other, hother, hid, rfl⟩, hfinished⟩ := htells
    rw [hsound.unique other made hother hbuilt hid] at hfinished ⊢
    exact ⟨instant, .inr (.inr ⟨rfl, hfinished⟩)⟩

end Ends

end Reapers

end TokioActors
