/-
# The turns of a reaper's entries

Every step of the reapers and their senders does one of five things to the
entries they hold: it moves them between containers, adds one just built, raises
the `Kill` of one, moves the abort of one whose `Kill` was raised, or ends one.
The containers are looked at as one list up to order, so that a step of one
reaper is a step of the whole.
-/

import TokioActors.System.Reaper

namespace TokioActors

open ReaperEvent

/-- An entry that waits for its next instant. -/
def ReaperEntry.waiting (entry : ReaperEntry) : ReaperEntry × Option Nat := (entry, none)

/-- The entries a reaper's stage has in hand. Between its `Kill` and its new
deadline an entry has its grace with it. -/
def ReaperStage.held : ReaperStage → List (ReaperEntry × Option Nat)
  | .looks | .waits _ => []
  | .raised entry grace => [(entry, some grace)]
  | .drops rest => rest.map ReaperEntry.waiting

def Reaper.held (reaper : Reaper) : List (ReaperEntry × Option Nat) :=
  reaper.stage.held ++ reaper.feed.map ReaperEntry.waiting ++ reaper.heap.map ReaperEntry.waiting

namespace ReaperEvent

def raises : ReaperEvent → Option Nat
  | .raised id _ => some id
  | _ => none

def aborts : ReaperEvent → Option Nat
  | .fired id _ _ | .dropped id _ _ => some id
  | _ => none

def ends : ReaperEvent → Option Nat
  | .fired id _ _ | .dropped id _ _ | .released id _ _ => some id
  | _ => none

end ReaperEvent

namespace Reapers

def held (world : Reapers) : List (ReaperEntry × Option Nat) :=
  (world.senders.map fun pair => pair.1.waiting) ++ world.reapers.flatMap Reaper.held

/-- What ends an entry: its abort, or the end of its task. -/
inductive Ending (now : Nat) (finished : List Nat) (entry : ReaperEntry) (grace : Option Nat) :
    ReaperEvent → Prop
  | released (hfinished : entry.task ∈ finished) :
      Ending now finished entry grace (released entry.id entry.task now)
  | dropped (hrunning : entry.task ∉ finished) :
      Ending now finished entry grace (dropped entry.id entry.task now)
  | fired (hrunning : entry.task ∉ finished) (hgrace : grace = none) (hkill : entry.killAt = none)
      (hdue : entry.deadline ≤ now) :
      Ending now finished entry grace (fired entry.id entry.task now)

/-- The clock, the finished tasks and the number of entries stay. -/
structure Same (world after : Reapers) : Prop where
  now : after.now = world.now
  finished : after.finished = world.finished
  count : after.count = world.count

/-- What a step does to the entries of the containers that it touches, `held`
before it and `held'` after it. -/
inductive Turn (world after : Reapers) (held held' : List (ReaperEntry × Option Nat)) : Prop
  | moves (hheld : held.Perm held') (hlog : after.log = world.log)
      (hcount : after.count = world.count) (hnow : world.now ≤ after.now)
      (hfinished : world.finished ⊆ after.finished)
  | builds (entry : ReaperEntry) (hheld : held'.Perm (entry.waiting :: held))
      (hlog : after.log = built entry :: world.log) (hid : entry.id = world.count)
      (hfired : entry.fired = false)
      (hgrace : ∀ killAt grace, entry.killAt = some (killAt, grace) →
        killAt + grace = entry.deadline ∧ grace ≤ farFuture)
      (hcount : after.count = world.count + 1) (hnow : after.now = world.now)
      (hfinished : after.finished = world.finished)
  | raises (entry : ReaperEntry) (killAt grace : Nat) (rest : List (ReaperEntry × Option Nat))
      (hheld : held.Perm (entry.waiting :: rest))
      (hheld' : held'.Perm (({ entry with killAt := none }, some grace) :: rest))
      (hlog : after.log = raised entry.id world.now :: world.log)
      (hkill : entry.killAt = some (killAt, grace)) (hdue : killAt ≤ world.now)
      (hsame : Same world after)
  | rearms (entry : ReaperEntry) (grace : Nat) (rest : List (ReaperEntry × Option Nat))
      (hheld : held.Perm ((entry, some grace) :: rest))
      (hheld' : held'.Perm ({ entry with
        deadline := max entry.deadline (saturatingDeadline world.now grace) }.waiting :: rest))
      (hlog : after.log = world.log) (hsame : Same world after)
  | ends (entry : ReaperEntry) (grace : Option Nat) (event : ReaperEvent)
      (hheld : held.Perm ((entry, grace) :: held'))
      (hlog : after.log = event :: world.log)
      (hending : Ending world.now world.finished entry grace event) (hsame : Same world after)

variable {world after : Reapers} {entry : ReaperEntry} {grace : Option Nat}
  {held held' first second rest : List (ReaperEntry × Option Nat)}

theorem Turn.frame (hturn : Turn world after first second) (hfirst : held.Perm (first ++ rest))
    (hsecond : held'.Perm (second ++ rest)) : Turn world after held held' := by
  cases hturn with
  | moves hheld hlog hcount hnow hfinished =>
    exact .moves (hfirst.trans ((hheld.append_right rest).trans hsecond.symm)) hlog hcount hnow
      hfinished
  | builds entry hheld hlog hid hfired hgrace hcount hnow hfinished =>
    refine .builds entry ?_ hlog hid hfired hgrace hcount hnow hfinished
    exact hsecond.trans ((hheld.append_right rest).trans (hfirst.symm.cons _))
  | raises entry killAt grace kept hheld hheld' hlog hkill hdue hsame =>
    exact .raises entry killAt grace (kept ++ rest) (hfirst.trans (hheld.append_right rest))
      (hsecond.trans (hheld'.append_right rest)) hlog hkill hdue hsame
  | rearms entry grace kept hheld hheld' hlog hsame =>
    exact .rearms entry grace (kept ++ rest) (hfirst.trans (hheld.append_right rest))
      (hsecond.trans (hheld'.append_right rest)) hlog hsame
  | ends entry grace event hheld hlog hending hsame =>
    refine .ends entry grace event ?_ hlog hending hsame
    exact hfirst.trans ((hheld.append_right rest).trans (hsecond.symm.cons _))

theorem Turn.congr (hturn : Turn world after first second) (hfirst : held.Perm first)
    (hsecond : held'.Perm second) : Turn world after held held' :=
  hturn.frame (by rwa [List.append_nil]) (by rwa [List.append_nil])

/-- A turn does not say where the reapers are. -/
theorem Turn.seat (hturn : Turn world after first second) (reapers : List Reaper) :
    Turn world { after with reapers := reapers } first second := by
  cases hturn with
  | moves hheld hlog hcount hnow hfinished => exact .moves hheld hlog hcount hnow hfinished
  | builds entry hheld hlog hid hfired hgrace hcount hnow hfinished =>
    exact .builds entry hheld hlog hid hfired hgrace hcount hnow hfinished
  | raises entry killAt grace rest hheld hheld' hlog hkill hdue hsame =>
    exact .raises entry killAt grace rest hheld hheld' hlog hkill hdue
      ⟨hsame.now, hsame.finished, hsame.count⟩
  | rearms entry grace rest hheld hheld' hlog hsame =>
    exact .rearms entry grace rest hheld hheld' hlog ⟨hsame.now, hsame.finished, hsame.count⟩
  | ends entry grace event hheld hlog hending hsame =>
    exact .ends entry grace event hheld hlog hending ⟨hsame.now, hsame.finished, hsame.count⟩

theorem turn_of_perm (hheld : held.Perm held') : Turn world world held held' :=
  .moves hheld rfl rfl le_rfl (List.Subset.refl _)

/-! ## The end of an entry -/

theorem turn_drop (hfired : entry.fired = false) (hheld : held.Perm ((entry, grace) :: held')) :
    Turn world (world.drop entry) held held' := by
  simp only [drop, hfired, Bool.false_eq_true, if_false, abort]
  split
  · next hfinished => exact .ends entry grace _ hheld rfl (.released hfinished) ⟨rfl, rfl, rfl⟩
  · next hrunning => exact .ends entry grace _ hheld rfl (.dropped hrunning) ⟨rfl, rfl, rfl⟩

theorem turn_fire (hdue : entry.due ≤ world.now) :
    Turn world (world.fire entry).1 (entry.waiting :: rest)
      (((world.fire entry).2.map fun pair => (pair.1, some pair.2)).toList ++ rest) := by
  unfold fire
  split
  next killAt grace hkill =>
    have hinstant : killAt ≤ world.now := by simpa [ReaperEntry.due, hkill] using hdue
    split
    next hfinished =>
      simp only [drop, if_true, abort, if_pos hfinished]
      exact .ends entry none _ (.refl _) rfl (.released hfinished) ⟨rfl, rfl, rfl⟩
    · exact .raises entry killAt grace rest (.refl _) (.refl _) rfl hkill hinstant
        ⟨rfl, rfl, rfl⟩
  next hkill =>
    have hdeadline : entry.deadline ≤ world.now := by simpa [ReaperEntry.due, hkill] using hdue
    simp only [drop, if_true, abort]
    split
    next hfinished =>
      exact .ends entry none _ (.refl _) rfl (.released hfinished) ⟨rfl, rfl, rfl⟩
    next hrunning =>
      exact .ends entry none _ (.refl _) rfl (.fired hrunning rfl hkill hdeadline)
        ⟨rfl, rfl, rfl⟩

theorem senders_drop : (world.drop entry).senders = world.senders ∧
    (world.drop entry).reapers = world.reapers := by
  unfold drop abort
  split
  · exact ⟨rfl, rfl⟩
  · split <;> exact ⟨rfl, rfl⟩

theorem senders_fire : (world.fire entry).1.senders = world.senders ∧
    (world.fire entry).1.reapers = world.reapers := by
  have habort : ((world.abort entry fired).drop { entry with fired := true }).senders =
      world.senders ∧ ((world.abort entry fired).drop { entry with fired := true }).reapers =
      world.reapers := by
    simp only [drop, if_true, abort]
    split <;> exact ⟨rfl, rfl⟩
  unfold fire
  split
  · split
    · exact habort
    · exact ⟨rfl, rfl⟩
  · exact habort

end Reapers

namespace Reaper

open Reapers

variable {world after : Reapers} {reaper reaper' : Reaper} {entry : ReaperEntry}
  {action : ReaperAction} {heap : List ReaperEntry} {due pick : Nat}

/-! ## One step of a reaper -/

/-- A reaper that sleeps does so until its heap's first entry is due. -/
def Keeps (reaper : Reaper) : Prop :=
  ∀ due, reaper.stage = .waits (some due) → peekDue reaper.heap = some due

/-- The heap's greatest entry is the one that is due first. -/
theorem due_le_of_isTop (htop : isTop heap entry = true) :
    ∀ other ∈ heap, entry.due ≤ other.due := by
  intro other hother
  have hcmp := List.all_eq_true.mp htop other hother
  rw [ReaperEntry.cmp, bne_iff_ne, ne_eq, compare_gt_iff_gt] at hcmp
  exact Nat.le_of_not_lt hcmp

/-- When the sleep is over, the heap's greatest entry is due. -/
theorem due_le_now (hpeek : peekDue heap = some due) (htop : isTop heap entry = true) :
    entry.due ≤ due := by
  obtain ⟨other, hother, rfl⟩ := List.mem_map.mp (List.min?_mem hpeek)
  exact due_le_of_isTop htop other hother

theorem held_dropped (hstage : reaper.stage.held = []) :
    reaper.held.Perm reaper.dropped.held := by
  rw [held, hstage]
  simp [held, dropped, ReaperStage.held]

theorem keeps_of_looks (hstage : reaper.stage = .looks) : reaper.Keeps := by
  intro due hwaits
  rw [hstage] at hwaits
  cases hwaits

theorem keeps_dropped : reaper.dropped.Keeps := nofun

/-- What a step does to the containers of the reaper, and what it leaves alone. -/
structure Stepped (world after : Reapers) (reaper reaper' : Reaper) : Prop where
  turn : Reapers.Turn world after reaper.held reaper'.held
  keeps : reaper'.Keeps
  senders : after.senders = world.senders
  reapers : after.reapers = world.reapers

theorem Stepped.of_perm (hheld : reaper.held.Perm reaper'.held) (hkeeps : reaper'.Keeps) :
    Stepped world world reaper reaper' :=
  ⟨turn_of_perm hheld, hkeeps, rfl, rfl⟩

theorem stepped_look (hstep : reaper.step world .look = some (after, reaper')) :
    Stepped world after reaper reaper' := by
  simp only [step] at hstep
  split at hstep
  next due hstage hpeek =>
    cases hstep
    refine .of_perm ?_ ?_
    · simp [held, hstage, ReaperStage.held]
    · intro due' hwaits
      cases hwaits
      exact hpeek
  next hstage _ =>
    split at hstep
    · cases hstep
      refine .of_perm ?_ nofun
      simp [held, hstage, ReaperStage.held]
    · cases hstep
      exact .of_perm (held_dropped (by rw [hstage]; rfl)) keeps_dropped
  · cases hstep

theorem stepped_recv (hstep : reaper.step world .recv = some (after, reaper')) :
    Stepped world after reaper reaper' := by
  simp only [step] at hstep
  split at hstep
  next entry rest hstage hfeed =>
    split at hstep
    · cases hstep
      refine .of_perm ?_ (keeps_of_looks rfl)
      simp only [held, hstage, hfeed, ReaperStage.held, List.nil_append, List.map_cons,
        List.cons_append]
      exact List.perm_middle.symm
    · cases hstep
  next hstage hfeed =>
    split at hstep
    · cases hstep
      refine .of_perm ?_ (keeps_of_looks rfl)
      simp [held, hstage, ReaperStage.held]
    · cases hstep
  · cases hstep

theorem stepped_timer (hkeeps : reaper.Keeps)
    (hstep : reaper.step world (.timer pick) = some (after, reaper')) :
    Stepped world after reaper reaper' := by
  simp only [step] at hstep
  split at hstep
  case h_2 => cases hstep
  case h_1 due hstage =>
  split at hstep
  case isFalse => cases hstep
  case isTrue hnow =>
  split at hstep
  case h_2 =>
    split at hstep
    · cases hstep
      refine .of_perm ?_ (keeps_of_looks rfl)
      simp [held, hstage, ReaperStage.held]
    · cases hstep
  case h_1 entry hentry =>
  split at hstep
  case isFalse => cases hstep
  case isTrue htop =>
  have hdue : entry.due ≤ world.now := (due_le_now (hkeeps due hstage) htop).trans hnow
  -- The entry that is fired leaves the heap; whatever else the reaper holds stays.
  have hheap : reaper.heap.Perm (entry :: reaper.heap.eraseIdx pick) := by
    obtain ⟨hlt, rfl⟩ := List.getElem?_eq_some_iff.mp hentry
    exact (List.getElem_cons_eraseIdx_perm hlt).symm
  have hheld : reaper.held.Perm (entry.waiting :: (reaper.feed.map ReaperEntry.waiting ++
      (reaper.heap.eraseIdx pick).map ReaperEntry.waiting)) := by
    rw [held, hstage]
    exact ((hheap.map _).append_left _).trans List.perm_middle
  have hturn : Reapers.Turn world (world.fire entry).1 (entry.waiting :: (reaper.feed.map
      ReaperEntry.waiting ++ (reaper.heap.eraseIdx pick).map ReaperEntry.waiting)) _ :=
    turn_fire hdue
  obtain ⟨hsenders, hreapers⟩ := @senders_fire world entry
  split at hstep
  next fired rest grace hfire =>
    cases hstep
    rw [hfire] at hturn hsenders hreapers
    refine ⟨hturn.congr hheld ?_, nofun, hsenders, hreapers⟩
    simp [held, ReaperStage.held]
  next fired hfire =>
    cases hstep
    rw [hfire] at hturn hsenders hreapers
    refine ⟨hturn.congr hheld ?_, keeps_of_looks rfl, hsenders, hreapers⟩
    simp [held, ReaperStage.held]

theorem stepped_rearm (hstep : reaper.step world .rearm = some (after, reaper')) :
    Stepped world after reaper reaper' := by
  simp only [step] at hstep
  split at hstep
  next entry grace hstage =>
    cases hstep
    refine ⟨.rearms entry grace (reaper.feed.map ReaperEntry.waiting ++
      reaper.heap.map ReaperEntry.waiting) ?_ ?_ rfl ⟨rfl, rfl, rfl⟩, keeps_of_looks rfl, rfl,
      rfl⟩
    · simp [held, hstage, ReaperStage.held]
    · simp only [held, ReaperStage.held, List.nil_append, List.map_cons]
      exact List.perm_middle
  · cases hstep

/-- The unwind drops the entry in hand, and with the task all the others begin to drop. -/
theorem stepped_unwind (hunfired : ∀ pair ∈ reaper.held, pair.1.fired = false)
    (hstep : reaper.step world .unwind = some (after, reaper')) :
    Stepped world after reaper reaper' := by
  simp only [step] at hstep
  split at hstep
  next entry grace hstage =>
    cases hstep
    have hfired : entry.fired = false :=
      hunfired (entry, some grace) (by simp [held, hstage, ReaperStage.held])
    refine ⟨turn_drop hfired (?_ : reaper.held.Perm ((entry, some grace) :: _)), keeps_dropped,
      senders_drop.1, senders_drop.2⟩
    simp [held, dropped, hstage, ReaperStage.held]
  · cases hstep

theorem stepped_drop (hstep : reaper.step world .drop = some (after, reaper')) :
    Stepped world after reaper reaper' := by
  simp only [step] at hstep
  split at hstep
  next hstage =>
    cases hstep
    exact .of_perm (held_dropped (by rw [hstage]; rfl)) keeps_dropped
  next hstage =>
    cases hstep
    exact .of_perm (held_dropped (by rw [hstage]; rfl)) keeps_dropped
  · cases hstep

theorem stepped_dropNext (hunfired : ∀ pair ∈ reaper.held, pair.1.fired = false)
    (hstep : reaper.step world .dropNext = some (after, reaper')) :
    Stepped world after reaper reaper' := by
  simp only [step] at hstep
  split at hstep
  next entry rest hstage =>
    cases hstep
    have hfired : entry.fired = false :=
      hunfired entry.waiting (by simp [held, hstage, ReaperStage.held])
    refine ⟨turn_drop hfired (?_ : reaper.held.Perm (entry.waiting :: _)), nofun,
      senders_drop.1, senders_drop.2⟩
    simp [held, hstage, ReaperStage.held]
  · cases hstep

theorem stepped_of_step (hunfired : ∀ pair ∈ reaper.held, pair.1.fired = false)
    (hkeeps : reaper.Keeps) (hstep : reaper.step world action = some (after, reaper')) :
    Stepped world after reaper reaper' := by
  cases action with
  | look => exact stepped_look hstep
  | recv => exact stepped_recv hstep
  | timer => exact stepped_timer hkeeps hstep
  | rearm => exact stepped_rearm hstep
  | unwind => exact stepped_unwind hunfired hstep
  | drop => exact stepped_drop hstep
  | dropNext => exact stepped_dropNext hunfired hstep

end Reaper

namespace Reapers

variable {world after : Reapers} {entry : ReaperEntry} {reaper reaper' : Reaper} {i left : Nat}
  {action : ReapersAction}

/-! ## One step of the whole -/

def outside (world : Reapers) (i : Nat) : List (ReaperEntry × Option Nat) :=
  (world.senders.map fun pair => pair.1.waiting) ++ (world.reapers.eraseIdx i).flatMap Reaper.held

theorem held_perm_outside (hreaper : world.reapers[i]? = some reaper) :
    world.held.Perm (reaper.held ++ world.outside i) := by
  obtain ⟨hlt, rfl⟩ := List.getElem?_eq_some_iff.mp hreaper
  have hreapers : (world.reapers.flatMap Reaper.held).Perm
      (world.reapers[i].held ++ (world.reapers.eraseIdx i).flatMap Reaper.held) :=
    (List.getElem_cons_eraseIdx_perm hlt).symm.flatMap_right _
  exact (hreapers.append_left _).trans (List.perm_append_comm_assoc _ _ _)

theorem held_set_perm_outside (hreaper : world.reapers[i]? = some reaper)
    (hsenders : after.senders = world.senders)
    (hreapers : after.reapers = world.reapers.set i reaper') :
    after.held.Perm (reaper'.held ++ world.outside i) := by
  have hlt := (List.getElem?_eq_some_iff.mp hreaper).1
  have hset : ((world.reapers.set i reaper').flatMap Reaper.held).Perm
      (reaper'.held ++ (world.reapers.eraseIdx i).flatMap Reaper.held) :=
    (List.set_perm_cons_eraseIdx hlt reaper').flatMap_right _
  rw [held, hsenders, hreapers]
  exact (hset.append_left _).trans (List.perm_append_comm_assoc _ _ _)

theorem held_perm_erase (hsender : world.senders[i]? = some (entry, left)) :
    world.held.Perm (entry.waiting ::
      { world with senders := world.senders.eraseIdx i }.held) := by
  obtain ⟨hlt, hpair⟩ := List.getElem?_eq_some_iff.mp hsender
  have hsenders := ((List.getElem_cons_eraseIdx_perm hlt).symm.map
    fun pair : ReaperEntry × Nat => pair.1.waiting).append_right
      (world.reapers.flatMap Reaper.held)
  rw [hpair] at hsenders
  exact hsenders

theorem held_perm_set (hsender : world.senders[i]? = some (entry, left)) {tries : Nat} :
    world.held.Perm { world with senders := world.senders.set i (entry, tries) }.held := by
  have hlt := (List.getElem?_eq_some_iff.mp hsender).1
  refine (held_perm_erase hsender).trans ?_
  exact (((List.set_perm_cons_eraseIdx hlt (entry, tries)).map
    fun pair : ReaperEntry × Nat => pair.1.waiting).append_right
      (world.reapers.flatMap Reaper.held)).symm

theorem held_drop : (world.drop entry).held = world.held := by
  rw [held, senders_drop.1, senders_drop.2, held]

theorem turn_drop_sender (hfired : entry.fired = false)
    (hsender : world.senders[i]? = some (entry, left)) :
    Turn world ({ world with senders := world.senders.eraseIdx i }.drop entry) world.held
      ({ world with senders := world.senders.eraseIdx i }.drop entry).held := by
  have hheld := held_perm_erase hsender
  rw [held_drop]
  simp only [drop, hfired, Bool.false_eq_true, if_false, abort]
  split
  next hfinished =>
    exact .ends entry none _ hheld rfl (.released hfinished) ⟨rfl, rfl, rfl⟩
  · next hrunning => exact .ends entry none _ hheld rfl (.dropped hrunning) ⟨rfl, rfl, rfl⟩

theorem mem_held_of_sender (hsender : world.senders[i]? = some (entry, left)) :
    entry.waiting ∈ world.held :=
  List.mem_append_left _ (List.mem_map.mpr ⟨_, List.mem_of_getElem? hsender, rfl⟩)

theorem mem_held_of_reaper (hreaper : world.reapers[i]? = some reaper) :
    ∀ pair ∈ reaper.held, pair ∈ world.held :=
  fun _ hpair => List.mem_append_right _
    (List.mem_flatMap.mpr ⟨reaper, List.mem_of_getElem? hreaper, hpair⟩)

theorem held_perm_send {j : Nat} (hsender : world.senders[i]? = some (entry, left))
    (hreaper : world.reapers[j]? = some reaper) :
    world.held.Perm { world with
      senders := world.senders.eraseIdx i
      reapers := world.reapers.set j { reaper with feed := reaper.feed ++ [entry] } }.held := by
  have hfeed : ({ reaper with feed := reaper.feed ++ [entry] } : Reaper).held.Perm
      (entry.waiting :: reaper.held) := by
    simp only [Reaper.held, List.map_append, List.map_cons, List.map_nil, List.append_assoc,
      List.cons_append, List.nil_append]
    rw [← List.append_assoc]
    refine List.perm_middle.trans ?_
    rw [List.append_assoc]
  let hands := { world with senders := world.senders.eraseIdx i }
  let fed := { reaper with feed := reaper.feed ++ [entry] }
  have hout : hands.held.Perm (reaper.held ++ hands.outside j) := held_perm_outside hreaper
  have hset : { hands with reapers := hands.reapers.set j fed }.held.Perm
      (fed.held ++ hands.outside j) := held_set_perm_outside hreaper rfl rfl
  refine (held_perm_erase hsender).trans ((hout.cons _).trans ?_)
  exact (hfeed.append_right (hands.outside j)).symm.trans hset.symm

/-- The step rule of the reapers that sleep. -/
theorem keeps_set (hkeeps : ∀ reaper ∈ world.reapers, reaper.Keeps) (hown : reaper'.Keeps) :
    ∀ reaper ∈ world.reapers.set i reaper', reaper.Keeps := by
  intro other hother
  rcases List.mem_or_eq_of_mem_set hother with hold | rfl
  · exact hkeeps other hold
  · exact hown

theorem grace_twoStage {id task killAt grace : Nat} :
    ∀ instant span, (ReaperEntry.twoStage id task killAt (saturatingDeadline killAt grace)).killAt =
      some (instant, span) →
        instant + span = saturatingDeadline killAt grace ∧ span ≤ farFuture := by
  rintro instant span hkill
  cases hkill
  simp only [saturatingDeadline]
  omega

/-- Every step is one of the turns. -/
theorem turn_of_step (hunfired : ∀ pair ∈ world.held, pair.1.fired = false)
    (hkeeps : ∀ reaper ∈ world.reapers, reaper.Keeps) (hstep : world.step action = some after) :
    Turn world after world.held after.held ∧ ∀ reaper ∈ after.reapers, reaper.Keeps := by
  cases action with
  | tick =>
    cases hstep
    exact ⟨.moves (.refl _) rfl rfl (Nat.le_add_right _ _) (List.Subset.refl _), hkeeps⟩
  | finish =>
    cases hstep
    exact ⟨.moves (.refl _) rfl rfl le_rfl (List.subset_cons_self _ _), hkeeps⟩
  | build =>
    cases hstep
    exact ⟨.builds _ (.refl _) rfl rfl rfl nofun rfl rfl rfl, hkeeps⟩
  | buildTwoStage =>
    cases hstep
    exact ⟨.builds _ (.refl _) rfl rfl rfl grace_twoStage rfl rfl rfl, hkeeps⟩
  | spawn =>
    cases hstep
    refine ⟨.moves ?_ rfl rfl le_rfl (List.Subset.refl _), ?_⟩
    · simp [held, Reaper.held, ReaperStage.held]
    · intro reaper hreaper
      rcases List.mem_append.mp hreaper with hold | hnew
      · exact hkeeps reaper hold
      · rw [List.mem_singleton.mp hnew]
        exact Reaper.keeps_of_looks rfl
  | send =>
    simp only [step] at hstep
    split at hstep
    next entry left target hsender htarget =>
      have htargetKeeps := hkeeps target (List.mem_of_getElem? htarget)
      split at hstep
      · cases hstep
        exact ⟨.moves (held_perm_send hsender htarget) rfl rfl le_rfl (List.Subset.refl _),
          keeps_set hkeeps htargetKeeps⟩
      · split at hstep
        · cases hstep
          refine ⟨turn_drop_sender (hunfired _ (mem_held_of_sender hsender)) hsender, ?_⟩
          rw [senders_drop.2]
          exact hkeeps
        · cases hstep
          exact ⟨.moves (held_perm_set hsender) rfl rfl le_rfl (List.Subset.refl _), hkeeps⟩
    · cases hstep
  | unwind =>
    obtain ⟨⟨entry, left⟩, hsender, rfl⟩ := Option.map_eq_some_iff.mp hstep
    refine ⟨turn_drop_sender (hunfired _ (mem_held_of_sender hsender)) hsender, ?_⟩
    rw [senders_drop.2]
    exact hkeeps
  | hangUp reaper =>
    obtain ⟨target, htarget, rfl⟩ := Option.map_eq_some_iff.mp hstep
    refine ⟨.moves ?_ rfl rfl le_rfl (List.Subset.refl _),
      keeps_set hkeeps (hkeeps target (List.mem_of_getElem? htarget))⟩
    have hset : _ := @held_set_perm_outside world { world with
      reapers := world.reapers.set reaper { target with hungUp := true } } target _ reaper htarget
      rfl rfl
    exact (held_perm_outside htarget).trans hset.symm
  | reaper reaper =>
    obtain ⟨target, htarget, hstep⟩ := Option.bind_eq_some_iff.mp hstep
    obtain ⟨⟨middle, target'⟩, htaken, rfl⟩ := Option.map_eq_some_iff.mp hstep
    have hstepped := Reaper.stepped_of_step
      (fun pair hpair => hunfired pair (mem_held_of_reaper htarget pair hpair))
      (hkeeps target (List.mem_of_getElem? htarget)) htaken
    have hset : _ := @held_set_perm_outside world
      { middle with reapers := middle.reapers.set reaper target' } target target' reaper htarget
      hstepped.senders (by rw [← hstepped.reapers])
    refine ⟨(hstepped.turn.seat _).frame (held_perm_outside htarget) hset, ?_⟩
    rw [hstepped.reapers]
    exact keeps_set hkeeps hstepped.keeps

end Reapers

end TokioActors
