/-
# What moves an incarnation's executor

Every step is either one of another party, which leaves the executor's record
alone and only ever adds an order to an empty command cell, or one of the executor
itself. The lemmas here say once what each kind leaves unchanged.
-/

import TokioActors.Executor.Machine

namespace TokioActors.Executor

/-! ## The `Kill`s of a lane -/

def KillsHeld (w : World) : Prop := w.kills ≠ [] → w.killStored = true

/-- What a party other than the start timeout does to the `Kill`s. -/
structure Adds (w w' : World) : Prop where
  kills : ∃ added, w'.kills = w.kills ++ added ∧ Killer.startTimeout ∉ added
  held : KillsHeld w → KillsHeld w'

theorem Adds.of_same {w w' : World} (kills : w'.kills = w.kills)
    (lane : w'.lane.reason = w.lane.reason) :
    Adds w w' where
  kills := ⟨[], by simp [kills], by simp⟩
  held hheld := by
    unfold KillsHeld World.killStored at hheld ⊢
    rwa [kills, lane]

theorem Adds.trans {w w' w'' : World} (hfirst : Adds w w') (hsecond : Adds w' w'') :
    Adds w w'' := by
  obtain ⟨first, hfirstKills, hfirstNot⟩ := hfirst.kills
  obtain ⟨second, hsecondKills, hsecondNot⟩ := hsecond.kills
  refine ⟨⟨first ++ second, ?_, ?_⟩, fun h => hsecond.held (hfirst.held h)⟩
  · rw [hsecondKills, hfirstKills, List.append_assoc]
  · simp [hfirstNot, hsecondNot]

/-- After a raise, a lane that took a `Kill` still holds one. -/
theorem KillsHeld.raise {w : World} (hheld : KillsHeld w) (reason : StopReason) (killer : Killer) :
    KillsHeld (w.raise reason killer) := by
  intro hkills
  show (w.lane.raise reason w.laneGone).reason == some .kill
  rw [beq_iff_eq]
  by_cases hnew : reason = .kill ∧ w.lane.raiseResult reason w.laneGone = .recorded
  · obtain ⟨rfl, hrecorded⟩ := hnew
    exact LaneState.reason_raise_kill (by rw [hrecorded]; nofun)
  · have hold : w.kills ≠ [] := by simpa only [World.raise, hnew, if_false] using hkills
    exact LaneState.reason_raise_of_kill _ _ (beq_iff_eq.mp (hheld hold))

theorem Adds.raise (w : World) (reason : StopReason) {killer : Killer}
    (hother : killer ≠ .startTimeout) :
    Adds w (w.raise reason killer) where
  kills := by
    by_cases hnew : reason = .kill ∧ w.lane.raiseResult reason w.laneGone = .recorded
    · exact ⟨[killer], if_pos hnew, by simpa using hother.symm⟩
    · exact ⟨[], (if_neg hnew).trans (List.append_nil _).symm, by simp⟩
  held hheld := hheld.raise reason killer

/-! ## The other parties -/

/-- What the steps of the other parties leave, and what they may add. -/
structure Outside (w w' : World) : Prop where
  now : w.now ≤ w'.now
  stop : ∀ order, w.stop = some order → w'.stop = some order
  written : w.stop = none → ∀ order, w'.stop = some order →
    w.closed = false ∧ order.issuedAt ≤ w'.now ∧ w'.unseen = true
  unseen : w.unseen = true → w'.unseen = true
  closed : w.closed = true → w'.closed = true
  ended : ∀ reason, w.ended = some reason → w'.ended = some reason
  spawned : w'.spawned = w.spawned
  fate : w'.fate = w.fate
  outcomes : w'.outcomes = w.outcomes
  checked : w'.checked = w.checked
  readOrder : w'.readOrder = w.readOrder
  armed : w'.armed = w.armed
  trail : w'.trail = w.trail
  kills : Adds w w'

/-- A step that touches nothing but the clock, the lane and the flags. -/
theorem Outside.of_same {w w' : World} (now : w.now ≤ w'.now) (stop : w'.stop = w.stop)
    (unseen : w.unseen = true → w'.unseen = true) (closed : w.closed = true → w'.closed = true)
    (ended : ∀ reason, w.ended = some reason → w'.ended = some reason)
    (record : (w'.spawned, w'.fate, w'.outcomes, w'.checked, w'.readOrder, w'.armed, w'.trail) =
      (w.spawned, w.fate, w.outcomes, w.checked, w.readOrder, w.armed, w.trail))
    (kills : Adds w w') : Outside w w' := by
  simp only [Prod.mk.injEq] at record
  obtain ⟨hspawned, hfate, houtcomes, hchecked, hread, harmed, htrail⟩ := record
  refine ⟨now, fun order hstop => stop.trans hstop, ?_, unseen, closed, ended, hspawned, hfate,
    houtcomes, hchecked, hread, harmed, htrail, kills⟩
  intro hnone order hstop
  cases hnone.symm.trans (stop.symm.trans hstop)

theorem outside_of_other {w w' : World} {input : Input} (htaken : w.other input = some w') :
    Outside w w' := by
  cases input with
  | tick =>
    cases htaken
    exact .of_same (Nat.le_add_right _ _) rfl id id (fun _ => id) rfl (.of_same rfl rfl)
  | writeOrder policy issuedAt initialRaised =>
    simp only [World.other] at htaken
    split at htaken
    · cases htaken
    · rename_i hopen
      obtain ⟨hclosed, hissued⟩ := not_or.mp hopen
      split at htaken
      · rename_i hnone
        cases htaken
        have hstop := Option.isNone_iff_eq_none.mp hnone
        refine ⟨le_rfl, fun order h => ?_, fun _ order h => ?_, fun _ => rfl, id, fun _ => id, rfl,
          rfl, rfl, rfl, rfl, rfl, rfl, .of_same rfl rfl⟩
        · cases hstop.symm.trans h
        · cases h
          exact ⟨eq_false_of_ne_true hclosed, Nat.le_of_not_lt hissued, rfl⟩
      · cases htaken
        exact .of_same le_rfl rfl id id (fun _ => id) rfl (.of_same rfl rfl)
  | cancelUnspawned | markReasked =>
    simp only [World.other] at htaken
    split at htaken
    · cases htaken
    · cases htaken
      exact .of_same le_rfl rfl (fun h => by simp [h]) id (fun _ => id) rfl (.of_same rfl rfl)
  | closeCommands =>
    cases htaken
    exact .of_same le_rfl rfl id (fun _ => rfl) (fun _ => id) rfl (.of_same rfl rfl)
  | subtreeEnds | subtreeExpires =>
    cases htaken
    exact .of_same le_rfl rfl id id (fun _ => id) rfl (.of_same rfl rfl)
  | raise reason =>
    simp only [World.other] at htaken
    split at htaken
    · cases htaken
      exact .of_same le_rfl rfl id id (fun _ => id) rfl (.raise w reason nofun)
    · cases htaken
  | closeToNonKill | sealLane | dropLane | acknowledge =>
    simp only [World.other] at htaken
    split at htaken
    · cases htaken
      exact .of_same le_rfl rfl id id (fun _ => id) rfl (.of_same rfl rfl)
    · cases htaken
  | endTask reason =>
    simp only [World.other] at htaken
    split at htaken
    · rename_i hopen
      cases htaken
      refine .of_same le_rfl rfl id id (fun reason' h => ?_) rfl (.of_same rfl rfl)
      rw [h] at hopen
      cases hopen.2
    · cases htaken
  | go | built | buildFails | specGone | adopt => cases htaken

/-! ## The executor's steps -/

inductive Move (setup : Setup) : State → Input → State → Prop
  | outside {w w' : World} {place : Place} {input : Input} (frame : Outside w w') :
      Move setup ⟨w, place⟩ input ⟨w', place⟩
  | go {w w' : World} {place place' : Place} (taken : go setup w place = some (w', place')) :
      Move setup ⟨w, place⟩ .go ⟨w', place'⟩
  | built {w : World} : Move setup ⟨w, .building⟩ .built ⟨{ w with spawned := true }, .starting⟩
  | buildFails {w : World} (reason : StopReason) :
      Move setup ⟨w, .building⟩ (.buildFails reason) ⟨w.return_ (.failed reason), .finished⟩
  | specGone {w : World} (dropPanic : Option String) :
      Move setup ⟨w, .building⟩ (.specGone dropPanic)
        ⟨{ w.return_ (.cancelled dropPanic) with cancelled := true }, .finished⟩
  | adopt {w : World} : Move setup ⟨w, .handed⟩ .adopt ⟨w, .runnerStart⟩

theorem move_of_step {setup : Setup} {s s' : State} {input : Input}
    (htaken : step setup s input = some s') : Move setup s input s' := by
  obtain ⟨w, place⟩ := s
  have hother (input : Input) (hstep : step setup ⟨w, place⟩ input = some s')
      (heq : step setup ⟨w, place⟩ input = (w.other input).map (State.mk · place)) :
      Move setup ⟨w, place⟩ input s' := by
    obtain ⟨w', hw', rfl⟩ := Option.map_eq_some_iff.mp (heq.symm.trans hstep)
    exact .outside (outside_of_other hw')
  cases input with
  | go =>
    obtain ⟨⟨w', place'⟩, hgo, rfl⟩ := Option.map_eq_some_iff.mp htaken
    exact .go hgo
  | built =>
    cases place <;> cases htaken
    exact .built
  | buildFails reason =>
    cases place <;> cases htaken
    exact .buildFails reason
  | specGone dropPanic =>
    cases place <;> cases htaken
    exact .specGone dropPanic
  | adopt =>
    cases place <;> cases htaken
    exact .adopt
  | tick | writeOrder | cancelUnspawned | markReasked | closeCommands | subtreeEnds | subtreeExpires
    | raise | closeToNonKill | sealLane | dropLane | acknowledge | endTask =>
      exact hother _ htaken rfl

/-! ## What a ladder touches -/

namespace World

variable (w : World) (grace : Nat) (step : LadderStep) (event : LadderEvent)

theorem advance_fst :
    (w.advance grace step event).1 =
      { w with
        lane := (w.perform (ladderStep step event w.now grace).2).lane
        kills := (w.perform (ladderStep step event w.now grace).2).kills
        unresponsive := (w.perform (ladderStep step event w.now grace).2).unresponsive
        trail := w.trail.add w.now (ladderStep step event w.now grace).2 } := by
  dsimp only [advance]
  cases (ladderStep step event w.now grace).2 <;> rfl

@[simp] theorem advance_snd :
    (w.advance grace step event).2 = (ladderStep step event w.now grace).1 := rfl

@[simp] theorem advance_now : (w.advance grace step event).1.now = w.now := by
  rw [advance_fst]

@[simp] theorem advance_stop : (w.advance grace step event).1.stop = w.stop := by
  rw [advance_fst]

@[simp] theorem advance_unseen : (w.advance grace step event).1.unseen = w.unseen := by
  rw [advance_fst]

@[simp] theorem advance_closed : (w.advance grace step event).1.closed = w.closed := by
  rw [advance_fst]

@[simp] theorem advance_ended : (w.advance grace step event).1.ended = w.ended := by
  rw [advance_fst]

@[simp] theorem advance_fate : (w.advance grace step event).1.fate = w.fate := by
  rw [advance_fst]

@[simp] theorem advance_spawned : (w.advance grace step event).1.spawned = w.spawned := by
  rw [advance_fst]

@[simp] theorem advance_outcomes : (w.advance grace step event).1.outcomes = w.outcomes := by
  rw [advance_fst]

@[simp] theorem advance_checked : (w.advance grace step event).1.checked = w.checked := by
  rw [advance_fst]

@[simp] theorem advance_armed : (w.advance grace step event).1.armed = w.armed := by
  rw [advance_fst]

@[simp] theorem advance_ack : (w.advance grace step event).1.ack = w.ack := by
  rw [advance_fst]

@[simp] theorem advance_trail :
    (w.advance grace step event).1.trail =
      w.trail.add w.now (ladderStep step event w.now grace).2 := rfl

end World

theorem Adds.advance (w : World) (grace : Nat) (step : LadderStep) (event : LadderEvent) :
    Adds w (w.advance grace step event).1 := by
  have hperform (action : LadderAction) : Adds w (w.perform action) := by
    cases action with
    | raise signal => exact .raise w signal.reason nofun
    | none | abort | writeVerdict | releaseMark => exact .of_same rfl rfl
  exact (hperform (ladderStep step event w.now grace).2).trans (.of_same rfl rfl)

theorem Adds.start (w : World) (grace : Nat) (step : LadderStep) (order : StopOrder) :
    Adds w (w.start grace step order).1 :=
  (Adds.advance w grace step (.order order)).trans (.of_same rfl rfl)

/-! ## Ladders in a run -/

/-- Where a ladder is and what it did, for the order it was started from. -/
inductive OnLadder (grace : Nat) : Option StopOrder → LadderStep → Trail → Prop
  | idle : OnLadder grace none .idle []
  | climb {order : StopOrder} {step : LadderStep} {trail : Trail}
      (climb : Climb grace order step trail) : OnLadder grace (some order) step trail

/-- An order in the command cell was issued before now. -/
def Dated (w : World) : Prop := ∀ order, w.stop = some order → order.issuedAt ≤ w.now

theorem Dated.outside {w w' : World} (hdated : Dated w) (hframe : Outside w w') : Dated w' := by
  intro order hstop
  cases hold : w.stop with
  | none => exact (hframe.written hold order hstop).2.1
  | some first =>
    obtain rfl : first = order := Option.some.inj ((hframe.stop first hold).symm.trans hstop)
    exact (hdated first hold).trans hframe.now

namespace OnLadder

variable {w : World} {grace : Nat} {step : LadderStep}

theorem of_idle {armed : Option StopOrder} {trail : Trail}
    (hon : OnLadder grace armed .idle trail) :
    armed = none ∧ trail = [] := by
  cases hon with
  | idle => exact ⟨rfl, rfl⟩
  | climb hclimb => exact absurd rfl hclimb.ne_idle

theorem start {order : StopOrder} (hon : OnLadder grace w.armed .idle w.trail)
    (hissued : order.issuedAt ≤ w.now) :
    OnLadder grace (w.start grace .idle order).1.armed (w.start grace .idle order).2
      (w.start grace .idle order).1.trail := by
  have htrail : (w.start grace .idle order).1.trail = opening order w.now := by
    show w.trail.add w.now _ = _
    rw [hon.of_idle.2]
    rfl
  rw [htrail]
  exact .climb (Climb.of_order hissued)

theorem deadline {deadline : Nat} (hon : OnLadder grace w.armed step w.trail)
    (hdeadline : step.deadline = some deadline) (hdue : deadline ≤ w.now) :
    OnLadder grace (w.advance grace step .deadlineReached).1.armed
      (w.advance grace step .deadlineReached).2
      (w.advance grace step .deadlineReached).1.trail := by
  rw [World.advance_armed, World.advance_snd, World.advance_trail]
  generalize w.armed = armed, w.trail = trail at hon ⊢
  cases hon with
  | idle => cases hdeadline
  | climb hclimb =>
    cases step with
    | idle | spent => cases hdeadline
    | graceful window =>
      obtain rfl : window = some deadline := hdeadline
      exact .climb (hclimb.kill hdue)
    | killGrace until_ =>
      obtain rfl : until_ = deadline := Option.some.inj hdeadline
      exact .climb (hclimb.abort hdue)
    | abortGrace until_ =>
      obtain rfl : until_ = deadline := Option.some.inj hdeadline
      exact .climb (hclimb.verdict hdue)

end OnLadder

end TokioActors.Executor
