/-
# Spawns, actors and raisers

Every number is drawn by one spawn, for one spec. The spawn files its name and
then its id under the number, the actor of that number runs once both are filed,
and a raiser finds the incarnation only through an entry that was filed: so who
found it by a key came after the spawn filed that key.
-/

import TokioActors.System.Slots

namespace TokioActors.System

open Machine.Pool

variable {allowed : State → Nat × Input → Prop} {systemName : String} {shards : ℕ+}
  {hash : ActorId → Nat} {state : State}
variable {s' s : Shared} {spec : Spec} {stage' stage : SpawnStage} {place place' : Place}
  {input : Input} {entering : List Place} {raiser raiser' : Raiser} {i : Nat}

/-! ## The raisers of a system -/

/-- The raisers of a system: those that parties are in, and those that returned. -/
def Raises (state : State) (raiser : Raiser) : Prop :=
  raiser ∈ state.shared.raises ∨ ∃ place ∈ state.parties, place.raiser? = some raiser

theorem Raiser.Takes.raises (htakes : raiser.Takes s s' raiser') :
    s'.raises = s.raises ∨ raiser'.stage = .done ∧ s'.raises = s.raises ++ [raiser'] := by
  cases htakes with
  | clock | raise | read => exact .inl rfl
  | declare =>
    unfold Raiser.declare
    split <;> exact .inl rfl
  | refuse | miss | arm => exact .inr ⟨rfl, rfl⟩

theorem Raiser.due_congr
    (hbirth : (s'.incarnations raiser.seq).birth = (s.incarnations raiser.seq).birth) :
    raiser.after s' = raiser.after s ∧ raiser.due s' = raiser.due s := by
  have hgrace : (s'.incarnations raiser.seq).killGrace = (s.incarnations raiser.seq).killGrace :=
    congrArg (fun birth => birth.2.2.2) hbirth
  simp [Raiser.due, Raiser.after, hgrace]

/-! ## Drawn numbers -/

/-- The number a spawn has drawn, until it is refused. -/
def SpawnStage.seq? : SpawnStage → Option Seq
  | phaseCheck => none
  | drawSeq => none
  | claimName seq => some seq
  | claimId seq => some seq
  | releaseName seq _ => some seq
  | refused _ => none
  | attachId seq => some seq
  | attachName seq _ => some seq
  | readLane seq _ => some seq
  | readIdDue seq => some seq
  | readNameDue seq _ => some seq
  | readClock seq _ => some seq
  | arm seq _ _ => some seq
  | attached seq => some seq

def SpawnStage.filed : SpawnStage → Bool
  | phaseCheck => false
  | drawSeq => false
  | claimName _ => false
  | claimId _ => false
  | releaseName _ _ => false
  | refused _ => false
  | _ => true

/-- The spawn has filed its name, when it has one. -/
def SpawnStage.named : SpawnStage → Bool
  | phaseCheck => false
  | drawSeq => false
  | claimName _ => false
  | _ => true

theorem drawn_spawn (htaken : spec.step s stage = some (s', stage')) :
    stage'.seq? = none ∨ stage'.seq? = stage.seq? ∨
      stage = .drawSeq ∧ stage'.seq? = some s.registrationSeq ∧
        s'.registrationSeq = s.registrationSeq + 1 ∧
        (s'.incarnations s.registrationSeq).id = spec.id ∧
        (s'.incarnations s.registrationSeq).name = spec.name := by
  cases stage with
  | drawSeq =>
    cases htaken
    refine .inr (.inr ⟨rfl, ?_, rfl, by simp, by simp⟩)
    split <;> rfl
  | phaseCheck | claimName | claimId | attachName =>
    simp only [Spec.step] at htaken
    split at htaken
    all_goals try split at htaken
    all_goals
      cases htaken
      first | exact .inl rfl | exact .inr (.inl rfl)
  | readLane =>
    cases htaken
    refine .inr (.inl ?_)
    split <;> rfl
  | releaseName | attachId | readIdDue | readNameDue | readClock | arm =>
    cases htaken
    first | exact .inl rfl | exact .inr (.inl rfl)
  | refused | attached => cases htaken

/-- The number was drawn for what the spec registers. -/
def Drawn (s : Shared) (spec : Spec) (seq : Seq) : Prop :=
  seq < s.registrationSeq ∧ (s.incarnations seq).id = spec.id ∧
    (s.incarnations seq).name = spec.name

/-- The spec and the number of a spawn that has drawn one, and of an actor. -/
def Place.draw : Place → Option (Spec × Seq)
  | spawn spec stage => stage.seq?.map fun seq => (spec, seq)
  | actor spec seq => some (spec, seq)
  | _ => none

/-- What one step does to the spawns and the actors. -/
inductive Cast (s s' : Shared) : Place → Place → List Place → Prop
  | spawn {spec : Spec} {stage stage' : SpawnStage} {entering : List Place}
      (taken : spec.step s stage = some (s', stage'))
      (entering_eq : entering = [] ∨
        ∃ seq, stage = .claimId seq ∧ stage' = .attachId seq ∧ entering = [.actor spec seq]) :
      Cast s s' (.spawn spec stage) (.spawn spec stage') entering
  | actor {spec : Spec} {seq : Seq} : Cast s s' (.actor spec seq) (.actor spec seq) []
  | rest {place place' : Place} {entering : List Place}
      (caller : ∀ spec stage, place ≠ .spawn spec stage) (own' : place'.draw = none)
      (one : entering.length ≤ 1)
      (others : ∀ other ∈ entering, other.draw = none) : Cast s s' place place' entering

theorem cast_next (htaken : next s place input = some (s', place', entering)) :
    Cast s s' place place' entering := by
  cases took_of_next htaken with
  | tick | raise | reactivate | raiser | walk =>
    exact .rest (by rintro _ _ ⟨⟩) rfl (by simp) (by simp)
  | call | kill | shutdown =>
    exact .rest (by rintro _ _ ⟨⟩) rfl le_rfl (by simp [Place.draw, SpawnStage.seq?])
  | spawn hstep heq => exact .spawn hstep heq
  | actor => exact .actor

/-- Where a raiser of the state after a step comes from: it was there, it was
just called, or it took the step. -/
theorem raises_next (hplace : state.parties[i]? = some place)
    (htaken : next state.shared place input = some (s', place', entering))
    (hraises : Raises ⟨s', state.parties.set i place' ++ entering⟩ raiser') :
    Raises state raiser' ∨
      (s' = state.shared ∧ (∀ spec stage, place ≠ .spawn spec stage) ∧
        ∃ key seq window, key.find state.shared = some seq ∧
          raiser' = ⟨key, seq, window, .clock, 0, none, false⟩) ∨
      ∃ raiser, Raises state raiser ∧ place.raiser? = some raiser ∧
        raiser.Takes state.shared s' raiser' := by
  obtain ⟨hown, hentering⟩ := errand_next htaken
  have hmem := List.mem_of_getElem? hplace
  rcases hraises with hreturned | ⟨other, hother, hraiser⟩
  · have hold (hsame : s'.raises = state.shared.raises) : Raises state raiser' :=
      .inl (hsame ▸ hreturned)
    generalize place'.raiser? = after at hown
    cases hown with
    | idle hsame => exact .inl (hold hsame)
    | call hsame => exact .inl (hold (congrArg Shared.raises hsame))
    | step hbefore htakes =>
      rcases htakes.raises with hsame | ⟨_, hmore⟩
      · exact .inl (hold hsame)
      · rcases List.mem_append.mp (hmore ▸ hreturned) with hin | hnew
        · exact .inl (.inl hin)
        · obtain rfl := List.mem_singleton.mp hnew
          exact .inr (.inr ⟨_, .inr ⟨place, hmem, hbefore⟩, hbefore, htakes⟩)
  · rcases List.mem_append.mp hother with hset | hnew
    · rcases List.mem_or_eq_of_mem_set hset with hin | rfl
      · exact .inl (.inr ⟨other, hin, hraiser⟩)
      · rw [hraiser] at hown
        have hcaller : ∀ spec stage, place ≠ .spawn spec stage := by
          rintro spec stage rfl
          cases cast_next htaken with
          | spawn => cases hraiser
          | rest hcaller => exact hcaller spec stage rfl
        cases hown with
        | call hsame hfound => exact .inr (.inl ⟨hsame, hcaller, _, _, _, hfound, rfl⟩)
        | step hbefore htakes => exact .inr (.inr ⟨_, .inr ⟨place, hmem, hbefore⟩, hbefore, htakes⟩)
    · have hcalled := hentering other hnew
      rw [hraiser] at hcalled
      have hcaller : ∀ spec stage, place ≠ .spawn spec stage := by
        rintro spec stage rfl
        cases cast_next htaken with
        | spawn _ hactors =>
          rcases hactors with rfl | ⟨_, rfl, rfl, rfl⟩
          · cases hnew
          · obtain rfl := List.mem_singleton.mp hnew
            cases hraiser
        | rest hcaller => exact hcaller spec stage rfl
      cases hcalled with
      | call hsame hfound => exact .inr (.inl ⟨hsame, hcaller, _, _, _, hfound, rfl⟩)
      | step hbefore => cases hbefore

theorem Reaches.drawn (hreach : Reaches allowed systemName shards hash state) :
    ∀ place ∈ state.parties, ∀ draw, place.draw = some draw →
      Drawn state.shared draw.1 draw.2 := by
  refine @each_reached _ _ _ next allowed _ state
    (fun s place => ∀ draw, place.draw = some draw → Drawn s draw.1 draw.2) ?_ ?_ hreach
  · intro place hplace draw hdraw
    obtain rfl : place = .world := by simpa [init] using hplace
    cases hdraw
  · intro state i input place place' s' entering hbefore hdrawn _ hplace htaken
    have hfiling := Reaches.filing hbefore hplace htaken
    have hstays {spec : Spec} {seq : Seq} (h : Drawn state.shared spec seq) :
        Drawn s' spec seq := by
      obtain ⟨hlt, hbirth⟩ := hfiling.drawn h.1
      exact ⟨hlt, (congrArg Prod.fst hbirth).trans h.2.1,
        (congrArg (fun birth => birth.2.1) hbirth).trans h.2.2⟩
    have hown := hdrawn place (List.mem_of_getElem? hplace)
    refine ⟨fun j other _ hother draw hdraw =>
      hstays (hdrawn other (List.mem_of_getElem? hother) draw hdraw), ?_⟩
    cases cast_next htaken with
    | @spawn spec stage stage' _ hstep hentering =>
      refine ⟨fun draw hdraw => ?_, fun other hother draw hdraw => ?_⟩
      · obtain ⟨seq, hseq, rfl⟩ := Option.map_eq_some_iff.mp hdraw
        rcases drawn_spawn hstep with hnone | hsame | ⟨_, hnew, hnext, hid, hname⟩
        · cases hnone.symm.trans hseq
        · exact hstays (hown (spec, seq) (by simp [Place.draw, hsame ▸ hseq]))
        · cases hnew.symm.trans hseq
          exact ⟨hnext ▸ Nat.lt_succ_self _, hid, hname⟩
      · rcases hentering with rfl | ⟨seq, rfl, rfl, rfl⟩
        · cases hother
        · obtain rfl := List.mem_singleton.mp hother
          cases hdraw
          exact hstays (hown (spec, seq) rfl)
    | actor => exact ⟨fun draw hdraw => hstays (hown draw hdraw), by simp⟩
    | rest _ hnone _ hentering =>
      refine ⟨fun draw hdraw => ?_, fun other hother draw hdraw => ?_⟩
      · cases hnone.symm.trans hdraw
      · cases (hentering other hother).symm.trans hdraw

/-- A number is drawn by one spawn, and there is an actor of that number only once
the spawn has filed its id. -/
def Apart (first second : Place) : Prop :=
  ∀ spec stage seq, first = .spawn spec stage → stage.seq? = some seq →
    (∀ spec' stage', second = .spawn spec' stage' → stage'.seq? ≠ some seq) ∧
    ∀ spec', second = .actor spec' seq → stage.filed = true

theorem Apart.left {first second : Place} (hnone : first.draw = none) : Apart first second := by
  rintro spec stage seq rfl hseq
  simp [Place.draw, hseq] at hnone

theorem Apart.right {first second : Place} (hnone : second.draw = none) : Apart first second := by
  intro spec stage seq _ _
  refine ⟨?_, ?_⟩
  · rintro spec' stage' rfl hseq
    simp [Place.draw, hseq] at hnone
  · rintro spec' rfl
    cases hnone

theorem filed_spawn (htaken : spec.step s stage = some (s', stage')) (hfiled : stage.filed = true) :
    stage'.filed = true := by
  cases stage with
  | attachName =>
    simp only [Spec.step] at htaken
    split at htaken <;> cases htaken <;> rfl
  | readLane =>
    cases htaken
    split <;> rfl
  | attachId | readIdDue | readNameDue | readClock | arm =>
    cases htaken
    rfl
  | attached => cases htaken
  | phaseCheck | drawSeq | claimName | claimId | releaseName | refused => cases hfiled

theorem named_spawn (htaken : spec.step s stage = some (s', stage')) (hnamed : stage.named = true) :
    stage'.named = true := by
  cases stage with
  | claimId | attachName =>
    simp only [Spec.step] at htaken
    split at htaken
    all_goals try split at htaken
    all_goals
      cases htaken
      rfl
  | readLane =>
    cases htaken
    split <;> rfl
  | releaseName | attachId | readIdDue | readNameDue | readClock | arm =>
    cases htaken
    rfl
  | attached | refused => cases htaken
  | phaseCheck | drawSeq | claimName => cases hnamed

section

variable (hreach : Reaches allowed systemName shards hash state)

include hreach

theorem Reaches.apart :
    ∀ (i j : Nat) (first second : Place), i ≠ j → state.parties[i]? = some first →
      state.parties[j]? = some second → Apart first second := by
  refine @pairs_reached _ _ _ next allowed _ state (fun _ => Apart) ?_ ?_ hreach
  · intro i j first second _ hfirst _
    have hmem := List.mem_of_getElem? hfirst
    obtain rfl : first = .world := by simpa [init] using hmem
    exact .left rfl
  · intro state i input place place' s' entering hbefore hapart _ hplace htaken
    refine ⟨fun j k first second _ _ hjk => hapart j k first second hjk, ?_⟩
    have hfresh (other : Place) (hother : other ∈ state.parties) {spec : Spec} :
        other.draw ≠ some (spec, state.shared.registrationSeq) := fun hdraw =>
      (Reaches.drawn hbefore other hother _ hdraw).1.ne rfl
    cases cast_next htaken with
    | @spawn spec stage stage' _ hstep hentering =>
      refine ⟨fun j other hji hother => ⟨?_, ?_⟩, ?_, ?_⟩
      · rintro _ _ seq ⟨⟩ hseq
        rcases drawn_spawn hstep with hnone | hsame | ⟨_, hnew, _⟩
        · cases hnone.symm.trans hseq
        · have hold := hapart i j _ other hji.symm hplace hother spec stage seq rfl (hsame ▸ hseq)
          exact ⟨hold.1, fun spec' hactor => filed_spawn hstep (hold.2 spec' hactor)⟩
        · cases hnew.symm.trans hseq
          refine ⟨?_, ?_⟩
          · rintro spec' stage'' rfl hseq'
            exact hfresh _ (List.mem_of_getElem? hother) (by rw [Place.draw, hseq']; rfl)
          · rintro spec' rfl
            exact absurd rfl (hfresh _ (List.mem_of_getElem? hother))
      · rintro spec' stage'' seq rfl hseq'
        refine ⟨?_, (by rintro _ ⟨⟩)⟩
        rintro _ _ ⟨⟩ hseq
        rcases drawn_spawn hstep with hnone | hsame | ⟨_, hnew, _⟩
        · cases hnone.symm.trans hseq
        · have hold := hapart j i _ _ hji hother hplace spec' stage'' seq rfl hseq'
          exact hold.1 spec stage rfl (hsame ▸ hseq)
        · cases hnew.symm.trans hseq
          exact hfresh _ (List.mem_of_getElem? hother) (by rw [Place.draw, hseq']; rfl)
      · rcases hentering with rfl | ⟨seq, rfl, rfl, rfl⟩ <;> simp
      · intro newcomer hnew
        rcases hentering with rfl | ⟨seq, rfl, rfl, rfl⟩
        · cases hnew
        · obtain rfl := List.mem_singleton.mp hnew
          refine ⟨⟨?_, (by rintro _ _ _ ⟨⟩)⟩, fun j other hji hother => ⟨(by rintro _ _ _ ⟨⟩), ?_⟩⟩
          · rintro _ _ seq' ⟨⟩ hseq
            exact ⟨(by rintro _ _ ⟨⟩), fun _ _ => rfl⟩
          · rintro spec' stage'' seq' rfl hseq'
            refine ⟨(by rintro _ _ ⟨⟩), ?_⟩
            rintro _ ⟨⟩
            have hold := hapart j i _ _ hji hother hplace spec' stage'' seq rfl hseq'
            exact absurd rfl (hold.1 spec (.claimId seq) rfl)
    | actor =>
      exact ⟨fun j other hji hother =>
        ⟨hapart i j _ other hji.symm hplace hother, hapart j i other _ hji hother hplace⟩, by simp⟩
    | rest _ hnone hone hentering =>
      exact ⟨fun j other _ _ => ⟨.left hnone, .right hnone⟩, hone, fun newcomer hnew =>
        ⟨⟨.left hnone, .right hnone⟩, fun j other _ _ =>
          ⟨.left (hentering newcomer hnew), .right (hentering newcomer hnew)⟩⟩⟩

/-- Where a spawn of the state after a step comes from: it waits while another
party steps, or it took the step. -/
theorem spawns_next (hplace : state.parties[i]? = some place)
    (htaken : next state.shared place input = some (s', place', entering))
    {seq : Seq} (hseq : stage'.seq? = some seq)
    (hspawn : .spawn spec stage' ∈ state.parties.set i place' ++ entering) :
    (.spawn spec stage' ∈ state.parties ∧
      (∀ spec' stage, place = .spawn spec' stage → stage.seq? ≠ some seq) ∧
      ∀ spec', place = .actor spec' seq → stage'.filed = true) ∨
    ∃ stage, place = .spawn spec stage ∧ spec.step state.shared stage = some (s', stage') := by
  obtain ⟨j, hj⟩ := List.mem_iff_getElem?.mp hspawn
  rcases getElem?_after hplace hj with ⟨_, rfl⟩ | ⟨hji, hold⟩ | ⟨_, hnew⟩
  · cases cast_next htaken with
    | spawn hstep => exact .inr ⟨_, rfl, hstep⟩
    | rest _ hnone => simp [Place.draw, hseq] at hnone
  · have hapart := hreach.apart j i _ place hji hold hplace spec stage' seq rfl hseq
    exact .inl ⟨List.mem_of_getElem? hold, hapart⟩
  · have hmem := List.mem_of_getElem? hnew
    cases cast_next htaken with
    | spawn _ hentering =>
      rcases hentering with rfl | ⟨_, rfl, rfl, rfl⟩
      · cases hmem
      · cases List.mem_singleton.mp hmem
    | actor => cases hmem
    | rest _ _ _ hentering =>
      have hnone := hentering _ hmem
      simp [Place.draw, hseq] at hnone

/-! ## What a step leaves of an incarnation -/

theorem Reaches.clocked :
    ∀ raiser, Raises state raiser → raiser.stage ≠ .clock → 0 < raiser.clockAt := by
  refine @invariant _ _ _ next allowed _ state
    (fun state => ∀ raiser, Raises state raiser → raiser.stage ≠ .clock → 0 < raiser.clockAt)
    ?_ ?_ hreach
  · rintro raiser (hreturned | ⟨place, hplace, hraiser⟩)
    · cases hreturned
    · obtain rfl : place = .world := by simpa [init] using hplace
      cases hraiser
  · intro state i input place place' s' entering hclocked _ hplace htaken raiser' hraises hstage'
    rcases raises_next hplace htaken hraises with
      hold | ⟨_, _, key, seq, window, _, rfl⟩ | ⟨raiser, hold, _, htakes⟩
    · exact hclocked raiser' hold hstage'
    · exact absurd rfl hstage'
    · cases htakes with
      | clock => exact Nat.lt_of_lt_of_le Nat.one_pos (le_max_right _ _)
      | declare hstage | raise hstage | refuse hstage | read hstage | miss hstage
      | arm hstage => exact hclocked raiser hold (by rw [hstage]; rintro ⟨⟩)

theorem Reaches.evolves (hplace : state.parties[i]? = some place)
    (htaken : next state.shared place input = some (s', place', entering)) (seq : Seq) :
    Evolves seq state.shared place s' := by
  refine evolves_next (fun raiser hraiser hstage => ?_) htaken
  exact hreach.clocked raiser (.inr ⟨place, List.mem_of_getElem? hplace, hraiser⟩)
    (by rw [hstage]; nofun)

end

/-- No two entries share a name, and an entry's number was drawn for its name. -/
structure Named (s : Shared) : Prop where
  nodup : (s.byName.map Entry.key).Nodup
  known : ∀ entry ∈ s.byName, entry.seq < s.registrationSeq ∧
    (s.incarnations entry.seq).name = some entry.key

theorem Reaches.named (hreach : Reaches allowed systemName shards hash state) :
    Named state.shared := by
  refine @invariant_reached _ _ _ next allowed _ state (fun state => Named state.shared)
    ⟨by simp [init], by simp [init]⟩ ?_ hreach
  intro state i input place place' s' entering hbefore hnamed _ hplace htaken
  have hfiling := Reaches.filing hbefore hplace htaken
  have hstays {seq : Seq} {name : String} (hdrawn : seq < state.shared.registrationSeq)
      (hname : (state.shared.incarnations seq).name = some name) :
      seq < s'.registrationSeq ∧ (s'.incarnations seq).name = some name := by
    obtain ⟨hlt, hbirth⟩ := hfiling.drawn hdrawn
    exact ⟨hlt, (congrArg (fun birth => birth.2.1) hbirth).trans hname⟩
  have hevolves := Reaches.evolves hbefore hplace htaken
  by_cases hclaims : ∃ spec seq, place = .spawn spec (.claimName seq)
  · obtain ⟨spec, seq, rfl⟩ := hclaims
    have hdrawn := Reaches.drawn hbefore _ (List.mem_of_getElem? hplace) (spec, seq) rfl
    have hkept (hsame : s'.byName = state.shared.byName) : Named s' := by
      refine ⟨hsame ▸ hnamed.nodup, fun entry hmem => ?_⟩
      obtain ⟨hlt, hname⟩ := hnamed.known entry (hsame ▸ hmem)
      exact hstays hlt hname
    cases cast_next htaken with
    | rest hcaller => exact absurd rfl (hcaller _ _)
    | spawn hstep =>
      simp only [Spec.step] at hstep
      split at hstep
      · cases hstep
        exact hkept rfl
      · rename_i name hspec
        split at hstep
        · cases hstep
          exact hkept rfl
        · rename_i hfree
          cases hstep
          refine ⟨?_, fun entry hmem => ?_⟩
          · rw [Keyed.find_isSome_iff] at hfree
            simp only [List.map_append, List.map_cons, List.map_nil]
            exact List.Nodup.append hnamed.nodup (by simp) (by simpa using hfree)
          · rcases List.mem_append.mp hmem with hold | hnew
            · exact hnamed.known entry hold
            · obtain rfl := List.mem_singleton.mp hnew
              exact ⟨hdrawn.1, hdrawn.2.2.trans hspec⟩
  · have hother (spec : Spec) (seq : Seq) : place ≠ .spawn spec (.claimName seq) := fun h =>
      hclaims ⟨spec, seq, h⟩
    refine ⟨hnamed.nodup.sublist ((hevolves 0).keys hother), fun entry hmem => ?_⟩
    obtain ⟨old, hold, hle⟩ := (hevolves entry.seq).names (fun spec => hother spec _) entry hmem rfl
    obtain ⟨hlt, hname⟩ := hnamed.known old hold
    rw [hle.seq, hle.key]
    exact hstays hlt hname

/-- A spawn has no entry by id before it files it, and none by name. -/
def Unfiled (s : Shared) (stage : SpawnStage) (seq : Seq) : Prop :=
  (stage.filed = false → ∀ entry ∈ s.byId, entry.seq ≠ seq) ∧
    (stage.named = false → ∀ entry ∈ s.byName, entry.seq ≠ seq)

theorem Reaches.unfiled (hreach : Reaches allowed systemName shards hash state) :
    ∀ spec stage seq, .spawn spec stage ∈ state.parties → stage.seq? = some seq →
      Unfiled state.shared stage seq := by
  refine @invariant_reached _ _ _ next allowed _ state
    (fun state => ∀ spec stage seq, .spawn spec stage ∈ state.parties → stage.seq? = some seq →
      Unfiled state.shared stage seq) ?_ ?_ hreach
  · intro spec stage seq hspawn
    simp [init] at hspawn
  intro state i input place place' s' entering hbefore hunfiled _ hplace htaken spec stage' seq
    hspawn hseq
  have hevolves := Reaches.evolves hbefore hplace htaken seq
  rcases spawns_next hbefore hplace htaken hseq hspawn with
    ⟨hold, hother, _⟩ | ⟨stage, rfl, hstep⟩
  · obtain ⟨hids, hnames⟩ := hunfiled spec stage' seq hold hseq
    refine ⟨fun hnone entry hmem heq => ?_, fun hnone entry hmem heq => ?_⟩
    · obtain ⟨old, hin, hle⟩ := hevolves.ids (fun spec' h => hother spec' _ h rfl) entry hmem heq
      exact hids hnone old hin (hle.seq.symm.trans heq)
    · obtain ⟨old, hin, hle⟩ := hevolves.names (fun spec' h => hother spec' _ h rfl) entry hmem heq
      exact hnames hnone old hin (hle.seq.symm.trans heq)
  · have hown := hunfiled spec stage
    have hmem := List.mem_of_getElem? hplace
    cases stage with
    | drawSeq =>
      cases hstep
      obtain rfl : state.shared.registrationSeq = seq := by
        split at hseq <;> exact Option.some.inj hseq
      refine ⟨fun _ entry hin heq => ?_, fun _ entry hin heq => ?_⟩
      · exact ((Reaches.filed hbefore).of_mem hin).1.ne heq
      · exact ((Reaches.named hbefore).known entry hin).1.ne heq
    | claimName =>
      simp only [Spec.step] at hstep
      split at hstep
      · cases hstep
        exact ⟨(hown seq hmem hseq).1, (by rintro ⟨⟩)⟩
      · split at hstep <;> cases hstep
        · cases hseq
        · exact ⟨(hown seq hmem hseq).1, (by rintro ⟨⟩)⟩
    | claimId =>
      simp only [Spec.step] at hstep
      split at hstep
      · split at hstep <;> cases hstep
        · exact ⟨(hown seq hmem hseq).1, (by rintro ⟨⟩)⟩
        · cases hseq
      · cases hstep
        exact ⟨(by rintro ⟨⟩), (by rintro ⟨⟩)⟩
    | attachName =>
      simp only [Spec.step] at hstep
      split at hstep <;> cases hstep <;> exact ⟨(by rintro ⟨⟩), (by rintro ⟨⟩)⟩
    | readLane =>
      cases hstep
      split <;> exact ⟨(by rintro ⟨⟩), (by rintro ⟨⟩)⟩
    | phaseCheck =>
      simp only [Spec.step] at hstep
      split at hstep <;> cases hstep <;> cases hseq
    | releaseName =>
      cases hstep
      cases hseq
    | attachId | readIdDue | readNameDue | readClock | arm =>
      cases hstep
      exact ⟨(by rintro ⟨⟩), (by rintro ⟨⟩)⟩
    | refused | attached => cases hstep

/-! ## What a raiser finds -/

/-- The raiser found the incarnation by its own id, or by its own name. -/
structure Raiser.Found (s : Shared) (raiser : Raiser) : Prop where
  drawn : raiser.seq < s.registrationSeq
  byId : ∀ key, raiser.key = .id key → (s.incarnations raiser.seq).id = key
  byName : ∀ key, raiser.key = .name key → (s.incarnations raiser.seq).name = some key

theorem Raiser.Takes.same (htakes : raiser.Takes s s' raiser') :
    raiser'.key = raiser.key ∧ raiser'.seq = raiser.seq ∧ raiser'.window = raiser.window := by
  cases htakes <;> exact ⟨rfl, rfl, rfl⟩

theorem KillKey.mem_of_find {key : KillKey} {seq : Seq} (hfound : key.find s = some seq) :
    (∀ own, key = .id own → ∃ entry ∈ s.byId, entry.key = own ∧ entry.seq = seq) ∧
      ∀ own, key = .name own → ∃ entry ∈ s.byName, entry.key = own ∧ entry.seq = seq := by
  refine ⟨?_, ?_⟩
  all_goals
    rintro own rfl
    obtain ⟨entry, hfind, hseq⟩ := Option.map_eq_some_iff.mp hfound
    exact ⟨entry, Keyed.mem_of_find hfind, Keyed.key_of_find hfind, hseq⟩

theorem Reaches.found (hreach : Reaches allowed systemName shards hash state) :
    ∀ raiser, Raises state raiser → raiser.Found state.shared := by
  refine @invariant_reached _ _ _ next allowed _ state
    (fun state => ∀ raiser, Raises state raiser → raiser.Found state.shared) ?_ ?_ hreach
  · rintro raiser (hreturned | ⟨place, hplace, hraiser⟩)
    · cases hreturned
    · obtain rfl : place = .world := by simpa [init] using hplace
      cases hraiser
  · intro state i input place place' s' entering hbefore hfound _ hplace htaken raiser' hraises
    have hstays {raiser : Raiser} (h : raiser.Found state.shared) : raiser.Found s' := by
      obtain ⟨hlt, hbirth⟩ := (Reaches.filing hbefore hplace htaken).drawn h.drawn
      exact ⟨hlt, fun key hkey => (congrArg Prod.fst hbirth).trans (h.byId key hkey),
        fun key hkey => (congrArg (fun birth => birth.2.1) hbirth).trans (h.byName key hkey)⟩
    rcases raises_next hplace htaken hraises with
      hold | ⟨rfl, _, key, seq, window, hfind, rfl⟩ | ⟨raiser, hold, _, htakes⟩
    · exact hstays (hfound raiser' hold)
    · obtain ⟨hids, hnames⟩ := KillKey.mem_of_find hfind
      have hid (own : ActorId) (hown : key = .id own) :
          seq < state.shared.registrationSeq ∧ (state.shared.incarnations seq).id = own := by
        obtain ⟨entry, hmem, rfl, rfl⟩ := hids own hown
        exact (Reaches.filed hbefore).of_mem hmem
      have hname (own : String) (hown : key = .name own) :
          seq < state.shared.registrationSeq ∧ (state.shared.incarnations seq).name = some own := by
        obtain ⟨entry, hmem, rfl, rfl⟩ := hnames own hown
        exact (Reaches.named hbefore).known entry hmem
      refine ⟨?_, fun own hown => (hid own hown).2, fun own hown => (hname own hown).2⟩
      cases key with
      | id own => exact (hid own rfl).1
      | name own => exact (hname own rfl).1
    · obtain ⟨hkey, hseq, _⟩ := htakes.same
      obtain ⟨hdrawn, hid, hname⟩ := hstays (hfound raiser hold)
      exact ⟨hseq ▸ hdrawn, fun key h => hseq ▸ hid key (hkey ▸ h),
        fun key h => hseq ▸ hname key (hkey ▸ h)⟩

/-- Who finds an incarnation finds it after its spawn filed the entry. -/
theorem Reaches.placed (hreach : Reaches allowed systemName shards hash state) :
    ∀ raiser, Raises state raiser → ∀ spec stage, .spawn spec stage ∈ state.parties →
      stage.seq? = some raiser.seq →
      (∀ key, raiser.key = .id key → stage.filed = true) ∧
        ∀ key, raiser.key = .name key → stage.named = true := by
  refine @invariant_reached _ _ _ next allowed _ state
    (fun state => ∀ raiser, Raises state raiser → ∀ spec stage, .spawn spec stage ∈ state.parties →
      stage.seq? = some raiser.seq →
      (∀ key, raiser.key = .id key → stage.filed = true) ∧
        ∀ key, raiser.key = .name key → stage.named = true) ?_ ?_ hreach
  · intro raiser _ spec stage hspawn
    simp [init] at hspawn
  intro state i input place place' s' entering hbefore hplaced _ hplace htaken raiser' hraises spec
    stage' hspawn hseq
  rcases spawns_next hbefore hplace htaken hseq hspawn with
    ⟨hwaits, _⟩ | ⟨stage, rfl, hstep⟩
  · rcases raises_next hplace htaken hraises with
      hold | ⟨rfl, _, key, seq, window, hfind, rfl⟩ | ⟨raiser, hold, _, htakes⟩
    · exact hplaced raiser' hold spec stage' hwaits hseq
    · obtain ⟨hids, hnames⟩ := KillKey.mem_of_find hfind
      have hunfiled := Reaches.unfiled hbefore spec stage' seq hwaits hseq
      refine ⟨fun own hown => ?_, fun own hown => ?_⟩
      · obtain ⟨entry, hmem, _, heq⟩ := hids own hown
        by_contra hnot
        exact hunfiled.1 (by simpa using hnot) entry hmem heq
      · obtain ⟨entry, hmem, _, heq⟩ := hnames own hown
        by_contra hnot
        exact hunfiled.2 (by simpa using hnot) entry hmem heq
    · obtain ⟨hkey, hsame, _⟩ := htakes.same
      have hown := hplaced raiser hold spec stage' hwaits (hsame ▸ hseq)
      exact ⟨fun key h => hown.1 key (hkey ▸ h), fun key h => hown.2 key (hkey ▸ h)⟩
  · rcases raises_next hplace htaken hraises with
      hold | ⟨_, hcaller, _⟩ | ⟨raiser, _, hnone, _⟩
    · rcases drawn_spawn hstep with hnone | hsame | ⟨_, hnew, _⟩
      · cases hnone.symm.trans hseq
      · obtain ⟨hfiled, hnamed⟩ := hplaced raiser' hold spec stage (List.mem_of_getElem? hplace)
          (hsame ▸ hseq)
        exact ⟨fun key h => filed_spawn hstep (hfiled key h),
          fun key h => named_spawn hstep (hnamed key h)⟩
      · have hdrawn := (Reaches.found hbefore raiser' hold).drawn
        rw [← Option.some.inj (hnew.symm.trans hseq)] at hdrawn
        exact absurd hdrawn (Nat.lt_irrefl _)
    · exact absurd rfl (hcaller _ _)
    · cases hnone

end TokioActors.System
