/-
# The registry of a system

An incarnation is registered under one id for good: its number is drawn once,
and the id it was drawn for never changes. No two entries of the registry share
an id, so no two share an incarnation.
-/

import TokioActors.System.Phase

namespace TokioActors.System

open Machine.Pool

variable {s' s : Shared} {place place' : Place} {state : State} {entering : List Place}
  {allowed : State → Nat × Input → Prop} {systemName : String}

/-- The incarnation's number was drawn for the id. -/
def Known (s : Shared) (row : ActorId × Seq) : Prop :=
  row.2 < s.registrationSeq ∧ (s.incarnations row.2).id = row.1

def Place.claim : Place → Option (ActorId × Seq)
  | spawn spec (.claimName seq) => some (spec.id, seq)
  | spawn spec (.claimId seq) => some (spec.id, seq)
  | _ => none

/-- What one step of a party does to the registry by id. -/
inductive Filing (s : Shared) (place : Place) : Shared → Place → Prop
  | keep {s' : Shared} {place' : Place} (quiet : Quiet s s')
      (drawn : s'.registrationSeq = s.registrationSeq)
      (claim : place'.claim = none ∨ place'.claim = place.claim) : Filing s place s' place'
  | draw {s' : Shared} {place' : Place} {id : ActorId} (rows : s'.rows = s.rows)
      (drawn : s'.registrationSeq = s.registrationSeq + 1)
      (others : ∀ seq, seq ≠ s.registrationSeq →
        (s'.incarnations seq).birth = (s.incarnations seq).birth)
      (own : (s'.incarnations s.registrationSeq).id = id)
      (claim : place'.claim = some (id, s.registrationSeq)) : Filing s place s' place'
  | file {s' : Shared} {place' : Place} {row : ActorId × Seq}
      (claimed : place.claim = some row) (free : row.1 ∉ s.rows.map Prod.fst)
      (rows : s'.rows = s.rows ++ [row]) (drawn : s'.registrationSeq = s.registrationSeq)
      (births : ∀ seq, (s'.incarnations seq).birth = (s.incarnations seq).birth)
      (claim : place'.claim = none) : Filing s place s' place'

/-! ## Every step is a filing -/

theorem Passage.filing (hpassage : Passage s place s' place')
    (hadmitted : place.admitted = 0) (hadmitted' : place'.admitted = 0)
    (hclaim : place'.claim = none) : Filing s place s' place' := by
  have hkeep (hquiet : Quiet s s') (hdrawn : s'.registrationSeq = s.registrationSeq) :
      Filing s place s' place' := .keep hquiet hdrawn (.inl hclaim)
  cases hpassage with
  | calm hcalm => exact hkeep hcalm.toQuiet (congrArg Gate.registrationSeq hcalm.gate)
  | enrol _ _ _ hone => cases hadmitted'.symm.trans hone.2
  | draw _ hone | land _ hone => cases hadmitted.symm.trans hone.1
  | enter _ hgate hquiet | fold _ hgate hquiet =>
      exact hkeep hquiet (congrArg Gate.registrationSeq hgate)
  | visit | take | leave => exact hkeep (.of_eq rfl rfl) rfl
  | reactivate =>
    unfold Shared.reactivate
    split <;> exact .keep (.of_eq rfl rfl) rfl (.inl hclaim)

theorem filing_spawn {spec : Spec} {stage stage' : SpawnStage}
    (htaken : spec.step s stage = some (s', stage')) :
    Filing s (.spawn spec stage) s' (.spawn spec stage') := by
  cases stage with
  | phaseCheck | attachName =>
    simp only [Spec.step] at htaken
    split at htaken <;> cases htaken <;> exact .keep (.of_eq rfl rfl) rfl (.inl rfl)
  | drawSeq =>
    cases htaken
    refine @Filing.draw _ _ _ _ spec.id rfl rfl (fun seq hne => ?_) ?_ ?_
    · simp [hne]
    · simp
    · split <;> rfl
  | claimName =>
    simp only [Spec.step] at htaken
    split at htaken
    · cases htaken
      exact .keep (.of_eq rfl rfl) rfl (.inr rfl)
    · split at htaken <;> cases htaken
      · exact .keep (.of_eq rfl rfl) rfl (.inl rfl)
      · exact .keep (.of_eq rfl rfl) rfl (.inr rfl)
  | claimId seq =>
    simp only [Spec.step] at htaken
    split at htaken
    · split at htaken <;> cases htaken <;> exact .keep (.of_eq rfl rfl) rfl (.inl rfl)
    · rename_i hfree
      cases htaken
      refine @Filing.file _ _ _ _ (spec.id, seq) rfl ?_ ?_ rfl (fun _ => rfl) rfl
      · rw [Keyed.find_isSome_iff] at hfree
        simpa [Shared.rows, Function.comp_def] using hfree
      · simp [Shared.rows]
  | attachId seq =>
    cases htaken
    have hcalm : Calm s (s.onIdEntry spec.id seq fun entry => { entry with abort := true }) :=
      .onIdEntry (fun _ => rfl) fun _ => rfl
    exact .keep hcalm.toQuiet rfl (.inl rfl)
  | readLane =>
    cases htaken
    refine .keep (.of_eq rfl rfl) rfl (.inl ?_)
    split <;> rfl
  | releaseName | readIdDue | readNameDue | readClock | arm =>
    cases htaken
    exact .keep (.of_eq rfl rfl) rfl (.inl rfl)
  | refused | attached => cases htaken

theorem Place.claim_of_admitted (hadmitted : place.admitted = 0) :
    place.claim = none := by
  unfold Place.claim
  split
  · cases hadmitted
  · cases hadmitted
  · rfl

/-- Every step of a party is a filing. -/
theorem filing_next {input : Input}
    (hfresh : ∀ walk, place = .walk walk .enter → walk.first = none)
    (htaken : next s place input = some (s', place', entering)) :
    Filing s place s' place' := by
  have hpassage := (next_passage hfresh htaken).1
  cases took_of_next htaken with
  | spawn hstep => exact filing_spawn hstep
  | _ => exact hpassage.filing rfl rfl rfl

/-! ## Runs -/

theorem Filing.drawn (hfiling : Filing s place s' place')
    {seq : Seq} (hdrawn : seq < s.registrationSeq) :
    seq < s'.registrationSeq ∧ (s'.incarnations seq).birth = (s.incarnations seq).birth := by
  cases hfiling with
  | keep hquiet hsame => exact ⟨hsame ▸ hdrawn, hquiet.births seq⟩
  | draw hrows hnext hothers => exact ⟨hnext ▸ Nat.lt_succ_of_lt hdrawn, hothers seq hdrawn.ne⟩
  | file hclaimed hfree hrows hsame hbirths => exact ⟨hsame ▸ hdrawn, hbirths seq⟩

/-- What a step does to what is known: it stays. -/
theorem Filing.known (hfiling : Filing s place s' place')
    {row : ActorId × Seq} (hknown : Known s row) : Known s' row :=
  ⟨(hfiling.drawn hknown.1).1, (congrArg Prod.fst (hfiling.drawn hknown.1).2).trans hknown.2⟩

structure Filed (state : State) : Prop where
  keys : (state.shared.rows.map Prod.fst).Nodup
  known : ∀ row ∈ state.shared.rows, Known state.shared row
  claims : ∀ place ∈ state.parties, ∀ row, place.claim = some row → Known state.shared row

theorem Filed.step (hfiled : Filed state) {i : Nat} (hplace : state.parties[i]? = some place)
    (hfiling : Filing state.shared place s' place')
    (hentering : ∀ place ∈ entering, place.claim = none) :
    Filed ⟨s', state.parties.set i place' ++ entering⟩ := by
  have hmem : place ∈ state.parties := List.mem_of_getElem? hplace
  have hkeeps : ∀ row, Known state.shared row → Known s' row := fun _ => hfiling.known
  have hclaims : ∀ row, place'.claim = some row → Known s' row := by
    intro row hrow
    cases hfiling with
    | keep hquiet hdrawn hclaim =>
      rcases hclaim with hnone | hsame
      · cases hnone.symm.trans hrow
      · exact hkeeps row (hfiled.claims place hmem row (hsame ▸ hrow))
    | draw hrows hdrawn hothers hown hclaim =>
      cases hclaim.symm.trans hrow
      exact ⟨hdrawn ▸ Nat.lt_succ_self _, hown⟩
    | file _ _ _ _ _ hclaim => cases hclaim.symm.trans hrow
  refine ⟨?_, ?_, ?_⟩
  · cases hfiling with
    | keep hquiet => exact hfiled.keys.sublist (hquiet.rows.map _)
    | draw hrows => exact hrows ▸ hfiled.keys
    | file hclaimed hfree hrows =>
      simp only [hrows, List.map_append, List.map_cons, List.map_nil]
      exact List.Nodup.append hfiled.keys (by simp) (by simpa using hfree)
  · intro row hrow
    cases hfiling with
    | keep hquiet => exact hkeeps row (hfiled.known row (hquiet.rows.subset hrow))
    | draw hrows => exact hkeeps row (hfiled.known row (hrows ▸ hrow))
    | file hclaimed hfree hrows =>
      refine hkeeps row ?_
      rcases List.mem_append.mp (hrows ▸ hrow) with hold | hnew
      · exact hfiled.known row hold
      · obtain rfl := List.mem_singleton.mp hnew
        exact hfiled.claims place hmem _ hclaimed
  · intro other hother row hrow
    rcases List.mem_append.mp hother with hset | hnew
    · rcases List.mem_or_eq_of_mem_set hset with hold | rfl
      · exact hkeeps row (hfiled.claims other hold row hrow)
      · exact hclaims row hrow
    · cases (hentering other hnew).symm.trans hrow

theorem Reaches.filing {shards : ℕ+} {hash : ActorId → Nat}
    (hreach : Reaches allowed systemName shards hash state) {i : Nat} {input : Input}
    (hplace : state.parties[i]? = some place)
    (htaken : next state.shared place input = some (s', place', entering)) :
    Filing state.shared place s' place' :=
  filing_next (hreach.gated.fresh place (List.mem_of_getElem? hplace)) htaken

theorem Reaches.filed {shards : ℕ+} {hash : ActorId → Nat}
    (hreach : Reaches allowed systemName shards hash state) : Filed state := by
  refine invariant_reached ⟨by simp [init, Shared.rows], by simp [init, Shared.rows], ?_⟩ ?_ hreach
  · intro place hplace row hrow
    obtain rfl : place = .world := by simpa [init] using hplace
    cases hrow
  · intro state i input place place' s' entering hbefore hfiled _ hplace htaken
    have hfresh := (Reaches.gated hbefore).fresh place (List.mem_of_getElem? hplace)
    refine hfiled.step hplace (Reaches.filing hbefore hplace htaken) fun other hother => ?_
    exact Place.claim_of_admitted ((next_passage hfresh htaken).2 other hother).1

theorem Filed.nodup (hfiled : Filed state) :
    (state.shared.byId.map Entry.key).Nodup := by
  simpa [Shared.rows, Function.comp_def] using hfiled.keys

theorem Filed.of_mem (hfiled : Filed state) {entry : Entry ActorId}
    (hmem : entry ∈ state.shared.byId) : Known state.shared (entry.key, entry.seq) :=
  hfiled.known _ (List.mem_map.mpr ⟨entry, hmem, rfl⟩)

end TokioActors.System
