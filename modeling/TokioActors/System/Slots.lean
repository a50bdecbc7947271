/-
# One incarnation's entries

The registry holds an incarnation in at most one entry by id and one by name.
Whatever the other parties do, its entries only gain an abort handle, an earlier
declared deadline, or leave; its lane keeps a `Kill`; and scheduled aborts stay
scheduled. The name leaves after the id.
-/

import TokioActors.System.Planes

namespace TokioActors.System

open Machine.Pool

/-- The entry gained an abort handle or an earlier deadline, or nothing. -/
structure Entry.Le {κ : Type} (entry entry' : Entry κ) : Prop where
  key : entry'.key = entry.key
  seq : entry'.seq = entry.seq
  abort : entry.abort = true → entry'.abort = true
  killDue : entry.killDue ≠ 0 → entry'.killDue ≠ 0 ∧ entry'.killDue ≤ entry.killDue

theorem Entry.Le.refl {κ : Type} (entry : Entry κ) : entry.Le entry :=
  ⟨rfl, rfl, id, fun h => ⟨h, le_rfl⟩⟩

theorem Entry.le_declareKill {κ : Type} (entry : Entry κ) {due : Instant} (hdue : due ≠ 0) :
    entry.Le (entry.declareKill due) := by
  unfold Entry.declareKill
  split
  · rename_i hearlier
    refine ⟨rfl, rfl, id, fun hne => ⟨hdue, ?_⟩⟩
    exact (hearlier.resolve_left hne).le
  · exact .refl entry

theorem Entry.le_attached {κ : Type} (entry : Entry κ) : entry.Le { entry with abort := true } :=
  ⟨rfl, rfl, fun _ => rfl, fun h => ⟨h, le_rfl⟩⟩

/-- What a declaration leaves on an entry is no later than what was declared. -/
theorem Entry.killDue_declareKill {κ : Type} (entry : Entry κ) {due : Instant} (hdue : due ≠ 0) :
    (entry.declareKill due).killDue ≠ 0 ∧ (entry.declareKill due).killDue ≤ due := by
  unfold Entry.declareKill
  split
  · exact ⟨hdue, le_rfl⟩
  · rename_i hlater
    obtain ⟨hne, hle⟩ := not_or.mp hlater
    exact ⟨hne, Nat.le_of_not_lt hle⟩

/-- The entries of an incarnation come from entries it had. -/
def Succeed {κ : Type} (seq : Seq) (entries entries' : List (Entry κ)) : Prop :=
  ∀ entry' ∈ entries', entry'.seq = seq → ∃ entry ∈ entries, entry.Le entry'

/-- The incarnation keeps its entries. -/
def Keep {κ : Type} (seq : Seq) (entries entries' : List (Entry κ)) : Prop :=
  ∀ entry ∈ entries, entry.seq = seq → ∃ entry' ∈ entries', entry.Le entry'

section Lists

variable {κ : Type} {seq other : Seq} {entries : List (Entry κ)}

theorem Succeed.refl : Succeed seq entries entries := fun entry' hmem _ => ⟨entry', hmem, .refl _⟩

theorem Keep.refl : Keep seq entries entries := fun entry hmem _ => ⟨entry, hmem, .refl _⟩

theorem Succeed.filter {p : Entry κ → Bool} : Succeed seq entries (entries.filter p) :=
  fun entry' hmem _ => ⟨entry', (List.mem_filter.mp hmem).1, .refl _⟩

theorem Succeed.append {entry : Entry κ} (hne : entry.seq ≠ seq) :
    Succeed seq entries (entries ++ [entry]) := by
  intro entry' hmem hseq
  rcases List.mem_append.mp hmem with hold | hnew
  · exact ⟨entry', hold, .refl _⟩
  · exact absurd (List.mem_singleton.mp hnew ▸ hseq) hne

theorem Keep.append {entry : Entry κ} : Keep seq entries (entries ++ [entry]) :=
  fun entry' hmem _ => ⟨entry', List.mem_append_left _ hmem, .refl _⟩

variable [DecidableEq κ] {key : κ} {f : Entry κ → Entry κ}

/-- The change of one incarnation's entry under the key. -/
def onEntry (key : κ) (seq : Seq) (f : Entry κ → Entry κ) (entries : List (Entry κ)) :
    List (Entry κ) :=
  Keyed.update Entry.key key (fun entry => if entry.seq = seq then f entry else entry) entries

/-- The entries after such a change: each is an old one, changed when it is the
incarnation's under the key. -/
theorem mem_onEntry {entry' : Entry κ} : entry' ∈ onEntry key other f entries ↔
    ∃ entry ∈ entries, entry' = if entry.key = key ∧ entry.seq = other then f entry else entry := by
  simp only [onEntry, Keyed.update, List.mem_map, ite_and, eq_comm]

theorem le_onEntry (hf : ∀ entry : Entry κ, entry.Le (f entry)) (entry : Entry κ) :
    entry.Le (if entry.key = key ∧ entry.seq = other then f entry else entry) := by
  split
  · exact hf entry
  · exact .refl entry

theorem Succeed.onEntry (hf : ∀ entry : Entry κ, entry.Le (f entry)) :
    Succeed seq entries (onEntry key other f entries) := by
  intro entry' hmem _
  obtain ⟨entry, hentry, rfl⟩ := mem_onEntry.mp hmem
  exact ⟨entry, hentry, le_onEntry hf entry⟩

theorem Keep.onEntry (hf : ∀ entry : Entry κ, entry.Le (f entry)) :
    Keep seq entries (onEntry key other f entries) :=
  fun entry hmem _ => ⟨_, mem_onEntry.mpr ⟨entry, hmem, rfl⟩, le_onEntry hf entry⟩

theorem Keep.remove (hne : seq ≠ other) : Keep seq entries
    (entries.filter fun entry => !(entry.key == key && entry.seq == other)) := by
  intro entry hmem hseq
  refine ⟨entry, List.mem_filter.mpr ⟨hmem, ?_⟩, .refl _⟩
  simp [hseq, hne]

/-- Under distinct keys, the entry of an incarnation is the one under its key. -/
theorem find_filter_eq_some (hnodup : (entries.map Entry.key).Nodup) {entry : Entry κ} :
    (Keyed.find Entry.key key entries).filter (fun entry => entry.seq == seq) = some entry ↔
      entry ∈ entries ∧ entry.key = key ∧ entry.seq = seq := by
  rw [Option.filter_eq_some_iff]
  constructor
  · rintro ⟨hfind, hseq⟩
    exact ⟨Keyed.mem_of_find hfind, Keyed.key_of_find hfind, by simpa using hseq⟩
  · rintro ⟨hmem, rfl, rfl⟩
    exact ⟨Keyed.find_of_mem hnodup hmem, by simp⟩

end Lists

def Killed (s : Shared) (seq : Seq) : Prop := (s.incarnations seq).lane.reason = some .kill

/-! ## Steps -/

/-- What a party's step leaves of one incarnation. New entries are filed by the
incarnation's own spawn, and the name's entry is removed by a registration that
found its id taken, or by the actor once the id's entry is gone. -/
structure Evolves (seq : Seq) (s : Shared) (place : Place) (s' : Shared) : Prop where
  now : s.now ≤ s'.now
  birth : seq < s.registrationSeq → (s'.incarnations seq).birth = (s.incarnations seq).birth
  killed : seq < s.registrationSeq → Killed s seq → Killed s' seq
  armed : s.armed ⊆ s'.armed
  keys : (∀ spec other, place ≠ .spawn spec (.claimName other)) →
    (s'.byName.map Entry.key).Sublist (s.byName.map Entry.key)
  ids : (∀ spec, place ≠ .spawn spec (.claimId seq)) → Succeed seq s.byId s'.byId
  names : (∀ spec, place ≠ .spawn spec (.claimName seq)) → Succeed seq s.byName s'.byName
  kept : Keep seq s.byName s'.byName ∨ (∃ spec name, place = .spawn spec (.releaseName seq name)) ∨
    ∃ spec, place = .actor spec seq ∧ s.idEntry spec.id seq = none

namespace Evolves

variable {seq : Seq} {s s' : Shared} {place : Place}

theorem of_eq (hnow : s.now ≤ s'.now)
    (hincarnations : seq < s.registrationSeq → s'.incarnations seq = s.incarnations seq)
    (harmed : s.armed ⊆ s'.armed) (hids : s'.byId = s.byId) (hnames : s'.byName = s.byName) :
    Evolves seq s place s' where
  now := hnow
  birth hdrawn := by rw [hincarnations hdrawn]
  killed hdrawn h := by rwa [Killed, hincarnations hdrawn]
  armed := harmed
  keys _ := hnames ▸ .refl _
  ids _ := hids ▸ .refl
  names _ := hnames ▸ .refl
  kept := .inl (hnames ▸ .refl)

/-- An incarnation changes: not its birth, and no `Kill` leaves its lane. -/
theorem onIncarnation {other : Seq} {f : Incarnation → Incarnation}
    (hbirth : (f (s.incarnations other)).birth = (s.incarnations other).birth)
    (hkilled : (s.incarnations other).lane.reason = some .kill →
      (f (s.incarnations other)).lane.reason = some .kill) :
    Evolves seq s place (s.onIncarnation other f) := by
  by_cases hseq : seq = other
  · subst hseq
    refine ⟨le_rfl, fun _ => ?_, fun _ h => ?_, fun _ h => h, fun _ => .refl _, fun _ => .refl,
      fun _ => .refl, .inl .refl⟩
    · simpa [Shared.onIncarnation] using hbirth
    · simpa [Killed, Shared.onIncarnation] using hkilled h
  · exact .of_eq le_rfl (fun _ => by simp [Shared.onIncarnation, hseq]) (fun _ h => h) rfl rfl

theorem onIdEntry {id : ActorId} {other : Seq} {f : Entry ActorId → Entry ActorId}
    (hf : ∀ entry : Entry ActorId, entry.Le (f entry)) :
    Evolves seq s place (s.onIdEntry id other f) :=
  ⟨le_rfl, fun _ => rfl, fun _ h => h, fun _ h => h, fun _ => .refl _, fun _ => .onEntry hf,
    fun _ => .refl, .inl .refl⟩

theorem onNameEntry {name : String} {other : Seq} {f : Entry String → Entry String}
    (hf : ∀ entry : Entry String, entry.Le (f entry)) :
    Evolves seq s place (s.onNameEntry name other f) := by
  refine ⟨le_rfl, fun _ => rfl, fun _ h => h, fun _ h => h, fun _ => ?_, fun _ => .refl,
    fun _ => .onEntry hf, .inl (.onEntry hf)⟩
  have hkeys : (s.onNameEntry name other f).byName.map Entry.key = s.byName.map Entry.key := by
    refine Keyed.keys_update fun entry => ?_
    split
    · exact (hf entry).key
    · rfl
  exact hkeys ▸ .refl _

theorem raise {other : Seq} {reason : StopReason} :
    Evolves seq s place (s.onIncarnation other fun inc => inc.raise reason) :=
  .onIncarnation rfl (LaneState.reason_raise_of_kill _ _)

theorem raiser {raiser raiser' : Raiser}
    (hclock : raiser.stage = .declare → 0 < raiser.clockAt)
    (htaken : raiser.step s = some (s', raiser')) : Evolves seq s place s' := by
  have hraise : Evolves seq s place (s.onIncarnation raiser.seq fun inc => inc.raise .kill) :=
    .raise
  cases Raiser.takes htaken with
  | clock | read | miss => exact .of_eq le_rfl (fun _ => rfl) (fun _ h => h) rfl rfl
  | declare hstage =>
    have hdue : raiser.due s ≠ 0 := Nat.ne_of_gt (Nat.add_pos_left (hclock hstage) _)
    unfold Raiser.declare
    split
    · exact { @onIdEntry seq s place _ raiser.seq _ fun entry => entry.le_declareKill hdue with }
    · exact { @onNameEntry seq s place _ raiser.seq _ fun entry => entry.le_declareKill hdue with }
  | raise => exact hraise
  | refuse => exact { hraise with }
  | arm => exact .of_eq le_rfl (fun _ => rfl) (List.subset_append_left _ _) rfl rfl

theorem actor {spec : Spec} {other : Seq} {input : Input}
    (hacted : Acted spec other s input s') : Evolves seq s (.actor spec other) s' := by
  cases hacted with
  | unregisterId =>
    exact ⟨le_rfl, fun _ => rfl, fun _ h => h, fun _ h => h, fun _ => .refl _, fun _ => .filter,
      fun _ => .refl, .inl .refl⟩
  | unregisterName hgone =>
    refine ⟨le_rfl, fun _ => rfl, fun _ h => h, fun _ h => h,
      fun _ => List.filter_sublist.map _, fun _ => .refl, fun _ => .filter, ?_⟩
    by_cases hseq : seq = other
    · subst hseq
      exact .inr (.inr ⟨spec, rfl, by simpa using hgone⟩)
    · exact .inl (.remove hseq)
  | _ => exact .onIncarnation rfl fun h => h

theorem spawn {spec : Spec} {stage stage' : SpawnStage}
    (htaken : spec.step s stage = some (s', stage')) : Evolves seq s (.spawn spec stage) s' := by
  have hsame {s' : Shared} (hnow : s'.now = s.now)
      (hincarnations : s'.incarnations = s.incarnations)
      (harmed : s'.armed = s.armed) (hids : s'.byId = s.byId) (hnames : s'.byName = s.byName) :
      Evolves seq s (.spawn spec stage) s' :=
    .of_eq hnow.ge (fun _ => congrFun hincarnations seq) (harmed ▸ fun _ h => h) hids hnames
  cases stage with
  | phaseCheck =>
    simp only [Spec.step] at htaken
    split at htaken <;> cases htaken <;> exact hsame rfl rfl rfl rfl rfl
  | drawSeq =>
    cases htaken
    exact .of_eq le_rfl (fun hdrawn => by simp [hdrawn.ne]) (fun _ h => h) rfl rfl
  | claimName other =>
    simp only [Spec.step] at htaken
    split at htaken
    · cases htaken
      exact hsame rfl rfl rfl rfl rfl
    · split at htaken <;> cases htaken
      · exact hsame rfl rfl rfl rfl rfl
      · refine ⟨le_rfl, fun _ => rfl, fun _ h => h, fun _ h => h,
          fun hother => absurd rfl (hother spec other), fun _ => .refl, fun hother => ?_,
          .inl .append⟩
        exact .append fun h => hother spec (h ▸ rfl)
  | claimId =>
    simp only [Spec.step] at htaken
    split at htaken
    · split at htaken <;> cases htaken <;> exact hsame rfl rfl rfl rfl rfl
    · cases htaken
      refine ⟨le_rfl, fun _ => rfl, fun _ h => h, fun _ h => h, fun _ => .refl _, fun hother => ?_,
        fun _ => .refl, .inl .refl⟩
      exact .append fun h => hother spec (h ▸ rfl)
  | releaseName other name =>
    cases htaken
    refine ⟨le_rfl, fun _ => rfl, fun _ h => h, fun _ h => h,
      fun _ => List.filter_sublist.map _, fun _ => .refl, fun _ => .filter, ?_⟩
    by_cases hseq : seq = other
    · subst hseq
      exact .inr (.inl ⟨spec, name, rfl⟩)
    · exact .inl (.remove hseq)
  | attachId =>
    cases htaken
    exact .onIdEntry Entry.le_attached
  | attachName =>
    simp only [Spec.step] at htaken
    split at htaken <;> cases htaken
    · exact hsame rfl rfl rfl rfl rfl
    · exact .onNameEntry Entry.le_attached
  | arm =>
    cases htaken
    exact .of_eq le_rfl (fun _ => rfl) (List.subset_append_left _ _) rfl rfl
  | readLane | readIdDue | readNameDue | readClock =>
    cases htaken
    exact hsame rfl rfl rfl rfl rfl
  | refused | attached => cases htaken

theorem touch {before after : Option Raiser}
    (hclock : ∀ raiser, before = some raiser → raiser.stage = .declare → 0 < raiser.clockAt)
    (htouch : Touch s before s' after) : Evolves seq s place s' := by
  cases htouch with
  | same | enter | leave | fold | call => exact .of_eq le_rfl (fun _ => rfl) (fun _ h => h) rfl rfl
  | raise => exact .raise
  | raiser hbefore htaken => exact .raiser (hclock _ hbefore) htaken

end Evolves

def Place.raiser? : Place → Option Raiser
  | raiser calling => some calling
  | walk _ stage => stage.raiser?
  | _ => none

theorem evolves_next {s s' : Shared} {place place' : Place} {input : Input} {entering : List Place}
    {seq : Seq}
    (hclock : ∀ raiser, place.raiser? = some raiser → raiser.stage = .declare → 0 < raiser.clockAt)
    (htaken : next s place input = some (s', place', entering)) : Evolves seq s place s' := by
  cases took_of_next htaken with
  | tick => exact .of_eq (Nat.le_add_right _ _) (fun _ => rfl) (fun _ h => h) rfl rfl
  | call | kill | shutdown => exact .of_eq le_rfl (fun _ => rfl) (fun _ h => h) rfl rfl
  | reactivate =>
    unfold Shared.reactivate
    split <;> exact .of_eq le_rfl (fun _ => rfl) (fun _ h => h) rfl rfl
  | raise => exact .raise
  | spawn hstep => exact .spawn hstep
  | actor hstep => exact .actor hstep
  | @raiser raiser _ _ hstep => exact .raiser (hclock raiser rfl) hstep
  | walk hstep => exact .touch hclock (Walk.walked hstep).touch

/-! ## Raisers -/

/-- What one step does to the raiser a party is in. -/
inductive Errand (s : Shared) (before : Option Raiser) (s' : Shared) : Option Raiser → Prop
  | idle (raises : s'.raises = s.raises) (declared : s'.declared = s.declared)
      (armed : ∀ arm ∈ s'.armed, arm ∈ s.armed ∨ arm.seq = arm.wanted) :
      Errand s before s' none
  | call {key : KillKey} {seq : Seq} {window : Option Nat} (same : s' = s)
      (found : key.find s = some seq) :
      Errand s before s' (some ⟨key, seq, window, .clock, 0, none, false⟩)
  | step {raiser raiser' : Raiser} (before_eq : before = some raiser)
      (taken : raiser.Takes s s' raiser') : Errand s before s' (some raiser')

theorem Touch.errand {s s' : Shared} {before after : Option Raiser}
    (htouch : Touch s before s' after) : Errand s before s' after := by
  cases htouch with
  | same | enter | leave | fold | raise => exact .idle rfl rfl fun _ h => .inl h
  | call hfound =>
    refine .call rfl ?_
    have hfind := (Option.filter_eq_some_iff.mp hfound).1
    simp [KillKey.find, hfind]
  | raiser hbefore htaken => exact .step hbefore (Raiser.takes htaken)

theorem errand_next {s s' : Shared} {place place' : Place} {input : Input} {entering : List Place}
    (htaken : next s place input = some (s', place', entering)) :
    Errand s place.raiser? s' place'.raiser? ∧
      ∀ other ∈ entering, Errand s none s' other.raiser? := by
  cases took_of_next htaken with
  | tick | raise => exact ⟨.idle rfl rfl fun _ h => .inl h, by simp⟩
  | kill hfound =>
    refine ⟨.idle rfl rfl fun _ h => .inl h, fun other hother => ?_⟩
    obtain rfl := List.mem_singleton.mp hother
    exact .call rfl hfound
  | reactivate =>
    unfold Shared.reactivate
    split <;> exact ⟨.idle rfl rfl fun _ h => .inl h, by simp⟩
  | call | shutdown =>
    refine ⟨.idle rfl rfl fun _ h => .inl h, fun other hother => ?_⟩
    obtain rfl := List.mem_singleton.mp hother
    exact .idle rfl rfl fun _ h => .inl h
  | @spawn spec stage _ _ _ hstep hentering =>
    have hidle (before : Option Raiser) : Errand s before s' none := ?_
    · refine ⟨hidle _, fun other hother => ?_⟩
      rcases hentering with rfl | ⟨_, _, _, rfl⟩
      · cases hother
      · obtain rfl := List.mem_singleton.mp hother
        exact hidle none
    cases stage with
    | arm =>
      cases hstep
      refine .idle rfl rfl fun arm hmem => ?_
      rcases List.mem_append.mp hmem with hold | hnew
      · exact .inl hold
      · exact .inr (List.mem_singleton.mp hnew ▸ rfl)
    | _ =>
      simp only [Spec.step] at hstep
      all_goals try split at hstep
      all_goals try split at hstep
      all_goals cases hstep
      all_goals exact .idle rfl rfl fun _ h => .inl h
  | actor hacted =>
    refine ⟨?_, by simp⟩
    cases hacted <;> exact .idle rfl rfl fun _ h => .inl h
  | raiser hstep => exact ⟨.step rfl (Raiser.takes hstep), by simp⟩
  | walk hstep => exact ⟨(Walk.walked hstep).touch.errand, by simp⟩

end TokioActors.System
