/-
# The abort behind an accepted `Kill`

A raiser declares its deadline, raises, and then looks for the abort handle; a
spawn stores the handle, and then looks for a raised `Kill` and its deadline.
Each stores before it looks, so of a raiser and a spawn that both returned at
least one saw the other: either armed the abort, by the raiser's deadline.

The argument is about one incarnation and any number of raisers that found it by
its id or by its name. It holds as long as the id's entry stays.
-/

import TokioActors.System.Crew

namespace TokioActors.System

open Machine.Pool

variable {allowed : State → Nat × Input → Prop} {systemName : String} {shards : ℕ+}
  {hash : ActorId → Nat} {state : State} {seq : Seq}

/-! ## What a spawn has stored -/

/-- The incarnation's entry by id stands. -/
def IdHeld (s : Shared) (seq : Seq) : Prop := ∃ entry ∈ s.byId, entry.seq = seq

/-- The spawn has stored its abort handle in the entry by id. -/
def SpawnStage.storedId : SpawnStage → Bool
  | attachId _ => false
  | stage => stage.filed

/-- The spawn has stored its abort handle in the entry by name. -/
def SpawnStage.storedName : SpawnStage → Bool
  | attachName _ _ => false
  | stage => stage.storedId

/-- What the spawn found when it stored the handle in the entry by id. -/
def SpawnStage.held? : SpawnStage → Option Bool
  | attachName _ held => some held
  | readLane _ held => some held
  | _ => none

/-- The registration takes its name back. -/
def SpawnStage.releases : SpawnStage → Bool
  | releaseName _ _ => true
  | _ => false

/-- What the registry holds of a spawn. -/
structure Stored (s : Shared) (spec : Spec) (stage : SpawnStage) (seq : Seq) : Prop where
  byId : stage.storedId = true → ∀ entry ∈ s.byId, entry.seq = seq → entry.abort = true
  byName : stage.storedName = true → ∀ entry ∈ s.byName, entry.seq = seq → entry.abort = true
  held : ∀ held, stage.held? = some held → IdHeld s seq → held = true
  named : stage.filed = false ∨ IdHeld s seq → stage.named = true → stage.releases = false →
    ∀ name, spec.name = some name → ∃ entry ∈ s.byName, entry.key = name ∧ entry.seq = seq

variable {stage : SpawnStage}

theorem Stored.unstored {s : Shared} {spec : Spec} (hid : stage.storedId = false)
    (hname : stage.storedName = false) (hheld : stage.held? = none)
    (hnamed : stage.filed = false ∨ IdHeld s seq → stage.named = true → stage.releases = false →
      ∀ name, spec.name = some name → ∃ entry ∈ s.byName, entry.key = name ∧ entry.seq = seq) :
    Stored s spec stage seq :=
  ⟨by simp [hid], by simp [hname], by simp [hheld], hnamed⟩

/-- What is stored stays when the entries only succeed each other. -/
theorem Stored.succeed {s s' : Shared} {spec : Spec} (hstored : Stored s spec stage seq)
    (hids : Succeed seq s.byId s'.byId) (hnames : Succeed seq s.byName s'.byName)
    (hkept : stage.filed = false ∨ IdHeld s' seq → Keep seq s.byName s'.byName) :
    Stored s' spec stage seq := by
  have hheld (h : IdHeld s' seq) : IdHeld s seq := by
    obtain ⟨entry, hmem, heq⟩ := h
    obtain ⟨old, hold, hle⟩ := hids entry hmem heq
    exact ⟨old, hold, hle.seq.symm.trans heq⟩
  refine ⟨fun hstage entry hmem heq => ?_, fun hstage entry hmem heq => ?_,
    fun held hstage h => hstored.held held hstage (hheld h),
    fun hlives hnamed hstage name hname => ?_⟩
  · obtain ⟨old, hold, hle⟩ := hids entry hmem heq
    exact hle.abort (hstored.byId hstage old hold (hle.seq.symm.trans heq))
  · obtain ⟨old, hold, hle⟩ := hnames entry hmem heq
    exact hle.abort (hstored.byName hstage old hold (hle.seq.symm.trans heq))
  · obtain ⟨old, hold, hkey, heq⟩ :=
      hstored.named (hlives.imp_right hheld) hnamed hstage name hname
    obtain ⟨entry, hmem, hle⟩ := hkept hlives old hold heq
    exact ⟨entry, hmem, hle.key.trans hkey, hle.seq.trans heq⟩

/-- An entry after a change of one incarnation's: the change of an old one. -/
theorem changed_onEntry {κ : Type} [DecidableEq κ] {key : κ} {f : Entry κ → Entry κ}
    {entries : List (Entry κ)} {entry : Entry κ} (hmem : entry ∈ onEntry key seq f entries)
    (hseq : ∀ entry, (f entry).seq = entry.seq) (heq : entry.seq = seq)
    (hkey : ∀ old ∈ entries, old.seq = seq → old.key = key) :
    ∃ old ∈ entries, old.seq = seq ∧ entry = f old := by
  obtain ⟨old, hold, rfl⟩ := mem_onEntry.mp hmem
  have hsame : old.seq = seq := by
    split at heq
    · exact (hseq old).symm.trans heq
    · exact heq
  exact ⟨old, hold, hsame, if_pos ⟨hkey old hold hsame, hsame⟩⟩

section Own

variable {spec : Spec} {s' : Shared} {seq : Seq} {stage' : SpawnStage}

theorem Stored.attachId (hreach : Reaches allowed systemName shards hash state)
    (hdrawn : Drawn state.shared spec seq)
    (hstored : Stored state.shared spec (.attachId seq) seq) :
    Stored (state.shared.onIdEntry spec.id seq fun entry => { entry with abort := true }) spec
      (.attachName seq (state.shared.idEntry spec.id seq).isSome) seq := by
  have hids : Succeed seq state.shared.byId (state.shared.onIdEntry spec.id seq fun entry =>
      { entry with abort := true }).byId := .onEntry Entry.le_attached
  obtain ⟨_, _, _, hnamed⟩ := hstored.succeed hids .refl fun _ => .refl
  have hkey {entry : Entry ActorId} (hmem : entry ∈ state.shared.byId) (heq : entry.seq = seq) :
      entry.key = spec.id :=
    (hreach.filed.of_mem hmem).2.symm.trans (heq ▸ hdrawn.2.1)
  refine ⟨fun _ entry hmem heq => ?_, nofun, ?_, fun h => hnamed (.inr (h.resolve_left nofun))⟩
  · obtain ⟨old, _, _, rfl⟩ := changed_onEntry
      (show entry ∈ onEntry spec.id seq _ _ from hmem) (fun _ => rfl) heq fun old => hkey
    rfl
  · rintro held ⟨⟩ ⟨entry, hmem, heq⟩
    obtain ⟨old, hold, hle⟩ := hids entry hmem heq
    have hseq := hle.seq.symm.trans heq
    rw [Shared.idEntry, (find_filter_eq_some hreach.filed.nodup).mpr ⟨hold, hkey hold hseq, hseq⟩]
    rfl

theorem Stored.attachName (hreach : Reaches allowed systemName shards hash state)
    (hdrawn : Drawn state.shared spec seq) {held : Bool}
    (hstored : Stored state.shared spec (.attachName seq held) seq)
    (htaken : spec.step state.shared (.attachName seq held) = some (s', stage')) :
    Stored s' spec stage' seq := by
  have hname {entry : Entry String} (hmem : entry ∈ state.shared.byName) (heq : entry.seq = seq) :
      spec.name = some entry.key :=
    hdrawn.2.2.symm.trans (heq ▸ (hreach.named.known entry hmem).2)
  simp only [Spec.step] at htaken
  split at htaken <;> cases htaken
  · rename_i hnone
    refine ⟨fun _ => hstored.byId rfl, fun _ entry hmem heq => ?_, hstored.held, hstored.named⟩
    cases hnone.symm.trans (hname hmem heq)
  · rename_i name hsome
    obtain ⟨hbyId, _, hheld, hnamed⟩ : Stored (state.shared.onNameEntry name seq fun entry =>
        { entry with abort := true }) spec (.attachName seq held) seq :=
      hstored.succeed .refl (.onEntry Entry.le_attached) fun _ => .onEntry Entry.le_attached
    refine ⟨fun _ => hbyId rfl, fun _ entry hmem heq => ?_, hheld, hnamed⟩
    obtain ⟨old, _, _, rfl⟩ := changed_onEntry
      (show entry ∈ onEntry name seq _ _ from hmem) (fun _ => rfl) heq fun old hold hseq =>
        Option.some.inj ((hname hold hseq).symm.trans hsome)
    rfl

theorem Stored.own (hreach : Reaches allowed systemName shards hash state)
    (hdrawn : stage.seq? = some seq → Drawn state.shared spec seq)
    (hstored : stage.seq? = some seq → Stored state.shared spec stage seq)
    (htaken : spec.step state.shared stage = some (s', stage')) (hseq : stage'.seq? = some seq) :
    Stored s' spec stage' seq := by
  cases stage with
  | drawSeq =>
    cases htaken
    split
    · exact .unstored rfl rfl rfl (by rintro _ ⟨⟩)
    · rename_i hname
      exact .unstored rfl rfl rfl fun _ _ _ name h => absurd (by rw [h]; rfl) hname
  | claimName other =>
    simp only [Spec.step] at htaken
    split at htaken
    · rename_i hname
      cases htaken
      exact .unstored rfl rfl rfl fun _ _ _ name h => by cases hname.symm.trans h
    · rename_i name hname
      split at htaken <;> cases htaken
      · cases hseq
      · obtain rfl := Option.some.inj hseq
        refine .unstored rfl rfl rfl fun _ _ _ own hown => ?_
        obtain rfl := Option.some.inj (hname.symm.trans hown)
        exact ⟨_, List.mem_append_right _ (List.mem_singleton_self _), rfl, rfl⟩
  | claimId =>
    simp only [Spec.step] at htaken
    split at htaken
    · split at htaken <;> cases htaken
      · exact .unstored rfl rfl rfl (by rintro _ _ ⟨⟩)
      · cases hseq
    · cases htaken
      exact .unstored rfl rfl rfl fun _ _ _ => (hstored hseq).named (.inl rfl) rfl rfl
  | attachId =>
    cases htaken
    obtain rfl := Option.some.inj hseq
    exact .attachId hreach (hdrawn rfl) (hstored rfl)
  | attachName other =>
    have hsame : other = seq := by
      simp only [Spec.step] at htaken
      split at htaken <;> cases htaken <;> exact Option.some.inj hseq
    subst hsame
    exact .attachName hreach (hdrawn rfl) (hstored rfl) htaken
  | readLane other =>
    cases htaken
    have hsame : other = seq := by split at hseq <;> exact Option.some.inj hseq
    subst hsame
    obtain ⟨hbyId, hbyName, _, hnamed⟩ := hstored rfl
    split <;>
      exact ⟨fun _ => hbyId rfl, fun _ => hbyName rfl, (by rintro _ ⟨⟩), hnamed⟩
  | readIdDue | readNameDue | readClock | arm =>
    cases htaken
    obtain ⟨hbyId, hbyName, _, hnamed⟩ := hstored hseq
    exact ⟨fun _ => hbyId rfl, fun _ => hbyName rfl, (by rintro _ ⟨⟩), hnamed⟩
  | phaseCheck =>
    simp only [Spec.step] at htaken
    split at htaken <;> cases htaken <;> cases hseq
  | releaseName =>
    cases htaken
    cases hseq
  | refused | attached => cases htaken

end Own

variable {raiser raiser' : Raiser} {s' s : Shared} {spec : Spec} {stage : SpawnStage}
  {bound : Instant} {byName : Instant}

theorem Reaches.stored (hreach : Reaches allowed systemName shards hash state) :
    ∀ spec stage seq, .spawn spec stage ∈ state.parties → stage.seq? = some seq →
      Stored state.shared spec stage seq := by
  refine @invariant_reached _ _ _ next allowed _ state
    (fun state => ∀ spec stage seq, .spawn spec stage ∈ state.parties → stage.seq? = some seq →
      Stored state.shared spec stage seq) ?_ ?_ hreach
  · intro spec stage seq hspawn
    simp [init] at hspawn
  intro state i input place place' s' entering hbefore hstored _ hplace htaken spec stage' seq
    hspawn hseq
  have hevolves := Reaches.evolves hbefore hplace htaken seq
  rcases spawns_next hbefore hplace htaken hseq hspawn with
    ⟨hold, hother, hfiled⟩ | ⟨stage, rfl, hstep⟩
  · refine (hstored spec stage' seq hold hseq).succeed
      (hevolves.ids fun spec' h => hother spec' _ h rfl)
      (hevolves.names fun spec' h => hother spec' _ h rfl) fun hlives => ?_
    rcases hevolves.kept with hkept | ⟨spec', name, hreleases⟩ | ⟨spec', hactor, hgone⟩
    · exact hkept
    · exact absurd rfl (hother spec' _ hreleases)
    · -- The actor takes its name back only once its entry by id is gone.
      obtain ⟨entry, hmem, heq⟩ := hlives.resolve_left (by simp [hfiled spec' hactor])
      obtain ⟨old, hin, hle⟩ := hevolves.ids (fun spec' h => hother spec' _ h rfl) entry hmem heq
      have hown := Reaches.drawn hbefore place (List.mem_of_getElem? hplace) (spec', seq)
        (by rw [hactor]; rfl)
      have hseq' := hle.seq.symm.trans heq
      have hkey : old.key = spec'.id :=
        ((Reaches.filed hbefore).of_mem hin).2.symm.trans (hseq' ▸ hown.2.1)
      rw [Shared.idEntry, (find_filter_eq_some (Reaches.filed hbefore).nodup).mpr
        ⟨hin, hkey, hseq'⟩]
        at hgone
      cases hgone
  · have hmem := List.mem_of_getElem? hplace
    exact .own hbefore
      (fun h => Reaches.drawn hbefore _ hmem (spec, seq) (by rw [Place.draw, h]; rfl))
      (hstored spec stage seq hmem) hstep hseq

/-! ## What a raiser has declared -/

/-- A deadline was recorded, no later than the bound. -/
def NoLater (due bound : Instant) : Prop := due ≠ 0 ∧ due ≤ bound

def RaiserStage.declared : RaiserStage → Bool
  | clock => false
  | declare => false
  | _ => true

structure Raiser.Declared (s : Shared) (raiser : Raiser) : Prop where
  aimed : ∀ handle grace, raiser.stage = .arm handle grace →
    handle = raiser.seq ∧ grace = raiser.after s
  killed : raiser.accepted = true → Killed s raiser.seq
  byId : raiser.stage.declared = true → ∀ key, raiser.key = .id key →
    ∀ entry ∈ s.byId, entry.seq = raiser.seq → NoLater entry.killDue (raiser.due s)
  byName : raiser.stage.declared = true → ∀ key, raiser.key = .name key →
    ∀ entry ∈ s.byName, entry.seq = raiser.seq → NoLater entry.killDue (raiser.due s)

theorem NoLater.of_le {due due' : Instant} (hdue : NoLater due bound)
    (hle : due ≠ 0 → due' ≠ 0 ∧ due' ≤ due) : NoLater due' bound :=
  ⟨(hle hdue.1).1, (hle hdue.1).2.trans hdue.2⟩

/-- What a raiser has left behind stays while others step. -/
theorem Raiser.Declared.evolve {place : Place}
    (hdeclared : raiser.Declared s) (hdrawn : raiser.seq < s.registrationSeq)
    (hevolves : Evolves raiser.seq s place s')
    (hids : ∀ key, raiser.key = .id key → Succeed raiser.seq s.byId s'.byId)
    (hnames : ∀ key, raiser.key = .name key → Succeed raiser.seq s.byName s'.byName) :
    raiser.Declared s' := by
  obtain ⟨hafter, hdue⟩ := Raiser.due_congr (hevolves.birth hdrawn)
  refine ⟨fun handle grace h => ?_,
    fun h => hevolves.killed hdrawn (hdeclared.killed h), fun h key hkey entry hmem heq => ?_,
    fun h key hkey entry hmem heq => ?_⟩
  · rw [hafter]
    exact hdeclared.aimed handle grace h
  · obtain ⟨old, hold, hle⟩ := hids key hkey entry hmem heq
    rw [hdue]
    exact (hdeclared.byId h key hkey old hold (hle.seq.symm.trans heq)).of_le hle.killDue
  · obtain ⟨old, hold, hle⟩ := hnames key hkey entry hmem heq
    rw [hdue]
    exact (hdeclared.byName h key hkey old hold (hle.seq.symm.trans heq)).of_le hle.killDue

theorem Raiser.byId_declare {raiser : Raiser} {s : Shared} {key : ActorId}
    (hkey : raiser.key = .id key) : (raiser.declare s).byId =
      onEntry key raiser.seq (fun entry => entry.declareKill (raiser.due s)) s.byId := by
  simp only [Raiser.declare, hkey]
  rfl

theorem Raiser.byName_declare {raiser : Raiser} {s : Shared} {key : String}
    (hkey : raiser.key = .name key) : (raiser.declare s).byName =
      onEntry key raiser.seq (fun entry => entry.declareKill (raiser.due s)) s.byName := by
  simp only [Raiser.declare, hkey]
  rfl

/-- The handle a raiser reads is the one of the incarnation it found. -/
theorem Raiser.seq_of_target {handle : Seq} {abort : Bool}
    (htarget : raiser.target s = some (handle, abort)) : handle = raiser.seq := by
  unfold Raiser.target at htarget
  split at htarget
  all_goals
    obtain ⟨entry, hentry, heq⟩ := Option.map_eq_some_iff.mp htarget
    have hseq := (Option.filter_eq_some_iff.mp hentry).2
    cases heq
    simpa using hseq

theorem Raiser.Declared.own (hreach : Reaches allowed systemName shards hash state)
    {place : Place} (hraises : Raises state raiser)
    (hdeclared : raiser.Declared state.shared) (hevolves : Evolves raiser.seq state.shared place s')
    (hplace : place.raiser? = some raiser)
    (htakes : raiser.Takes state.shared s' raiser') : raiser'.Declared s' := by
  obtain ⟨hdrawn, hbyId, hbyName⟩ := hreach.found raiser hraises
  have hspawn {spec : Spec} {stage : SpawnStage} : place ≠ .spawn spec stage := by
    rintro rfl
    cases hplace
  have hstays : raiser.Declared s' := hdeclared.evolve hdrawn hevolves
    (fun _ _ => hevolves.ids fun _ => hspawn) fun _ _ => hevolves.names fun _ => hspawn
  obtain ⟨haimed, hkilled, hids, hnames⟩ := hstays
  cases htakes with
  | clock => exact ⟨(by rintro _ _ ⟨⟩), hkilled, (by rintro ⟨⟩), (by rintro ⟨⟩)⟩
  | declare hstage =>
    have hpos := hreach.clocked raiser hraises (by rw [hstage]; rintro ⟨⟩)
    have hdue : raiser.due state.shared ≠ 0 := Nat.ne_of_gt (Nat.add_pos_left hpos _)
    have hsame := (Raiser.due_congr (hevolves.birth hdrawn)).2
    refine ⟨(by rintro _ _ ⟨⟩), hkilled,
      fun _ key hkey entry hmem heq => ?_, fun _ key hkey entry hmem heq => ?_⟩
    · rw [@Raiser.byId_declare raiser _ _ hkey] at hmem
      obtain ⟨old, _, _, rfl⟩ := changed_onEntry hmem
        (fun entry => (entry.le_declareKill hdue).seq) heq fun old hold hseq =>
          (hreach.filed.of_mem hold).2.symm.trans (hseq ▸ hbyId key hkey)
      exact (old.killDue_declareKill hdue).imp_right hsame.ge.trans'
    · rw [@Raiser.byName_declare raiser _ _ hkey] at hmem
      obtain ⟨old, _, _, rfl⟩ := changed_onEntry hmem
        (fun entry => (entry.le_declareKill hdue).seq) heq fun old hold hseq =>
          Option.some.inj ((hreach.named.known old hold).2.symm.trans (hseq ▸ hbyName key hkey))
      exact (old.killDue_declareKill hdue).imp_right hsame.ge.trans'
  | raise hstage haccepted =>
    have hdone : raiser.stage.declared = true := by rw [hstage]; rfl
    refine ⟨(by rintro _ _ ⟨⟩), fun _ => ?_, fun _ => hids hdone,
      fun _ => hnames hdone⟩
    simpa [Killed, Shared.onIncarnation, Raiser.answered, Incarnation.raise] using
      LaneState.reason_raise_kill haccepted
  | refuse hstage hrefused =>
    have hdone : raiser.stage.declared = true := by rw [hstage]; rfl
    refine ⟨(by rintro _ _ ⟨⟩), fun h => ?_, fun _ => hids hdone,
      fun _ => hnames hdone⟩
    simp [Raiser.accepted, Raiser.return_, Raiser.answered, hrefused] at h
  | @read handle hstage htarget =>
    have hdone : raiser.stage.declared = true := by rw [hstage]; rfl
    refine ⟨?_, hkilled, fun _ => hids hdone,
      fun _ => hnames hdone⟩
    rintro _ _ ⟨⟩
    exact ⟨Raiser.seq_of_target htarget, rfl⟩
  | miss hstage | arm hstage =>
    have hdone : raiser.stage.declared = true := by rw [hstage]; rfl
    exact ⟨(by rintro _ _ ⟨⟩), hkilled, fun _ => hids hdone,
      fun _ => hnames hdone⟩

theorem Reaches.declared (hreach : Reaches allowed systemName shards hash state) :
    ∀ raiser, Raises state raiser → raiser.Declared state.shared := by
  refine @invariant_reached _ _ _ next allowed _ state
    (fun state => ∀ raiser, Raises state raiser → raiser.Declared state.shared) ?_ ?_ hreach
  · rintro raiser (hreturned | ⟨place, hplace, hraiser⟩)
    · cases hreturned
    · obtain rfl : place = .world := by simpa [init] using hplace
      cases hraiser
  · intro state i input place place' s' entering hbefore hdeclared _ hplace htaken raiser' hraises
    have hevolves := Reaches.evolves hbefore hplace htaken
    rcases raises_next hplace htaken hraises with
      hold | ⟨rfl, _, key, seq, window, _, rfl⟩ | ⟨raiser, hold, hcalls, htakes⟩
    · have hplaced := Reaches.placed hbefore raiser' hold
      have hmem := List.mem_of_getElem? hplace
      refine (hdeclared raiser' hold).evolve (Reaches.found hbefore raiser' hold).drawn
        (hevolves raiser'.seq) (fun key hkey => ?_) fun key hkey => ?_
      · -- Who found the incarnation by its id came after its entry was filed.
        refine (hevolves raiser'.seq).ids fun spec h => ?_
        cases (hplaced spec _ (h ▸ hmem) rfl).1 key hkey
      · refine (hevolves raiser'.seq).names fun spec h => ?_
        cases (hplaced spec _ (h ▸ hmem) rfl).2 key hkey
    · exact ⟨(by rintro _ _ ⟨⟩), (by rintro ⟨⟩), (by rintro ⟨⟩), (by rintro ⟨⟩)⟩
    · exact .own hbefore hold (hdeclared raiser hold) (hevolves raiser.seq) hcalls htakes

/-! ## One of the two arms -/

/-- An abort of the raiser's incarnation is armed by the raiser's deadline, or at
once when that deadline had passed, up to the time between the clock reading the
arming party counted from and the arming. -/
def Raiser.Covered (s : Shared) (raiser : Raiser) : Prop :=
  ∃ arm ∈ s.armed, arm.seq = raiser.seq ∧
    arm.deadline ≤ max (raiser.due s) arm.since + (arm.armedAt - arm.since)

/-- The spawn will arm the abort by the raiser's deadline. -/
def SpawnStage.Promises (s : Shared) (raiser : Raiser) : SpawnStage → Prop
  | readNameDue _ byId => ∀ key, raiser.key = .id key → NoLater byId (raiser.due s)
  | readClock _ due => NoLater due (raiser.due s)
  | arm _ after since => after ≤ raiser.due s - since
  | attached _ => False
  | _ => True

/-- A wait that is counted from an instant and starts later ends later by that much. -/
theorem saturatingDeadline_le {now since due : Instant} {dur : Nat} (hdur : dur ≤ due - since) :
    saturatingDeadline now dur ≤ max due since + (now - since) := by
  calc saturatingDeadline now dur
      ≤ now + (due - since) := Nat.add_le_add_left ((min_le_left _ _).trans hdur) _
    _ ≤ since + (now - since) + (due - since) := Nat.add_le_add_right le_add_tsub _
    _ = since + (due - since) + (now - since) := Nat.add_right_comm _ _ _
    _ = max due since + (now - since) := by rw [add_tsub_eq_max, max_comm]

theorem Raiser.Covered.of_arm {s : Shared} {raiser : Raiser} {wanted : Seq} {after : Nat}
    {since : Instant} (hafter : after ≤ raiser.due s - since) :
    raiser.Covered (s.armKillBackstop raiser.seq wanted after since) :=
  ⟨_, List.mem_append_right _ (List.mem_singleton_self _), rfl, saturatingDeadline_le hafter⟩

/-- A raiser that finds no handle came before the spawn stored it. -/
theorem Promises.of_miss (hreach : Reaches allowed systemName shards hash state)
    (hraises : Raises state raiser)
    (hspawn : .spawn spec stage ∈ state.parties) (hseq : stage.seq? = some raiser.seq)
    (hheld : IdHeld state.shared raiser.seq)
    (hmissed : ∀ handle, raiser.target state.shared ≠ some (handle, true)) :
    stage.Promises state.shared raiser := by
  have hfound := hreach.found raiser hraises
  have hstored := hreach.stored spec stage raiser.seq hspawn hseq
  have hplaced := hreach.placed raiser hraises spec stage hspawn hseq
  have hearly : stage.storedName = false := by
    by_contra hlate
    have hlate : stage.storedName = true := by simpa using hlate
    have hstage : stage.storedId = true ∧ stage.named = true ∧ stage.releases = false := by
      cases stage <;> first | exact ⟨rfl, rfl, rfl⟩ | cases hlate
    cases hkey : raiser.key with
    | id key =>
      obtain ⟨entry, hmem, heq⟩ := hheld
      have hown : entry.key = key :=
        (hreach.filed.of_mem hmem).2.symm.trans (heq ▸ hfound.byId key hkey)
      refine hmissed raiser.seq ?_
      simp only [Raiser.target, hkey, Shared.idEntry,
        (find_filter_eq_some hreach.filed.nodup).mpr ⟨hmem, hown, heq⟩, Option.map_some, heq,
        hstored.byId hstage.1 entry hmem heq]
    | name key =>
      have hname : spec.name = some key :=
        (hreach.drawn _ hspawn (spec, raiser.seq) (by rw [Place.draw, hseq]; rfl)).2.2.symm.trans
          (hfound.byName key hkey)
      obtain ⟨entry, hmem, hown, heq⟩ :=
        hstored.named (.inr hheld) hstage.2.1 hstage.2.2 key hname
      refine hmissed raiser.seq ?_
      simp only [Raiser.target, hkey, Shared.nameEntry,
        (find_filter_eq_some hreach.named.nodup).mpr ⟨hmem, hown, heq⟩, Option.map_some, heq,
        hstored.byName hlate entry hmem heq]
  cases stage <;> trivial

theorem NoLater.earlierDue_left {byId : Instant} (hdue : NoLater byId bound) :
    NoLater (earlierDue byId byName) bound := by
  obtain ⟨hne, hle⟩ := hdue
  unfold NoLater earlierDue
  rw [if_neg hne]
  split
  · exact ⟨hne, hle⟩
  · rename_i hname
    exact ⟨(lt_min (Nat.pos_of_ne_zero hne) (Nat.pos_of_ne_zero hname)).ne',
      (min_le_left _ _).trans hle⟩

theorem NoLater.earlierDue_right {byId : Instant} (hdue : NoLater byName bound) :
    NoLater (earlierDue byId byName) bound := by
  obtain ⟨hne, hle⟩ := hdue
  unfold NoLater earlierDue
  rw [if_neg hne]
  split
  · exact ⟨hne, hle⟩
  · rename_i hid
    exact ⟨(lt_min (Nat.pos_of_ne_zero hid) (Nat.pos_of_ne_zero hne)).ne',
      (min_le_right _ _).trans hle⟩

theorem promises_claimId {stage' : SpawnStage}
    (htaken : spec.step s (.claimId seq) = some (s', stage')) : stage'.Promises s' raiser := by
  simp only [Spec.step] at htaken
  split at htaken
  · split at htaken <;> cases htaken <;> trivial
  · cases htaken
    trivial

/-- A spawn's own step keeps its promise, or arms. -/
theorem Promises.own (hreach : Reaches allowed systemName shards hash state)
    (hraises : Raises state raiser) (hdone : raiser.stage = .done)
    (haccepted : raiser.accepted = true) {stage' : SpawnStage}
    (hspawn : .spawn spec stage ∈ state.parties) (hseq : stage.seq? = some raiser.seq)
    (hheld : IdHeld state.shared raiser.seq) (hpromise : stage.Promises state.shared raiser)
    (htaken : spec.step state.shared stage = some (s', stage')) (hseq' : stage'.seq? ≠ none) :
    raiser.Covered s' ∨ stage'.Promises s' raiser := by
  have hdeclared := hreach.declared raiser hraises
  have hfound := hreach.found raiser hraises
  have hstored := hreach.stored spec stage raiser.seq hspawn hseq
  have hdrawn := hreach.drawn _ hspawn (spec, raiser.seq) (by rw [Place.draw, hseq]; rfl)
  have hpast : raiser.stage.declared = true := by rw [hdone]; rfl
  cases stage with
  | claimId => exact .inr (promises_claimId htaken)
  | claimName | attachName =>
    simp only [Spec.step] at htaken
    split at htaken
    all_goals try split at htaken
    all_goals
      cases htaken
      exact .inr trivial
  | readLane other held =>
    obtain rfl := Option.some.inj hseq
    have hreads := hstored.held held rfl hheld
    have hkilled : (state.shared.incarnations raiser.seq).lane.reason = some .kill :=
      hdeclared.killed haccepted
    cases htaken
    rw [hreads, hkilled]
    exact .inr trivial
  | readIdDue =>
    obtain rfl := Option.some.inj hseq
    cases htaken
    refine .inr fun key hkey => ?_
    obtain ⟨entry, hmem, heq⟩ := hheld
    have hown : entry.key = spec.id :=
      (hreach.filed.of_mem hmem).2.symm.trans (heq ▸ hdrawn.2.1)
    rw [Shared.idEntry, (find_filter_eq_some hreach.filed.nodup).mpr ⟨hmem, hown, heq⟩]
    exact hdeclared.byId hpast key hkey entry hmem heq
  | readNameDue =>
    obtain rfl := Option.some.inj hseq
    cases htaken
    refine .inr ?_
    cases hkey : raiser.key with
    | id key => exact (hpromise key hkey).earlierDue_left
    | name key =>
      have hname : spec.name = some key := hdrawn.2.2.symm.trans (hfound.byName key hkey)
      obtain ⟨entry, hmem, hown, heq⟩ := hstored.named (.inr hheld) rfl rfl key hname
      refine NoLater.earlierDue_right ?_
      simp only [hname, Shared.nameEntry,
        (find_filter_eq_some hreach.named.nodup).mpr ⟨hmem, hown, heq⟩, Option.elim_some]
      exact hdeclared.byName hpast key hkey entry hmem heq
  | readClock =>
    obtain ⟨hne, hle⟩ := hpromise
    cases htaken
    refine .inr ?_
    simp only [SpawnStage.Promises, if_neg hne]
    exact Nat.sub_le_sub_right hle _
  | arm =>
    obtain rfl := Option.some.inj hseq
    cases htaken
    exact .inl (.of_arm hpromise)
  | phaseCheck | drawSeq => cases hseq
  | releaseName =>
    cases htaken
    exact absurd rfl hseq'
  | attachId =>
    cases htaken
    exact .inr trivial
  | refused | attached => cases htaken

/-- Every accepted `Kill` whose raiser returned is covered, or promised by the
spawn of its incarnation, as long as the entry by id stands. -/
def Backed (state : State) : Prop :=
  ∀ raiser, Raises state raiser → raiser.stage = .done → raiser.accepted = true →
    ∀ spec stage, .spawn spec stage ∈ state.parties → stage.seq? = some raiser.seq →
      IdHeld state.shared raiser.seq →
        raiser.Covered state.shared ∨ stage.Promises state.shared raiser

theorem Raiser.Covered.evolve (hcovered : raiser.Covered s)
    (harmed : s.armed ⊆ s'.armed) (hdue : raiser.due s' = raiser.due s) : raiser.Covered s' := by
  obtain ⟨arm, hmem, hseq, hle⟩ := hcovered
  exact ⟨arm, harmed hmem, hseq, hdue ▸ hle⟩

theorem Promises.evolve (hpromise : stage.Promises s raiser)
    (hdue : raiser.due s' = raiser.due s) : stage.Promises s' raiser := by
  cases stage with
  | readNameDue | readClock | arm => simpa only [SpawnStage.Promises, hdue] using hpromise
  | attached => exact hpromise
  | _ => trivial

/-- A raiser that returns is covered, or came before the spawn stored its handle. -/
theorem Backed.returned (hreach : Reaches allowed systemName shards hash state)
    (hraises : Raises state raiser)
    (htakes : raiser.Takes state.shared s' raiser') (hdone : raiser'.stage = .done)
    (haccepted : raiser'.accepted = true)
    (hspawn : .spawn spec stage ∈ state.parties) (hseq : stage.seq? = some raiser.seq)
    (hheld : IdHeld state.shared raiser.seq) : raiser'.Covered s' ∨ stage.Promises s' raiser' := by
  cases htakes with
  | clock | declare | raise | read => cases hdone
  | refuse _ hrefused =>
    simp [Raiser.accepted, Raiser.return_, Raiser.answered, hrefused] at haccepted
  | miss _ hmissed =>
    have hpromise := Promises.of_miss hreach hraises hspawn hseq hheld hmissed
    refine .inr ?_
    cases stage with
    | readNameDue | readClock | arm | attached => exact hpromise
    | _ => trivial
  | arm hstage =>
    obtain ⟨rfl, rfl⟩ := (hreach.declared raiser hraises).aimed _ _ hstage
    exact .inl (@Raiser.Covered.of_arm _ raiser raiser.seq _ _ (Nat.add_sub_cancel_left _ _).ge)

theorem Reaches.returned (hreach : Reaches allowed systemName shards hash state) :
    ∀ raiser ∈ state.shared.raises, raiser.stage = .done := by
  refine @invariant _ _ _ next allowed _ state
    (fun state => ∀ raiser ∈ state.shared.raises, raiser.stage = .done) (by simp [init]) ?_ hreach
  intro state i input place place' s' entering hreturned _ hplace htaken
  have herrand := (errand_next htaken).1
  generalize place'.raiser? = after at herrand
  cases herrand with
  | idle hsame | call hsame => exact hsame ▸ hreturned
  | step _ htakes =>
    rcases htakes.raises with hsame | ⟨hdone, hmore⟩
    · exact hsame ▸ hreturned
    · intro raiser hmem
      rcases List.mem_append.mp (hmore ▸ hmem) with hold | hnew
      · exact hreturned raiser hold
      · exact List.mem_singleton.mp hnew ▸ hdone

theorem Reaches.backed (hreach : Reaches allowed systemName shards hash state) : Backed state := by
  refine invariant_reached ?_ ?_ hreach
  · intro raiser _ _ _ spec stage hspawn
    simp [init] at hspawn
  intro state i input place place' s' entering hbefore hbacked _ hplace htaken raiser' hraises hdone
    haccepted spec stage' hspawn hseq hheld
  have hevolves := Reaches.evolves hbefore hplace htaken raiser'.seq
  rcases spawns_next hbefore hplace htaken hseq hspawn with
    ⟨hwaits, hother, _⟩ | ⟨stage, rfl, hstep⟩
  · have hheld : IdHeld state.shared raiser'.seq := by
      obtain ⟨entry, hmem, heq⟩ := hheld
      obtain ⟨old, hold, hle⟩ := hevolves.ids (fun spec' h => hother spec' _ h rfl) entry hmem heq
      exact ⟨old, hold, hle.seq.symm.trans heq⟩
    rcases raises_next hplace htaken hraises with
      hold | ⟨_, _, key, seq, window, _, rfl⟩ | ⟨raiser, hold, _, htakes⟩
    · obtain ⟨_, hdue⟩ :=
        Raiser.due_congr (hevolves.birth (Reaches.found hbefore raiser' hold).drawn)
      exact (hbacked raiser' hold hdone haccepted spec stage' hwaits hseq hheld).imp
        (·.evolve hevolves.armed hdue) (Promises.evolve · hdue)
    · cases hdone
    · rw [htakes.same.2.1] at hseq hheld
      exact Backed.returned hbefore hold htakes hdone haccepted hwaits hseq hheld
  · rcases raises_next hplace htaken hraises with
      hold | ⟨_, hcaller, _⟩ | ⟨raiser, _, hnone, _⟩
    · have hmem := List.mem_of_getElem? hplace
      have hfound := Reaches.found hbefore raiser' hold
      obtain ⟨_, hdue⟩ := Raiser.due_congr (hevolves.birth hfound.drawn)
      rcases drawn_spawn hstep with hnone | hsame | ⟨_, hnew, _⟩
      · cases hnone.symm.trans hseq
      · by_cases hclaims : stage = .claimId raiser'.seq
        · subst hclaims
          exact .inr (promises_claimId hstep)
        · obtain ⟨entry, hentry, heq⟩ := hheld
          obtain ⟨old, hin, hle⟩ :=
            hevolves.ids (fun spec' h => hclaims (by cases h; rfl)) entry hentry heq
          have hheld : IdHeld state.shared raiser'.seq := ⟨old, hin, hle.seq.symm.trans heq⟩
          rcases hbacked raiser' hold hdone haccepted spec stage hmem (hsame ▸ hseq) hheld with
            hcovered | hpromise
          · exact .inl (hcovered.evolve hevolves.armed hdue)
          · exact Promises.own hbefore hold hdone haccepted hmem (hsame ▸ hseq) hheld hpromise hstep
              (by rw [hseq]; rintro ⟨⟩)
      · exact absurd (Option.some.inj (hnew.symm.trans hseq) ▸ hfound.drawn) (Nat.lt_irrefl _)
    · exact absurd rfl (hcaller _ _)
    · cases hnone

/-- Every armed abort and every declared deadline is on the incarnation meant. -/
structure Aimed (s : Shared) : Prop where
  armed : ∀ arm ∈ s.armed, arm.seq = arm.wanted
  declared : ∀ target ∈ s.declared, target.1 = target.2

theorem Aimed.takes (haimed : Aimed s)
    (hdeclared : raiser.Declared s) (htakes : raiser.Takes s s' raiser') : Aimed s' := by
  obtain ⟨harmed, htargets⟩ := haimed
  cases htakes with
  | clock | raise | refuse | read | miss => exact ⟨harmed, htargets⟩
  | declare =>
    have hentry {κ : Type} {found : Option (Entry κ)}
        (hseq : ∀ entry ∈ found, entry.seq = raiser.seq)
        (target : Seq × Seq) (hmem : target ∈ s.declared ++
          (found.map fun entry => (entry.seq, raiser.seq)).toList) : target.1 = target.2 := by
      rcases List.mem_append.mp hmem with hold | hnew
      · exact htargets target hold
      · obtain ⟨entry, hentry, rfl⟩ := Option.map_eq_some_iff.mp (Option.mem_toList.mp hnew)
        exact hseq entry hentry
    unfold Raiser.declare
    split <;>
      exact ⟨harmed, hentry fun entry h => by simpa using (Option.filter_eq_some_iff.mp h).2⟩
  | arm hstage =>
    refine ⟨fun arm hmem => ?_, htargets⟩
    rcases List.mem_append.mp hmem with hold | hnew
    · exact harmed arm hold
    · obtain rfl := List.mem_singleton.mp hnew
      exact (hdeclared.aimed _ _ hstage).1

theorem Reaches.aimed (hreach : Reaches allowed systemName shards hash state) :
    Aimed state.shared := by
  refine @invariant_reached _ _ _ next allowed _ state (fun state => Aimed state.shared)
    ⟨by simp [init], by simp [init]⟩ ?_ hreach
  intro state i input place place' s' entering hbefore haimed _ hplace htaken
  have herrand := (errand_next htaken).1
  generalize place'.raiser? = after at herrand
  cases herrand with
  | idle _ hdeclared harmed =>
    exact ⟨fun arm hmem => (harmed arm hmem).elim (haimed.armed arm) fun h => h,
      fun target hmem => haimed.declared target (hdeclared ▸ hmem)⟩
  | call hsame => exact hsame ▸ haimed
  | step hcalls htakes =>
    have hraises : Raises state _ := .inr ⟨place, List.mem_of_getElem? hplace, hcalls⟩
    exact haimed.takes (Reaches.declared hbefore _ hraises) htakes

/-- Once the spawn of an incarnation has attached its abort handle and a raiser
whose `Kill` was accepted has returned, an abort of that incarnation is armed by
the raiser's deadline, as long as the entry by id stands. No abort is armed
through another incarnation, and no deadline is declared on another. -/
theorem kill_backed (hreach : Reaches allowed systemName shards hash state) :
    (∀ spec seq, .spawn spec (.attached seq) ∈ state.parties →
      (state.shared.idEntry spec.id seq).isSome = true →
      ∀ raiser ∈ state.shared.raises, raiser.seq = seq → raiser.accepted = true →
        ∃ arm ∈ state.shared.armed, arm.seq = seq ∧
          arm.deadline ≤ max (raiser.due state.shared) arm.since + (arm.armedAt - arm.since)) ∧
    (∀ arm ∈ state.shared.armed, arm.seq = arm.wanted) ∧
    ∀ target ∈ state.shared.declared, target.1 = target.2 := by
  refine ⟨?_, hreach.aimed.armed, hreach.aimed.declared⟩
  rintro spec seq hspawn hheld raiser hreturned rfl haccepted
  obtain ⟨entry, hentry⟩ := Option.isSome_iff_exists.mp hheld
  obtain ⟨hmem, _, hseq⟩ := (find_filter_eq_some hreach.filed.nodup).mp hentry
  have hbacked := hreach.backed raiser (.inl hreturned) (hreach.returned raiser hreturned) haccepted
    spec (.attached raiser.seq) hspawn rfl ⟨entry, hmem, hseq⟩
  exact hbacked.resolve_right id

/-- A raiser by name comes before the spawn stores its handle, one by id after. -/
def raceAttach : List (Nat × Input) := List.flatten
  [[(0, .spawn ⟨1, some "worker", true, 5⟩)], List.replicate 4 (1, .go),
    [(0, .kill (.name "worker") (some 3))], List.replicate 4 (3, .go), [(0, .tick 2)],
    List.replicate 7 (1, .go), [(0, .kill (.id 1) none)], List.replicate 5 (4, .go)]

def attachedSpawn (state : State) (i : Nat) : Option (Spec × Seq) :=
  match state.parties[i]? with
  | some (.spawn spec (.attached seq)) => some (spec, seq)
  | _ => none

theorem mem_of_attachedSpawn {i : Nat} (hspawn : attachedSpawn state i = some (spec, seq)) :
    .spawn spec (.attached seq) ∈ state.parties := by
  unfold attachedSpawn at hspawn
  split at hspawn <;> cases hspawn
  exact List.mem_of_getElem? ‹_›

/-- The spawn and the two raisers of the run, once all have returned. -/
theorem raceAttach_returns : ((Machine.run (Machine.Pool.step next) (init "system" 1 fun _ => 0)
    raceAttach).bind fun state => (attachedSpawn state 1).bind fun spawn =>
      if (state.shared.idEntry spawn.1.id spawn.2).isSome then
        state.shared.raises.head?.filter fun raiser =>
          raiser.seq == spawn.2 && raiser.accepted && !raiser.abort
      else none).isSome = true := by decide +kernel

theorem kill_backed_raceAttach : ∃ (state : State) (raiser : Raiser),
    raiser ∈ state.shared.raises ∧ raiser.abort = false ∧
      ∃ arm ∈ state.shared.armed, arm.seq = raiser.seq ∧
        arm.deadline ≤ max (raiser.due state.shared) arm.since + (arm.armedAt - arm.since) := by
  obtain ⟨state, hrun, hrest⟩ :=
    Option.bind_eq_some_iff.mp (Option.some_get raceAttach_returns).symm
  obtain ⟨⟨spec, seq⟩, hspawn, hrest⟩ := Option.bind_eq_some_iff.mp hrest
  split at hrest
  · rename_i hheld
    obtain ⟨hhead, hraiser⟩ := Option.filter_eq_some_iff.mp hrest
    simp only [Bool.and_eq_true, beq_iff_eq, Bool.not_eq_true'] at hraiser
    obtain ⟨⟨hseq, haccepted⟩, habort⟩ := hraiser
    have hreturned := List.mem_of_mem_head? hhead
    obtain ⟨arm, hmem, harm, hle⟩ := (kill_backed (Machine.reaches_of_run hrun)).1 spec seq
      (mem_of_attachedSpawn hspawn) hheld _ hreturned hseq haccepted
    exact ⟨state, _, hreturned, habort, arm, hmem, harm.trans hseq.symm, hle⟩
  · cases hrest

end TokioActors.System
