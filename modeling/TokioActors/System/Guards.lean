/-
# Registrations and the guards they leave

A registration claims its name and then its id, in two maps, and gives the name
back when the id is taken. The guard of a registration that went through frees the
id and then the name, whenever it is dropped. An entry stands for as long as a
party holds it: the registration between its two claims, the guard, or the guard's
drop between its two removals. What is in the maps is exactly what the parties hold.
-/

import TokioActors.System.Gate

namespace TokioActors.System

open Machine

/-- The entries of both maps, without what they carry. -/
def Shared.entries (s : Shared) : List ((ActorId ⊕ String) × Seq) :=
  (s.byId.map fun entry => (.inl entry.key, entry.seq)) ++
    s.byName.map fun entry => (.inr entry.key, entry.seq)

/-- Where a registration, or the guard it left, is. -/
inductive Registrant
  | world
  | spawn (spec : Spec) (stage : SpawnStage)
  | guard (spec : Spec) (seq : Seq)
  /-- The drop of a guard has freed the id. -/
  | freesName (spec : Spec) (seq : Seq)
  | freed

inductive RegistrantInput
  | phase (phase : SystemPhase)
  | register (spec : Spec)
  | go
  | dropGuard

namespace Registrant

/-- A registration that goes through leaves its guard. -/
def leaves (spec : Spec) : SpawnStage → SpawnStage → List Registrant
  | .claimId _, .attachId seq => [.guard spec seq]
  | _, _ => []

def next (s : Shared) (place : Registrant) (input : RegistrantInput) :
    Option (Shared × Registrant × List Registrant) :=
  match place, input with
  | .world, .phase phase => some ({ s with phase := phase }, .world, [])
  | .world, .register spec => some (s, .world, [.spawn spec .phaseCheck])
  | .spawn spec stage, .go =>
    (spec.step s stage).map fun after => (after.1, .spawn spec after.2, leaves spec stage after.2)
  | .guard spec seq, .dropGuard => some (s.unregisterById spec.id seq, .freesName spec seq, [])
  | .freesName spec seq, .go =>
    some (spec.name.elim s fun name => s.unregisterByName name seq, .freed, [])
  | _, _ => none

/-- The registration whose entries the party answers for. -/
def registers : Registrant → Option (Spec × Seq)
  | .spawn spec (.claimName seq) | .spawn spec (.claimId seq) | .spawn spec (.releaseName seq _)
  | .guard spec seq | .freesName spec seq => some (spec, seq)
  | _ => none

def holds : Registrant → List ((ActorId ⊕ String) × Seq)
  | .spawn spec (.claimId seq) | .freesName spec seq =>
    spec.name.toList.map fun name => (.inr name, seq)
  | .spawn _ (.releaseName seq name) => [(.inr name, seq)]
  | .guard spec seq => (.inl spec.id, seq) :: spec.name.toList.map fun name => (.inr name, seq)
  | _ => []

def busy : Registrant → Bool
  | .spawn _ .drawSeq | .spawn _ (.claimName _) | .spawn _ (.claimId _)
  | .spawn _ (.releaseName _ _) | .freesName _ _ => true
  | _ => false

variable {place : Registrant} {row : (ActorId ⊕ String) × Seq}

theorem seq_of_holds (hrow : row ∈ place.holds) : ∃ spec, place.registers = some (spec, row.2) := by
  unfold holds at hrow
  split at hrow
  · obtain ⟨name, _, rfl⟩ := List.mem_map.mp hrow
    exact ⟨_, rfl⟩
  · obtain ⟨name, _, rfl⟩ := List.mem_map.mp hrow
    exact ⟨_, rfl⟩
  · rw [List.mem_singleton.mp hrow]
    exact ⟨_, rfl⟩
  · rcases List.mem_cons.mp hrow with rfl | hname
    · exact ⟨_, rfl⟩
    · obtain ⟨name, _, rfl⟩ := List.mem_map.mp hname
      exact ⟨_, rfl⟩
  · cases hrow

end Registrant

open Registrant

/-! ## One step -/

variable {s s' : Shared} {place place' : Registrant} {entering : List Registrant}
  {row : (ActorId ⊕ String) × Seq}

def Shared.Distinct (s : Shared) : Prop :=
  (s.byId.map Entry.key).Nodup ∧ (s.byName.map Entry.key).Nodup

/-- What a step of a party does: the entries the party held give way to those it
holds afterwards, with the guard it leaves, and only a drawn number is new. -/
structure Passes (s : Shared) (place : Registrant) (s' : Shared) (place' : Registrant)
    (entering : List Registrant) : Prop where
  distinct : s.Distinct → s'.Distinct
  entries : (∀ row ∈ place.holds, row ∈ s.entries) → ∀ row, row ∈ s'.entries ↔
    row ∈ s.entries ∧ row ∉ place.holds ∨ row ∈ place'.holds ++ entering.flatMap holds
  registers : ∀ other ∈ place' :: entering, other.registers = none ∨
    other.registers = place.registers ∨
      ∃ spec, other.registers = some (spec, s.registrationSeq) ∧ other.holds = [] ∧
        (s'.incarnations s.registrationSeq).name = spec.name ∧
        s.registrationSeq < s'.registrationSeq
  alone : entering = [] ∨ place'.registers = none ∧ ∃ guard, entering = [guard]
  births : ∀ n < s.registrationSeq,
    n < s'.registrationSeq ∧ (s'.incarnations n).name = (s.incarnations n).name

theorem Passes.keep (hids : s'.byId.map Entry.key = s.byId.map Entry.key)
    (hnames : s'.byName.map Entry.key = s.byName.map Entry.key) (hentries : s'.entries = s.entries)
    (hseq : s'.registrationSeq = s.registrationSeq) (hbirths : s'.incarnations = s.incarnations)
    (hholds : place'.holds = place.holds)
    (hregisters : place'.registers = none ∨ place'.registers = place.registers) :
    Passes s place s' place' [] where
  distinct h := ⟨hids ▸ h.1, hnames ▸ h.2⟩
  entries hheld row := by
    rw [hentries, hholds, List.flatMap_nil, List.append_nil]
    by_cases hrow : row ∈ place.holds
    · simp [hrow, hheld row hrow]
    · simp [hrow]
  registers other hother := by
    rw [List.mem_singleton.mp hother]
    exact hregisters.imp_right .inl
  alone := .inl rfl
  births n hn := by
    rw [hseq, hbirths]
    exact ⟨hn, rfl⟩

theorem Passes.freeName {n : Seq} {name : String} {registering : ℤ}
    (hholds : place.holds = [(.inr name, n)]) (hleft : place'.holds = [])
    (hdone : place'.registers = none) :
    Passes s place { s.unregisterByName name n with registering := registering } place' [] where
  distinct h := ⟨h.1, h.2.sublist (List.filter_sublist.map _)⟩
  entries _ row := by
    simp [Shared.entries, Shared.unregisterByName, hholds, hleft]
    grind
  registers other hother := by
    rw [List.mem_singleton.mp hother]
    exact .inl hdone
  alone := .inl rfl
  births n hn := ⟨hn, rfl⟩

theorem map_update {κ β : Type} [DecidableEq κ] {key : κ} {n : Seq} {entries : List (Entry κ)}
    {f : Entry κ → Entry κ} {g : Entry κ → β} (hsame : ∀ entry, g (f entry) = g entry) :
    (Keyed.update Entry.key key (fun entry => if entry.seq = n then f entry else entry) entries).map
      g = entries.map g := by
  rw [Keyed.update, List.map_map]
  refine List.map_congr_left fun entry _ => ?_
  simp only [Function.comp_apply]
  split
  · split
    · rw [hsame]
    · rfl
  · rfl

theorem passes_of_spawn {spec : Spec} {stage stage' : SpawnStage}
    (hstep : spec.step s stage = some (s', stage')) :
    Passes s (.spawn spec stage) s' (.spawn spec stage') (leaves spec stage stage') := by
  cases stage with
  | drawSeq =>
    cases hstep
    have hnew (n : Seq) (hn : n < s.registrationSeq) : n ≠ s.registrationSeq := hn.ne
    cases hname : spec.name with
    | none | some =>
      refine ⟨id, fun _ row => ?_, fun other hother => .inr (.inr ?_), .inl ?_, fun n hn => ?_⟩
      · simp [holds, hname, leaves]
        rfl
      · rw [List.mem_singleton.mp hother]
        exact ⟨spec, by simp [registers], by simp [holds, hname], by simp [hname], by simp⟩
      · simp [leaves]
      · simp [hnew n hn, Nat.lt_succ_of_lt hn]
  | claimName n =>
    simp only [Spec.step] at hstep
    split at hstep
    · rename_i hname
      cases hstep
      exact .keep rfl rfl rfl rfl rfl (by simp [holds, hname]) (.inr rfl)
    · rename_i name hname
      split at hstep <;> cases hstep
      · exact .keep rfl rfl rfl rfl rfl rfl (.inl rfl)
      · rename_i hfree
        rw [Keyed.find_isSome_iff] at hfree
        refine ⟨fun h => ⟨h.1, ?_⟩, fun _ row => ?_, ?_, .inl rfl, fun n hn => ⟨hn, rfl⟩⟩
        · rw [List.map_append]
          exact List.Nodup.append h.2 (by simp) (by simpa using hfree)
        · simp [Shared.entries, holds, hname, leaves, or_assoc]
        · intro other hother
          rw [List.mem_singleton.mp hother]
          exact .inr (.inl rfl)
  | claimId n =>
    simp only [Spec.step] at hstep
    split at hstep
    · split at hstep <;> cases hstep
      · rename_i name hname
        exact .keep rfl rfl rfl rfl rfl (by simp [holds, hname]) (.inr rfl)
      · rename_i hname
        exact .keep rfl rfl rfl rfl rfl (by simp [holds, hname]) (.inl rfl)
    · rename_i hfree
      cases hstep
      rw [Keyed.find_isSome_iff] at hfree
      refine ⟨fun h => ⟨?_, h.2⟩, fun hheld row => ?_, ?_, .inr ⟨rfl, _, rfl⟩,
        fun n hn => ⟨hn, rfl⟩⟩
      · rw [List.map_append]
        exact List.Nodup.append h.1 (by simp) (by simpa using hfree)
      · simp [Shared.entries, holds, leaves] at hheld ⊢
        grind
      · intro other hother
        rcases List.mem_cons.mp hother with rfl | hguard
        · exact .inl rfl
        · rw [List.mem_singleton.mp hguard]
          exact .inr (.inl rfl)
  | releaseName n name =>
    cases hstep
    exact .freeName rfl rfl rfl
  | attachId =>
    cases hstep
    exact .keep (map_update fun _ => rfl) rfl
      (congrArg (· ++ _) (map_update fun _ => rfl)) rfl rfl rfl (.inl rfl)
  | attachName =>
    simp only [Spec.step] at hstep
    split at hstep <;> cases hstep
    · exact .keep rfl rfl rfl rfl rfl rfl (.inl rfl)
    · exact .keep rfl (map_update fun _ => rfl)
        (congrArg (_ ++ ·) (map_update fun _ => rfl)) rfl rfl rfl (.inl rfl)
  | phaseCheck =>
    simp only [Spec.step] at hstep
    split at hstep <;> cases hstep <;> exact .keep rfl rfl rfl rfl rfl rfl (.inl rfl)
  | readLane =>
    cases hstep
    refine .keep rfl rfl rfl rfl rfl ?_ (.inl ?_) <;> split <;> rfl
  | readIdDue | readNameDue | readClock | arm =>
    cases hstep
    exact .keep rfl rfl rfl rfl rfl rfl (.inl rfl)
  | refused | attached => cases hstep

theorem passes_of_next {input : RegistrantInput}
    (hnext : Registrant.next s place input = some (s', place', entering)) :
    Passes s place s' place' entering := by
  unfold Registrant.next at hnext
  split at hnext
  · cases hnext
    exact .keep rfl rfl rfl rfl rfl rfl (.inr rfl)
  · cases hnext
    refine ⟨id, fun _ row => by simp [holds], fun other hother => .inl ?_, .inr ⟨rfl, _, rfl⟩,
      fun n hn => ⟨hn, rfl⟩⟩
    rcases List.mem_pair.mp hother with rfl | rfl <;> rfl
  · obtain ⟨after, hstep, heq⟩ := Option.map_eq_some_iff.mp hnext
    cases heq
    exact passes_of_spawn hstep
  · rename_i spec n
    cases hnext
    refine ⟨fun h => ⟨h.1.sublist (List.filter_sublist.map _), h.2⟩, fun hheld row => ?_, ?_,
      .inl rfl,
      fun n hn => ⟨hn, rfl⟩⟩
    · simp [Shared.entries, Shared.unregisterById, holds] at hheld ⊢
      grind
    · intro other hother
      rw [List.mem_singleton.mp hother]
      exact .inr (.inl rfl)
  · rename_i spec n
    cases hnext
    cases hname : spec.name with
    | none => exact .keep rfl rfl rfl rfl rfl (by simp [holds, hname]) (.inl rfl)
    | some name => exact .freeName (by simp [holds, hname]) rfl rfl
  · cases hnext

/-! ## Every run -/

open Machine.Pool (weigh)

/-- The party answers for the registration of the number. -/
def Registrant.owns (n : Seq) (place : Registrant) : ℤ :=
  if place.registers.map Prod.snd = some n then 1 else 0

theorem owns_of_registers {spec : Spec} {n : Seq} (h : place.registers = some (spec, n)) :
    place.owns n = 1 := by
  rw [Registrant.owns, h]
  exact if_pos rfl

theorem owns_nonneg (n : Seq) (place : Registrant) : 0 ≤ place.owns n := by
  unfold Registrant.owns
  split <;> decide

/-- What is in the maps is what the parties hold, and no two of them answer for the
same registration. -/
structure Paired (pool : Pool Shared Registrant) : Prop where
  distinct : pool.shared.Distinct
  entries : ∀ row, row ∈ pool.shared.entries ↔ ∃ place ∈ pool.parties, row ∈ place.holds
  once : ∀ n, weigh (owns n) pool.parties ≤ 1
  born : ∀ place ∈ pool.parties, ∀ spec n, place.registers = some (spec, n) →
    n < pool.shared.registrationSeq ∧ (pool.shared.incarnations n).name = spec.name

variable {pool : Pool Shared Registrant} {i : Nat}

/-- An entry of the party's own number is in the party's own hold. -/
theorem Paired.own (hpaired : Paired pool) (hplace : pool.parties[i]? = some place) {spec : Spec}
    (hregisters : place.registers = some (spec, row.2)) {j : Nat} {other : Registrant}
    (hother : pool.parties[j]? = some other) (hrow : row ∈ other.holds) : j = i := by
  obtain ⟨_, hholder⟩ := seq_of_holds hrow
  by_contra hne
  have htwo := Pool.weight_add_le_weigh (owns_nonneg row.2) hother hplace hne
  rw [owns_of_registers hholder, owns_of_registers hregisters] at htwo
  have hone := hpaired.once row.2
  omega

theorem Paired.once_step (hpaired : Paired pool) (hplace : pool.parties[i]? = some place)
    (hpasses : Passes pool.shared place s' place' entering) (n : Seq) :
    weigh (owns n) (pool.parties.set i place' ++ entering) ≤ 1 := by
  have hsum : weigh (owns n) (pool.parties.set i place' ++ entering) + place.owns n =
      weigh (owns n) pool.parties + place'.owns n + weigh (owns n) entering :=
    Pool.weigh_step hplace
  have hone := hpaired.once n
  obtain ⟨other, hmem, htotal⟩ : ∃ other ∈ place' :: entering,
      place'.owns n + weigh (owns n) entering = other.owns n := by
    rcases hpasses.alone with rfl | ⟨hnone, guard, rfl⟩
    · exact ⟨place', by simp, by simp⟩
    · exact ⟨guard, by simp, by simp [Registrant.owns, hnone]⟩
  rcases hpasses.registers other hmem with hnone | hsame | ⟨spec, hdrawn, _⟩
  · have hzero : other.owns n = 0 := by simp [Registrant.owns, hnone]
    have hnonneg := owns_nonneg n place
    omega
  · have hsame : other.owns n = place.owns n := by rw [Registrant.owns, hsame]; rfl
    omega
  · by_cases hn : pool.shared.registrationSeq = n
    · -- Nobody answers for a number that was not drawn yet.
      have hzero : ∀ place ∈ pool.parties, place.owns n = 0 := fun place hplace => by
        refine if_neg fun howns => ?_
        obtain ⟨⟨spec, m⟩, hregisters, rfl⟩ := Option.map_eq_some_iff.mp howns
        exact ((hpaired.born place hplace spec _ hregisters).1.ne hn.symm)
      have hsum' := Pool.weigh_zero hzero
      have hplace' := hzero place (List.mem_of_getElem? hplace)
      have hle : other.owns n ≤ 1 := by unfold Registrant.owns; split <;> decide
      omega
    · have hzero : other.owns n = 0 := by simp [Registrant.owns, hdrawn, hn]
      have hnonneg := owns_nonneg n place
      omega

theorem Paired.step (hpaired : Paired pool) (hplace : pool.parties[i]? = some place)
    (hpasses : Passes pool.shared place s' place' entering) :
    Paired ⟨s', pool.parties.set i place' ++ entering⟩ := by
  have hmem := List.mem_of_getElem? hplace
  refine ⟨hpasses.distinct hpaired.distinct, fun row => ?_, hpaired.once_step hplace hpasses,
    fun other hother spec n hregisters => ?_⟩
  · rw [hpasses.entries fun row hrow => (hpaired.entries row).mpr ⟨place, hmem, hrow⟩]
    constructor
    · rintro (⟨hrow, hnot⟩ | hrow)
      · exact Pool.exists_after hplace (fun hrow => absurd hrow hnot)
          ((hpaired.entries row).mp hrow)
      · obtain ⟨hi, _⟩ := List.getElem?_eq_some_iff.mp hplace
        rcases List.mem_append.mp hrow with hrow | hrow
        · exact ⟨place', List.mem_append_left _ (List.mem_set hi place'), hrow⟩
        · obtain ⟨other, hother, hrow⟩ := List.mem_flatMap.mp hrow
          exact ⟨other, List.mem_append_right _ hother, hrow⟩
    · rintro ⟨other, hother, hrow⟩
      obtain ⟨k, hk⟩ := List.mem_iff_getElem?.mp hother
      rcases Pool.getElem?_after hplace hk with ⟨_, rfl⟩ | ⟨hne, hold⟩ | ⟨_, hnew⟩
      · exact .inr (List.mem_append_left _ hrow)
      · refine .inl ⟨(hpaired.entries row).mpr ⟨other, List.mem_of_getElem? hold, hrow⟩,
          fun hown => ?_⟩
        obtain ⟨spec, hregisters⟩ := seq_of_holds hown
        exact hne (hpaired.own hplace hregisters hold hrow)
      · exact .inr (List.mem_append_right _
          (List.mem_flatMap.mpr ⟨other, List.mem_of_getElem? hnew, hrow⟩))
  · have hold {old : Registrant} (hold : old ∈ pool.parties)
        (hregisters : old.registers = some (spec, n)) := by
      obtain ⟨hlt, hname⟩ := hpaired.born old hold spec n hregisters
      exact (hpasses.births n hlt).imp_right fun hsame => hsame.trans hname
    have hnew (hnew : other ∈ place' :: entering) :
        n < s'.registrationSeq ∧ (s'.incarnations n).name = spec.name := by
      rcases hpasses.registers other hnew with hnone | hsame | ⟨spec', hdrawn, _, hname, hlt⟩
      · cases hnone.symm.trans hregisters
      · exact hold hmem (hsame ▸ hregisters)
      · cases hdrawn.symm.trans hregisters
        exact ⟨hlt, hname⟩
    rcases List.mem_append.mp hother with hset | hentering
    · rcases List.mem_or_eq_of_mem_set hset with hmem | rfl
      · exact hold hmem hregisters
      · exact hnew List.mem_cons_self
    · exact hnew (List.mem_cons_of_mem _ hentering)

def Registering (systemName : String) (shards : ℕ+) (hash : ActorId → Nat)
    (pool : Pool Shared Registrant) : Prop :=
  Machine.Reaches (Pool.step Registrant.next) always
    ⟨(init systemName shards hash).shared, [.world]⟩ pool

section Registry

variable {systemName : String} {shards : ℕ+} {hash : ActorId → Nat}

theorem Registering.paired (hreach : Registering systemName shards hash pool) : Paired pool := by
  refine Pool.invariant ⟨?_, ?_, ?_, ?_⟩ ?_ hreach
  · simp [Shared.Distinct, init]
  · simp [init, Shared.entries, holds]
  · simp [Registrant.owns, registers]
  · simp [registers]
  · intro pool i input place place' shared entering hpaired _ hplace hnext
    exact hpaired.step hplace (passes_of_next hnext)

/-- **The two maps hold what their registrations hold.** No id and no name is held
twice. A step touches only the entries of the registration its party answers for, so
a drop, however late, frees nothing else; and once a registration is refused, or its
guard is gone, neither map has an entry of it. With no registration and no drop in
progress the named entries are those of the ids that carry a name, pair by pair under
one number. -/
theorem registry_pairs_names_with_ids (hreach : Registering systemName shards hash pool) :
    ((pool.shared.byId.map Entry.key).Nodup ∧ (pool.shared.byName.map Entry.key).Nodup) ∧
    (∀ (i : Nat) input place s' place' entering, pool.parties[i]? = some place →
      Registrant.next pool.shared place input = some (s', place', entering) →
      (∀ key n, place.registers.map Prod.snd ≠ some n →
        ((key, n) ∈ s'.entries ↔ (key, n) ∈ pool.shared.entries)) ∧
      ∀ spec n, place.registers = some (spec, n) → place'.registers = none → entering = [] →
        ∀ key, (key, n) ∉ s'.entries) ∧
    ((∀ place ∈ pool.parties, place.busy = false) → ∀ name n,
      (.inr name, n) ∈ pool.shared.entries ↔
        ∃ id, (.inl id, n) ∈ pool.shared.entries ∧
          (pool.shared.incarnations n).name = some name) := by
  have hpaired := hreach.paired
  refine ⟨hpaired.distinct, fun i input place s' place' entering hplace hnext => ?_, ?_⟩
  · have hpasses := passes_of_next hnext
    have hentries := hpasses.entries fun row hrow =>
      (hpaired.entries row).mpr ⟨place, List.mem_of_getElem? hplace, hrow⟩
    refine ⟨fun key n hother => ?_, fun spec n hregisters hnone hentering key hrow => ?_⟩
    · have hnot : (key, n) ∉ place.holds := fun hrow => by
        obtain ⟨_, hregisters⟩ := seq_of_holds hrow
        exact hother (by rw [hregisters]; rfl)
      have hnew : (key, n) ∉ place'.holds ++ entering.flatMap holds := fun hrow => by
        obtain ⟨other, hmem, hrow⟩ : ∃ other ∈ place' :: entering, (key, n) ∈ other.holds := by
          simpa using hrow
        obtain ⟨_, hregisters⟩ := seq_of_holds hrow
        rcases hpasses.registers other hmem with hnone | hsame | ⟨_, _, hempty, _⟩
        · cases hnone.symm.trans hregisters
        · exact hother (by rw [← hsame, hregisters]; rfl)
        · rw [hempty] at hrow
          cases hrow
      rw [hentries, or_iff_left hnew, and_iff_left hnot]
    · subst hentering
      rcases (hentries _).mp hrow with ⟨hrow, hnot⟩ | hrow
      · obtain ⟨other, hother, hholds⟩ := (hpaired.entries _).mp hrow
        obtain ⟨j, hj⟩ := List.mem_iff_getElem?.mp hother
        obtain rfl := hpaired.own hplace hregisters hj hholds
        cases hj.symm.trans hplace
        exact hnot hholds
      · obtain ⟨_, hregisters⟩ := seq_of_holds (by simpa using hrow)
        cases hnone.symm.trans hregisters
  · -- At rest the only parties that hold entries are guards.
    intro hrest name n
    have hguard {key : ActorId ⊕ String} (hrow : (key, n) ∈ pool.shared.entries) :
        ∃ spec, Registrant.guard spec n ∈ pool.parties ∧
          (key, n) ∈ (Registrant.guard spec n).holds := by
      obtain ⟨place, hplace, hholds⟩ := (hpaired.entries _).mp hrow
      have hidle := hrest place hplace
      unfold holds at hholds
      split at hholds <;> try cases hidle
      · rename_i spec m
        obtain ⟨_, hregisters⟩ := @seq_of_holds (.guard spec m) _ hholds
        cases hregisters
        exact ⟨spec, hplace, hholds⟩
      · cases hholds
    have hnamed {spec : Spec} (hplace : Registrant.guard spec n ∈ pool.parties) :=
      (hpaired.born _ hplace spec n rfl).2
    constructor
    · intro hrow
      obtain ⟨spec, hplace, hholds⟩ := hguard hrow
      refine ⟨spec.id, (hpaired.entries _).mpr ⟨_, hplace, List.mem_cons_self⟩, ?_⟩
      rw [hnamed hplace]
      simpa [holds] using hholds
    · rintro ⟨id, hrow, hname⟩
      obtain ⟨spec, hplace, _⟩ := hguard hrow
      rw [hnamed hplace] at hname
      exact (hpaired.entries _).mpr ⟨_, hplace, by simp [holds, hname]⟩

/-- A named actor, then one of another name under the same id: it claims its name,
finds the id taken and gives the name back. -/
def rollback : List (Nat × RegistrantInput) :=
  [(0, .register { id := 7, name := some "a", isRoot := true, killGrace := 0 })] ++
    List.replicate 4 (1, .go) ++
  [(0, .register { id := 7, name := some "b", isRoot := true, killGrace := 0 })] ++
    List.replicate 5 (3, .go)

theorem rollback_goes : (run (Pool.step Registrant.next)
    ⟨(init "system" 1 fun _ => 0).shared, [.world]⟩ rollback).isSome = true := by
  decide +kernel

theorem registry_pairs_names_with_ids_rollback :
    let pool := (run (Pool.step Registrant.next)
      ⟨(init "system" 1 fun _ => 0).shared, [.world]⟩ rollback).get rollback_goes
    pool.shared.entries = [(.inl 7, 0), (.inr "a", 0)] ∧
      ((.inr "a", 0) ∈ pool.shared.entries ↔
        ∃ id, (.inl id, 0) ∈ pool.shared.entries ∧
          (pool.shared.incarnations 0).name = some "a") :=
  ⟨by decide +kernel, (registry_pairs_names_with_ids (reaches_get rollback_goes)).2.2
    (by decide +kernel) "a" 0⟩

end Registry

end TokioActors.System
