/-
# What becomes of a status request

The parties of the plane together: who has a permit, who has a sending half, and
who has the receiver. One party at a time has the receiving side, the run loop
until it hands the receiver of a closed channel to the draining task, so that a
step of a requester changes nothing the receiving side relies on.
-/

import TokioActors.Plane.Serving

namespace TokioActors

open Machine

namespace PlaneParty

def permits : PlaneParty → ℤ
  | .pushes _ => 1
  | _ => 0

def senders : PlaneParty → ℤ
  | .sends _ | .pushes _ | .leaves | .wakes true | .calls true => 1
  | _ => 0

def reads : PlaneParty → ℤ
  | .submits _ | .sends _ | .pushes _ | .leaves | .raises _ | .wakes _ | .calls _ | .done
  | .gone => 0
  | _ => 1

/-- Whether the party still has the request to hand in. -/
def carries (request : Nat) : PlaneParty → ℤ
  | .submits other | .sends other | .pushes other => if other = request then 1 else 0
  | _ => 0

theorem permits_nonneg (place : PlaneParty) : 0 ≤ place.permits := by
  unfold permits
  split <;> decide

theorem senders_nonneg (place : PlaneParty) : 0 ≤ place.senders := by
  unfold senders
  split <;> decide

theorem reads_nonneg (place : PlaneParty) : 0 ≤ place.reads := by
  unfold reads
  split <;> decide

theorem carries_nonneg (request : Nat) (place : PlaneParty) : 0 ≤ place.carries request := by
  unfold carries
  split
  · split <;> decide
  · split <;> decide
  · split <;> decide
  · decide

end PlaneParty

namespace SystemPlane

variable {plane after : SystemPlane} {place place' : PlaneParty} {request : Nat}
  {entering : List PlaneParty}

/-- The sending halves outside the requesters. -/
def spare (plane : SystemPlane) : ℤ :=
  (match plane.slot with | .opened _ _ => 1 | _ => 0) + if plane.txInHand then 1 else 0

def Fits (plane : SystemPlane) : PlaneParty → Prop
  | .submits _ | .raises _ | .wakes false | .calls false | .done | .gone => True
  | .sends _ | .pushes _ | .leaves | .wakes true | .calls true => plane.openBit = true
  | .releases => plane.slot = .closed ∧ plane.rxGone = false
  | .ends => plane.slot = .closed ∧ plane.rxGone = false ∧ plane.inHand = [] ∧
      plane.txInHand = false
  | .drains _ | .lateDrains | .dropsRx => plane.slot = .closed ∧ plane.rxGone = false ∧
      plane.inHand = [] ∧ plane.txInHand = false ∧ plane.rxTaken = true
  | _ => plane.slot ≠ .closed

/-- What a requester's step leaves alone. -/
structure Quiet (plane after : SystemPlane) : Prop where
  closed : after.slot = .closed ↔ plane.slot = .closed
  rxTaken : after.rxTaken = plane.rxTaken
  rxGone : after.rxGone = plane.rxGone
  inHand : after.inHand = plane.inHand
  txInHand : after.txInHand = plane.txInHand

theorem Fits.quiet (hfits : Fits plane place) (hquiet : Quiet plane after)
    (hopen : plane.openBit = true → after.openBit = true) : Fits after place := by
  obtain ⟨hclosed, hrx, hgone, hhand, htx⟩ := hquiet
  cases place with
  | wakes tx | calls tx =>
    cases tx with
    | true => exact hopen hfits
    | false => trivial
  | submits | raises | done | gone => trivial
  | sends | pushes | leaves => exact hopen hfits
  | releases => exact ⟨hclosed.mpr hfits.1, hgone.trans hfits.2⟩
  | ends =>
    exact ⟨hclosed.mpr hfits.1, hgone.trans hfits.2.1, hhand.trans hfits.2.2.1,
      htx.trans hfits.2.2.2⟩
  | drains | lateDrains | dropsRx =>
    exact ⟨hclosed.mpr hfits.1, hgone.trans hfits.2.1, hhand.trans hfits.2.2.1,
      htx.trans hfits.2.2.2.1, hrx.trans hfits.2.2.2.2⟩
  | _ => exact fun h => hfits (hclosed.mp h)

theorem Fits.other (hfits : Fits plane place) (hother : place.reads = 0)
    (hopen : plane.openBit = true → after.openBit = true) : Fits after place := by
  cases place with
  | wakes tx | calls tx =>
    cases tx with
    | true => exact hopen hfits
    | false => trivial
  | submits | raises | done | gone => trivial
  | sends | pushes | leaves => exact hopen hfits
  | _ => cases hother

/-- Nobody is left on the receiving side. -/
structure Over (plane : SystemPlane) : Prop where
  closed : plane.slot = .closed
  inHand : plane.inHand = []
  txInHand : plane.txInHand = false
  rxGone : plane.rxTaken = true → plane.rxGone = true

/-- What no receiver is left for waits for the last sending half. -/
def Freed (plane : SystemPlane) : Prop :=
  plane.rxGone = true → plane.txInHand = false ∧ (plane.queue ≠ [] → 0 < plane.txs)

structure Stepped (plane after : SystemPlane) (place place' : PlaneParty)
    (entering : List PlaneParty) : Prop where
  served : Served after
  opens : plane.openBit = true → after.openBit = true
  own : Fits after place'
  late : ∀ other ∈ entering, other = .lateDrains ∧ Fits after other
  permits : (after.reserved : ℤ) + place.permits = plane.reserved + place'.permits
  senders : (after.txs : ℤ) - after.spare + place.senders =
    plane.txs - plane.spare + place'.senders
  carries : ∀ request, (after.accepted.count request : ℤ) + place'.carries request ≤
    plane.accepted.count request + place.carries request
  freed : Freed after
  quiet : place.reads = 0 → Quiet plane after ∧ place'.reads = 0 ∧ entering = []
  reads : place'.reads + entering.length ≤ place.reads
  ending : place.reads = 1 → place'.reads + entering.length = 0 → Over after

/-! ## One step -/

theorem Quiet.refl : Quiet plane plane := ⟨Iff.rfl, rfl, rfl, rfl, rfl⟩

theorem stepped_same (hserved : Served plane) (hfreed : Freed plane) (hown : Fits plane place')
    (hpermits : place'.permits = place.permits) (hsenders : place'.senders = place.senders)
    (hcarries : ∀ request, place'.carries request ≤ place.carries request)
    (hreads : place'.reads = place.reads) : Stepped plane plane place place' [] where
  served := hserved
  opens := id
  own := hown
  late := nofun
  permits := by rw [hpermits]
  senders := by rw [hsenders]
  carries request := by
    have := hcarries request
    omega
  freed := hfreed
  quiet hzero := ⟨.refl, hreads.trans hzero, rfl⟩
  reads := by simp [hreads]
  ending hone hnone := by
    rw [hreads, hone] at hnone
    simp at hnone

theorem count_append_single (accepted : List Nat) (request other : Nat) :
    ((accepted ++ [request]).count other : ℤ) =
      accepted.count other + if request = other then 1 else 0 := by
  rw [List.count_append, List.count_singleton]
  simp

section

variable (hserved : Served plane)

include hserved

theorem stepped_submit (hfreed : Freed plane) :
    Stepped plane (plane.submit request).1 (.submits request) (plane.submit request).2 [] := by
  have hafter := @Served.submit plane request hserved
  have hfits := hserved.slot
  unfold SystemPlane.submit at hafter ⊢
  split at hafter
  next hslot =>
    refine ⟨hafter, id, trivial, (by rintro _ ⟨⟩), rfl, ?_, ?_, hfreed, ?_, le_rfl, (by rintro ⟨⟩)⟩
    · simp [spare, hslot, PlaneParty.senders]
    · intro other
      have := PlaneParty.carries_nonneg other (.submits request)
      simpa [PlaneParty.carries] using this
    · exact fun _ => ⟨⟨by simp [hslot], rfl, rfl, rfl, rfl⟩, rfl, rfl⟩
  next hslot =>
    refine ⟨hafter, id, trivial, (by rintro _ ⟨⟩), rfl, ?_, ?_, hfreed, ?_, le_rfl, (by rintro ⟨⟩)⟩
    · simp [spare, hslot, PlaneParty.senders]
    · intro other
      dsimp only
      rw [count_append_single]
      simp [PlaneParty.carries]
    · exact fun _ => ⟨⟨by simp [hslot], rfl, rfl, rfl, rfl⟩, rfl, rfl⟩
  next first hslot =>
    simp only [SlotFits, hslot] at hfits
    have htxs := (hserved.channel hfits.2).2.1
    refine ⟨hafter, fun _ => rfl, rfl, (by rintro _ ⟨⟩), rfl, ?_, fun _ => le_rfl, ?_, ?_, le_rfl,
      (by rintro ⟨⟩)⟩
    · simp only [spare, hslot, PlaneParty.senders, htxs]
      omega
    · exact fun hgone => ⟨(hfreed hgone).1, fun _ => Nat.succ_pos _⟩
    · exact fun _ => ⟨⟨by simp [hslot], rfl, rfl, rfl, rfl⟩, rfl, rfl⟩
  next first rx hslot =>
    simp only [SlotFits, hslot] at hfits
    refine ⟨hafter, id, hfits.2.1, (by rintro _ ⟨⟩), rfl, ?_, fun _ => le_rfl, ?_, ?_, le_rfl,
      (by rintro ⟨⟩)⟩
    · simp only [spare, hslot, PlaneParty.senders]
      omega
    · exact fun hgone => ⟨(hfreed hgone).1, fun _ => Nat.succ_pos _⟩
    · exact fun _ => ⟨⟨by simp [hslot], rfl, rfl, rfl, rfl⟩, rfl, rfl⟩

theorem stepped_reserve (hfreed : Freed plane) (hopen : plane.openBit = true)
    (hreserve : plane.reserve request = some (after, place')) :
    Stepped plane after (.sends request) place' [] := by
  have hafter := hserved.reserve hopen hreserve
  unfold SystemPlane.reserve at hreserve
  split at hreserve
  · cases hreserve
    refine ⟨hafter, id, hopen, nofun, rfl, rfl, ?_, hfreed,
      fun _ => ⟨⟨Iff.rfl, rfl, rfl, rfl, rfl⟩, rfl, rfl⟩, le_rfl, nofun⟩
    intro other
    have := PlaneParty.carries_nonneg other (.sends request)
    simpa [PlaneParty.carries] using this
  · split at hreserve
    · cases hreserve
      refine ⟨hafter, id, hopen, nofun, ?_, rfl, fun _ => le_rfl, hfreed,
        fun _ => ⟨⟨Iff.rfl, rfl, rfl, rfl, rfl⟩, rfl, rfl⟩, le_rfl, nofun⟩
      simp [PlaneParty.permits]
    · cases hreserve

theorem stepped_push (hfreed : Freed plane) (hopen : plane.openBit = true)
    (htxs : 0 < plane.txs) (hreserved : 0 < plane.reserved) :
    Stepped plane (plane.push request) (.pushes request) (.wakes true) [] := by
  refine ⟨hserved.push hopen, id, hopen, nofun, ?_, rfl, ?_, ?_, ?_, le_rfl, nofun⟩
  · simp only [SystemPlane.push, PlaneParty.permits]
    omega
  · intro other
    simp only [SystemPlane.push]
    rw [count_append_single]
    simp [PlaneParty.carries]
  · exact fun hgone => ⟨(hfreed hgone).1, fun _ => htxs⟩
  · exact fun _ => ⟨⟨Iff.rfl, rfl, rfl, rfl, rfl⟩, rfl, rfl⟩

theorem stepped_leave (hfreed : Freed plane) (hopen : plane.openBit = true)
    (htxs : 0 < plane.txs) : Stepped plane plane.leave .leaves .done [] := by
  have hafter := hserved.leave hopen
  by_cases hlast : plane.txs ≤ 1 ∧ plane.rxGone = true
  · rw [SystemPlane.leave, if_pos hlast] at hafter ⊢
    refine ⟨hafter, id, trivial, nofun, rfl, ?_, fun _ => le_rfl, ?_, ?_, le_rfl, nofun⟩
    · simp only [spare, PlaneParty.senders]
      omega
    · exact fun hgone => ⟨(hfreed hgone).1, fun hqueue => absurd rfl hqueue⟩
    · exact fun _ => ⟨⟨Iff.rfl, rfl, rfl, rfl, rfl⟩, rfl, rfl⟩
  · rw [SystemPlane.leave, if_neg hlast] at hafter ⊢
    refine ⟨hafter, id, trivial, nofun, rfl, ?_, fun _ => le_rfl, ?_, ?_, le_rfl, nofun⟩
    · simp only [spare, PlaneParty.senders]
      omega
    · intro hgone
      refine ⟨(hfreed hgone).1, fun _ => ?_⟩
      have : ¬ plane.txs ≤ 1 := fun hle => hlast ⟨hle, hgone⟩
      dsimp only
      omega
    · exact fun _ => ⟨⟨Iff.rfl, rfl, rfl, rfl, rfl⟩, rfl, rfl⟩

theorem freed_of_open (hslot : plane.slot ≠ .closed) : Freed plane :=
  fun hgone => absurd (hserved.closed_of_rxGone hgone) hslot

end

theorem freed_of_rxGone (hgone : plane.rxGone = false) : Freed plane :=
  fun htrue => absurd (hgone.symm.trans htrue) (by decide)

theorem light_of_reads (hreads : place.reads = 1) :
    place.permits = 0 ∧ place.senders = 0 ∧ ∀ request, place.carries request = 0 := by
  cases place with
  | submits | sends | pushes | leaves | wakes | calls => cases hreads
  | _ => exact ⟨rfl, rfl, fun _ => rfl⟩

/-- A step of the receiving side that stays on that side. -/
theorem stepped_reads (hserved : Served after) (hfreed : Freed after) (hown : Fits after place')
    (hopens : plane.openBit = true → after.openBit = true)
    (hreserved : after.reserved = plane.reserved)
    (htxs : (after.txs : ℤ) - after.spare = plane.txs - plane.spare)
    (haccepted : after.accepted = plane.accepted) (hplace : place.reads = 1)
    (hplace' : place'.reads = 1) : Stepped plane after place place' [] where
  served := hserved
  opens := hopens
  own := hown
  late := nofun
  permits := by rw [hreserved, (light_of_reads hplace).1, (light_of_reads hplace').1]
  senders := by rw [htxs, (light_of_reads hplace).2.1, (light_of_reads hplace').2.1]
  carries request := by
    rw [haccepted, (light_of_reads hplace).2.2, (light_of_reads hplace').2.2]
  freed := hfreed
  quiet hzero := by
    rw [hplace] at hzero
    cases hzero
  reads := by simp [hplace, hplace']
  ending _ hnone := by
    rw [hplace'] at hnone
    simp at hnone

section

variable (hserved : Served plane)

include hserved

theorem stepped_takeHeld
    (htake : plane.takeHeld = some after) : Stepped plane after .takesHeld .completes [] := by
  have hafter := hserved.takeHeld htake
  unfold SystemPlane.takeHeld at htake
  split at htake
  next request hcase =>
    cases htake
    refine stepped_reads hafter (freed_of_open hafter nofun) nofun id rfl ?_ rfl rfl rfl
    simp [spare, hcase]
  next request rx hcase =>
    cases htake
    refine stepped_reads hafter (freed_of_open hafter nofun) nofun id rfl ?_ rfl rfl rfl
    simp [spare, hcase]
  · cases htake

theorem stepped_takeRx (hslot : plane.slot ≠ .closed) :
    Stepped plane plane.takeRx.1 .takesRx plane.takeRx.2 [] := by
  have hafter := hserved.takeRx
  unfold SystemPlane.takeRx at hafter ⊢
  split at hafter
  next request rx hcase =>
    refine stepped_reads hafter (freed_of_open hafter nofun) nofun id rfl ?_ rfl rfl rfl
    simp [spare, hcase]
  next rx hcase =>
    refine stepped_reads hafter (freed_of_open hafter nofun) nofun id rfl ?_ rfl rfl rfl
    simp [spare, hcase]
  · exact stepped_reads hafter (freed_of_open hafter hslot) hslot id rfl rfl rfl rfl rfl

theorem stepped_readChannel (hslot : plane.slot ≠ .closed) :
    Stepped plane plane.readChannel.1 .readsChannel plane.readChannel.2 [] := by
  have hafter := hserved.readChannel hslot
  by_cases hrx : plane.rxTaken = true
  · rw [SystemPlane.readChannel, if_pos hrx] at hafter ⊢
    split at hafter
    · exact stepped_reads hafter (freed_of_open hafter hslot) hslot id rfl rfl rfl rfl rfl
    · dsimp only
      split <;>
        exact stepped_reads hafter (freed_of_open hafter hslot) hslot id rfl rfl rfl rfl rfl
  · rw [SystemPlane.readChannel, if_neg hrx] at hafter ⊢
    exact stepped_reads hafter (freed_of_open hafter hslot) hslot id rfl rfl rfl rfl rfl

theorem stepped_close (hslot : plane.slot ≠ .closed) :
    Stepped plane plane.close .closing .releases [] := by
  have hafter := hserved.close hslot
  have hgone := (hserved.whole hslot).rxGone
  have htx := (hserved.whole hslot).txInHand
  unfold SystemPlane.close at hafter ⊢
  split at hafter
  next request hcase =>
    refine stepped_reads hafter (freed_of_rxGone hgone) ⟨rfl, hgone⟩ id rfl ?_ rfl rfl rfl
    simp [spare, hcase]
  next first rx hcase =>
    refine stepped_reads hafter (freed_of_rxGone hgone) ⟨rfl, hgone⟩ id rfl ?_ rfl rfl rfl
    simp [spare, hcase, htx]
  next hone hopened =>
    refine stepped_reads hafter (freed_of_rxGone hgone) ⟨rfl, hgone⟩ id rfl ?_ rfl rfl rfl
    cases hcase : plane.slot with
    | idle => simp [spare, hcase]
    | one request => exact absurd hcase (hone request)
    | opened first rx => exact absurd hcase (hopened first rx)
    | closed => exact absurd hcase hslot

theorem stepped_release (hfits : Fits plane .releases)
    (htxs : plane.txInHand = true → 0 < plane.txs) :
    Stepped plane plane.release .releases .ends [] := by
  refine stepped_reads (hserved.release hfits.1) (freed_of_rxGone hfits.2)
    ⟨hfits.1, hfits.2, rfl, rfl⟩ id rfl ?_ rfl rfl rfl
  cases htx : plane.txInHand with
  | true =>
    have := htxs htx
    simp only [SystemPlane.release, spare, htx, hfits.1, if_true, Bool.false_eq_true, if_false]
    omega
  | false => simp [SystemPlane.release, spare, htx]

theorem stepped_closeRx (hfits : Fits plane .ends) (hrx : plane.rxTaken = true) :
    Stepped plane { plane with rxClosed := true } .ends (.drains false) [] := by
  refine stepped_reads ?_ (freed_of_rxGone hfits.2.1)
    ⟨hfits.1, hfits.2.1, hfits.2.2.1, hfits.2.2.2, hrx⟩ id rfl rfl rfl rfl rfl
  exact served_of_closed hfits.1 hserved.slot hserved.channel hserved.conserved hserved.served

theorem stepped_dropOne {rest : List Nat} (hfits : Fits plane (.drains true))
    (hqueue : plane.queue = request :: rest) (hplace : place.reads = 1)
    (hown : ∀ plane : SystemPlane, Fits plane (.drains true) → Fits plane place) :
    Stepped plane { plane with queue := rest, dropped := plane.dropped ++ [request] } place place
      [] :=
  stepped_reads (hserved.dropOne hfits.1 hqueue) (freed_of_rxGone hfits.2.1) (hown _ hfits) id rfl
    rfl rfl hplace hplace

end

/-- The receiving side is left to the draining task, or to nobody. -/
theorem stepped_last (hserved : Served after) (hfreed : Freed after)
    (hopens : plane.openBit = true → after.openBit = true)
    (hlate : ∀ other ∈ entering, other = .lateDrains ∧ Fits after other)
    (hreserved : after.reserved = plane.reserved)
    (htxs : (after.txs : ℤ) - after.spare = plane.txs - plane.spare)
    (haccepted : after.accepted = plane.accepted) (hplace : place.reads = 1)
    (hmost : entering.length ≤ 1) (hover : entering = [] → Over after) :
    Stepped plane after place .gone entering where
  served := hserved
  opens := hopens
  own := trivial
  late := hlate
  permits := by
    rw [hreserved, (light_of_reads hplace).1]
    rfl
  senders := by
    rw [htxs, (light_of_reads hplace).2.1]
    rfl
  carries request := by
    rw [haccepted, (light_of_reads hplace).2.2]
    rfl
  freed := hfreed
  quiet hzero := by
    rw [hplace] at hzero
    cases hzero
  reads := by
    rw [hplace]
    simp only [PlaneParty.reads]
    omega
  ending _ hnone := by
    refine hover (List.eq_nil_of_length_eq_zero ?_)
    simp only [PlaneParty.reads] at hnone
    omega

end SystemPlane

namespace RunLoop

open SystemPlane

structure Serves (pool : Pool RunLoop PlaneParty) : Prop where
  served : Served pool.shared.plane
  fits : ∀ place ∈ pool.parties, Fits pool.shared.plane place
  permits : (pool.shared.plane.reserved : ℤ) = Pool.weigh PlaneParty.permits pool.parties
  senders : (pool.shared.plane.txs : ℤ) =
    Pool.weigh PlaneParty.senders pool.parties + pool.shared.plane.spare
  once : ∀ request, (pool.shared.plane.accepted.count request : ℤ) +
    Pool.weigh (PlaneParty.carries request) pool.parties ≤ 1
  freed : Freed pool.shared.plane
  reads : Pool.weigh PlaneParty.reads pool.parties ≤ 1
  ended : Pool.weigh PlaneParty.reads pool.parties = 0 → Over pool.shared.plane

variable {pool : Pool RunLoop PlaneParty} {state : RunLoop} {place place' : PlaneParty} {i : Nat}
  {entering : List PlaneParty} {action : PlaneAction}

theorem weigh_late {weight : PlaneParty → ℤ} (hlate : ∀ other ∈ entering, other = .lateDrains)
    (hzero : weight .lateDrains = 0) : Pool.weigh weight entering = 0 :=
  Pool.weigh_zero fun other hother => by rw [hlate other hother, hzero]

theorem weigh_reads_late (hlate : ∀ other ∈ entering, other = .lateDrains) :
    Pool.weigh PlaneParty.reads entering = entering.length := by
  induction entering with
  | nil => rfl
  | cons first rest ih =>
    rw [Pool.weigh_cons, ih fun other hother => hlate other (List.mem_cons_of_mem _ hother),
      hlate first List.mem_cons_self, List.length_cons]
    push_cast
    exact add_comm _ _

theorem Serves.reads_other (hserves : Serves pool) (hplace : pool.parties[i]? = some place)
    (hreads : place.reads = 1) {j : Nat} {other : PlaneParty} (hij : j ≠ i)
    (hother : pool.parties[j]? = some other) : other.reads = 0 := by
  have hle := Pool.weight_add_le_weigh PlaneParty.reads_nonneg hplace hother (Ne.symm hij)
  have hmost := hserves.reads
  have hpos := other.reads_nonneg
  omega

/-- The step rule: a step of one party keeps the account of all. -/
theorem Serves.step (hserves : Serves pool) (hplace : pool.parties[i]? = some place)
    (hstep : Stepped pool.shared.plane state.plane place place' entering)
    (hone : place.reads = 0 ∨ place.reads = 1) :
    Serves ⟨state, pool.parties.set i place' ++ entering⟩ := by
  have hlate (other : PlaneParty) (hother : other ∈ entering) : other = .lateDrains :=
    (hstep.late other hother).1
  have hweigh (weight : PlaneParty → ℤ) : _ := @Pool.weigh_step _ weight pool.parties entering
    place place' i hplace
  constructor
  case served => exact hstep.served
  case fits =>
    intro other hother
    obtain ⟨j, hj⟩ := List.mem_iff_getElem?.mp hother
    rcases Pool.getElem?_after hplace hj with ⟨_, rfl⟩ | ⟨hij, hold⟩ | ⟨_, hnew⟩
    · exact hstep.own
    · have hfits := hserves.fits other (List.mem_of_getElem? hold)
      rcases hone with hzero | hreader
      · exact hfits.quiet (hstep.quiet hzero).1 hstep.opens
      · exact hfits.other (hserves.reads_other hplace hreader hij hold) hstep.opens
    · exact (hstep.late other (List.mem_of_getElem? hnew)).2
  case permits =>
    have hsum := hweigh PlaneParty.permits
    rw [weigh_late hlate rfl] at hsum
    have := hserves.permits
    have := hstep.permits
    dsimp only
    omega
  case senders =>
    have hsum := hweigh PlaneParty.senders
    rw [weigh_late hlate rfl] at hsum
    have := hserves.senders
    have := hstep.senders
    dsimp only
    omega
  case once =>
    intro request
    have hsum := hweigh (PlaneParty.carries request)
    rw [weigh_late hlate rfl] at hsum
    have := hserves.once request
    have := hstep.carries request
    dsimp only
    omega
  case freed => exact hstep.freed
  case reads =>
    have hsum := hweigh PlaneParty.reads
    rw [weigh_reads_late hlate] at hsum
    have := hserves.reads
    have := hstep.reads
    dsimp only
    omega
  case ended =>
    intro hnone
    have hsum := hweigh PlaneParty.reads
    rw [weigh_reads_late hlate] at hsum
    dsimp only at hnone
    have hpos := place'.reads_nonneg
    have hall : place.reads ≤ Pool.weigh PlaneParty.reads pool.parties :=
      Pool.weight_le_weigh PlaneParty.reads_nonneg hplace
    rcases hone with hzero | hreader
    · obtain ⟨hquiet, hzero', rfl⟩ := hstep.quiet hzero
      have hover := hserves.ended (by simp only [List.length_nil] at hsum; omega)
      exact ⟨hquiet.closed.mpr hover.closed, hquiet.inHand.trans hover.inHand,
        hquiet.txInHand.trans hover.txInHand,
        fun hrx => hquiet.rxGone.trans (hover.rxGone (hquiet.rxTaken ▸ hrx))⟩
    · exact hstep.ending hreader (by omega)

theorem reads_cases (place : PlaneParty) : place.reads = 0 ∨ place.reads = 1 := by
  unfold PlaneParty.reads
  split
  · exact .inl rfl
  all_goals first | exact .inl rfl | exact .inr rfl

theorem Serves.txs_pos (hserves : Serves pool) (hplace : pool.parties[i]? = some place)
    (hsenders : place.senders = 1) : 0 < pool.shared.plane.txs := by
  have hle : place.senders ≤ Pool.weigh PlaneParty.senders pool.parties :=
    Pool.weight_le_weigh PlaneParty.senders_nonneg hplace
  have hspare : 0 ≤ pool.shared.plane.spare := by
    unfold spare
    split <;> split <;> decide
  have := hserves.senders
  omega

theorem Serves.txs_pos_of_hand (hserves : Serves pool) (htx : pool.shared.plane.txInHand = true) :
    0 < pool.shared.plane.txs := by
  have hnonneg : 0 ≤ Pool.weigh PlaneParty.senders pool.parties :=
    Pool.weigh_nonneg fun place _ => place.senders_nonneg
  have hspare : 1 ≤ pool.shared.plane.spare := by
    unfold spare
    rw [htx]
    split <;> decide
  have := hserves.senders
  omega

/-- A producer that woke the loop, or need not, goes on with what it has. -/
theorem stepped_left {plane : SystemPlane} {tx : Bool} (hserved : Served plane)
    (hfreed : Freed plane) (hfits : Fits plane (.calls tx))
    (hplace : place.permits = 0 ∧ place.senders = (PlaneParty.calls tx).senders ∧ place.reads = 0 ∧
      ∀ request, place.carries request = 0) : Stepped plane plane place (left tx) [] := by
  obtain ⟨hpermits, hsenders, hreads, hcarries⟩ := hplace
  cases tx with
  | true =>
    exact stepped_same hserved hfreed hfits hpermits.symm hsenders.symm (fun _ => (hcarries _).ge)
      hreads.symm
  | false =>
    exact stepped_same hserved hfreed trivial hpermits.symm hsenders.symm
      (fun _ => (hcarries _).ge) hreads.symm

theorem Serves.stepped (hserves : Serves pool) (hplace : pool.parties[i]? = some place)
    (hnext : next pool.shared place action = some (state, place', entering)) :
    Stepped pool.shared.plane state.plane place place' entering := by
  have hserved := hserves.served
  have hfreed := hserves.freed
  have hfits := hserves.fits place (List.mem_of_getElem? hplace)
  unfold next at hnext
  split at hnext
  case h_1 request =>
    cases hnext
    exact stepped_submit hserved hfreed
  case h_2 request =>
    obtain ⟨⟨after, place'⟩, hreserve, heq⟩ := Option.map_eq_some_iff.mp hnext
    cases heq
    exact stepped_reserve hserved hfreed hfits hreserve
  case h_3 request =>
    cases hnext
    exact stepped_same hserved hfreed hfits rfl rfl (PlaneParty.carries_nonneg · _) rfl
  case h_4 request =>
    cases hnext
    have hpermit : (PlaneParty.pushes request).permits ≤
        Pool.weigh PlaneParty.permits pool.parties :=
      Pool.weight_le_weigh PlaneParty.permits_nonneg hplace
    have hreserved := hserves.permits
    simp only [PlaneParty.permits] at hpermit
    exact stepped_push hserved hfreed hfits (hserves.txs_pos hplace rfl) (by omega)
  case h_5 =>
    cases hnext
    exact stepped_leave hserved hfreed hfits (hserves.txs_pos hplace rfl)
  case h_6 reason =>
    cases hnext
    split <;> exact stepped_same hserved hfreed trivial rfl rfl (fun _ => le_rfl) rfl
  case h_7 tx =>
    split at hnext
    · cases hnext
      cases tx with
      | true | false => exact stepped_same hserved hfreed hfits rfl rfl (fun _ => le_rfl) rfl
    · cases hnext
      cases tx with
      | true | false => exact stepped_left hserved hfreed hfits ⟨rfl, rfl, rfl, fun _ => rfl⟩
  case h_8 tx =>
    cases hnext
    exact stepped_left hserved hfreed hfits ⟨rfl, rfl, rfl, fun _ => rfl⟩
  case h_17 | h_19 | h_20 =>
    cases hnext
    split <;> exact stepped_same hserved hfreed hfits rfl rfl (fun _ => le_rfl) rfl
  case h_21 =>
    split at hnext
    next after htake =>
      cases hnext
      exact stepped_takeHeld hserved htake
    · cases hnext
      exact stepped_same hserved hfreed hfits rfl rfl (fun _ => le_rfl) rfl
  case h_22 =>
    cases hnext
    split
    · exact stepped_same hserved hfreed hfits rfl rfl (fun _ => le_rfl) rfl
    · split <;> exact stepped_same hserved hfreed hfits rfl rfl (fun _ => le_rfl) rfl
  case h_23 =>
    cases hnext
    exact stepped_takeRx hserved hfits
  case h_24 =>
    cases hnext
    exact stepped_readChannel hserved hfits
  case h_33 =>
    cases hnext
    exact stepped_close hserved hfits
  case h_34 =>
    cases hnext
    exact stepped_release hserved hfits hserves.txs_pos_of_hand
  case h_35 =>
    split at hnext
    next hrx =>
      cases hnext
      exact stepped_closeRx hserved hfits hrx
    next hrx =>
      cases hnext
      exact stepped_last hserved hfreed id nofun rfl rfl rfl rfl (Nat.zero_le _)
        fun _ => ⟨hfits.1, hfits.2.2.1, hfits.2.2.2, fun htrue => absurd htrue hrx⟩
  case h_36 late =>
    split at hnext
    next request rest hqueue =>
      cases hnext
      exact stepped_dropOne hserved hfits hqueue rfl fun _ => id
    · cases hnext
      exact stepped_same hserved hfreed hfits rfl rfl (fun _ => le_rfl) rfl
  case h_37 =>
    split at hnext
    · cases hnext
      refine stepped_last hserved hfreed id ?_ rfl rfl rfl rfl (Nat.le_refl _) nofun
      intro other hother
      rw [List.mem_singleton.mp hother]
      exact ⟨rfl, hfits⟩
    · cases hnext
  case h_38 =>
    split at hnext
    next request rest hqueue =>
      cases hnext
      exact stepped_dropOne hserved hfits hqueue rfl fun _ => id
    · cases hnext
  case h_40 =>
    cases hnext
    refine stepped_last (hserved.dropRx hfits.1) ?_ id nofun rfl rfl rfl rfl (Nat.zero_le _) ?_
    · exact fun _ => ⟨hfits.2.2.2.1, fun hqueue => absurd rfl hqueue⟩
    · exact fun _ => ⟨hfits.1, hfits.2.2.1, hfits.2.2.2.1, fun _ => rfl⟩
  case h_41 => cases hnext
  -- The loop goes on to its next read and leaves the plane alone.
  all_goals
    cases hnext
    exact stepped_same hserved hfreed hfits rfl rfl (fun _ => le_rfl) rfl

/-! ## Every interleaving -/

variable {requests : Nat} {reasons : List StopReason}

theorem weigh_carries_range (request : Nat) :
    Pool.weigh (PlaneParty.carries request) ((List.range requests).map .submits) ≤ 1 := by
  have hcount : Pool.weigh (PlaneParty.carries request) ((List.range requests).map .submits) =
      (List.range requests).count request := by
    rw [Pool.weigh_map, List.count, ← Pool.weigh_countP]
    refine Pool.weigh_congr fun other _ => ?_
    simp [PlaneParty.carries]
  have hnodup : (List.range requests).Nodup := List.nodup_range
  have hle := List.nodup_iff_count_le_one.mp hnodup request
  omega

theorem weigh_start {weight : PlaneParty → ℤ} (hruns : weight .runs = 0)
    (hsubmits : ∀ request, weight (.submits request) = 0)
    (hraises : ∀ reason, weight (.raises reason) = 0) :
    Pool.weigh weight (start requests reasons).parties = 0 := by
  refine Pool.weigh_zero fun place hplace => ?_
  rcases List.mem_cons.mp hplace with rfl | hplace
  · exact hruns
  · rcases List.mem_append.mp hplace with hplace | hplace
    · obtain ⟨request, _, rfl⟩ := List.mem_map.mp hplace
      exact hsubmits request
    · obtain ⟨reason, _, rfl⟩ := List.mem_map.mp hplace
      exact hraises reason

theorem serves_start : Serves (start requests reasons) := by
  have hraises (weight : PlaneParty → ℤ) (hzero : ∀ reason, weight (.raises reason) = 0) :
      Pool.weigh weight (reasons.map .raises) = 0 := by
    rw [Pool.weigh_map]
    exact Pool.weigh_zero fun reason _ => hzero reason
  have hsubmits : Pool.weigh PlaneParty.reads ((List.range requests).map .submits) = 0 := by
    rw [Pool.weigh_map]
    exact Pool.weigh_zero fun _ _ => rfl
  constructor
  case served => exact served_new
  case fits =>
    intro place hplace
    rcases List.mem_cons.mp hplace with rfl | hplace
    · exact nofun
    · rcases List.mem_append.mp hplace with hplace | hplace
      · obtain ⟨request, _, rfl⟩ := List.mem_map.mp hplace
        trivial
      · obtain ⟨reason, _, rfl⟩ := List.mem_map.mp hplace
        trivial
  case permits => exact (weigh_start rfl (fun _ => rfl) fun _ => rfl).symm
  case senders =>
    rw [weigh_start rfl (fun _ => rfl) fun _ => rfl]
    rfl
  case once =>
    intro request
    have hmost : _ := @weigh_carries_range requests request
    simp only [start, Pool.weigh_cons, Pool.weigh_append, List.count_nil,
      hraises (PlaneParty.carries request) fun _ => rfl, PlaneParty.carries]
    omega
  case freed => exact nofun
  case reads | ended =>
    simp only [start, Pool.weigh_cons, Pool.weigh_append, hsubmits,
      hraises PlaneParty.reads fun _ => rfl, PlaneParty.reads]
    omega

/-- The run rule: the account holds after every interleaving. -/
theorem Reached.serves (hreach : Reached requests reasons pool) : Serves pool :=
  Pool.invariant serves_start (fun _ _ _ _ _ _ _ hserves _ hplace hnext =>
    hserves.step hplace (hserves.stepped hplace hnext) (reads_cases _)) hreach

theorem Serves.nodup (hserves : Serves pool) : pool.shared.plane.accepted.Nodup := by
  refine List.nodup_iff_count_le_one.mpr fun request => ?_
  have hnonneg : 0 ≤ Pool.weigh (PlaneParty.carries request) pool.parties :=
    Pool.weigh_nonneg fun place _ => place.carries_nonneg request
  have := hserves.once request
  omega

end RunLoop

end TokioActors
