/-
# The requests of the system plane

A request is accepted when it is written into the slot or pushed into the channel.
The accepted requests are those that were taken, in order, followed by those that
are pending, in order, as long as the plane is not closed; the held request is
older than everything in the channel, and the poll that takes the receiver hands
it out first. The end of the plane drops what is pending, and a request that is
pushed through a permit given before the close is dropped by whoever has the
receiver, or with the last sending half.
-/

import TokioActors.Plane.Machine

namespace TokioActors

def SystemSlot.held : SystemSlot → List Nat
  | .one request => [request]
  | .opened first _ => first.toList
  | .idle | .closed => []

namespace SystemPlane

/-- The accepted requests that were neither taken nor dropped. -/
def pending (plane : SystemPlane) : List Nat := plane.inHand ++ plane.slot.held ++ plane.queue

/-- The bits, the receiver and the channel follow the slot. -/
def SlotFits (plane : SystemPlane) : Prop :=
  match plane.slot with
  | .idle => plane.heldBit = false ∧ plane.openBit = false
  | .one _ => plane.heldBit = true ∧ plane.openBit = false
  | .opened first rx => plane.heldBit = first.isSome ∧ plane.openBit = true ∧
      plane.rxTaken = !rx ∧ (rx = false → first = none)
  | .closed => plane.openBit = true → plane.rxTaken = true

structure Whole (plane : SystemPlane) : Prop where
  dropped : plane.dropped = []
  inHand : plane.inHand = []
  txInHand : plane.txInHand = false
  rxClosed : plane.rxClosed = false
  rxGone : plane.rxGone = false
  refused : plane.refused = []

structure Served (plane : SystemPlane) : Prop where
  slot : plane.SlotFits
  /-- Before the first switch there is no channel. -/
  channel : plane.openBit = false →
    plane.queue = [] ∧ plane.txs = 0 ∧ plane.reserved = 0 ∧ plane.rxTaken = false
  inOrder : plane.slot ≠ .closed →
    plane.accepted = plane.taken ++ (plane.slot.held ++ plane.queue)
  whole : plane.slot ≠ .closed → plane.Whole
  conserved : plane.accepted.Perm (plane.taken ++ (plane.dropped ++ plane.pending))
  served : plane.taken <+: plane.accepted

variable {plane after : SystemPlane} {request : Nat} {place : PlaneParty}

theorem served_of_open (hslot : plane.SlotFits) (hchannel : plane.openBit = false →
      plane.queue = [] ∧ plane.txs = 0 ∧ plane.reserved = 0 ∧ plane.rxTaken = false)
    (haccepted : plane.accepted = plane.taken ++ (plane.slot.held ++ plane.queue))
    (hwhole : plane.Whole) : Served plane where
  slot := hslot
  channel := hchannel
  inOrder _ := haccepted
  whole _ := hwhole
  conserved := by
    rw [hwhole.dropped, pending, hwhole.inHand, haccepted]
    simp
  served := haccepted ▸ List.prefix_append _ _

theorem served_new : Served {} :=
  served_of_open ⟨rfl, rfl⟩ (fun _ => ⟨rfl, rfl, rfl, rfl⟩) rfl ⟨rfl, rfl, rfl, rfl, rfl, rfl⟩

theorem served_of_closed (hslot : plane.slot = .closed) (hfits : plane.SlotFits)
    (hchannel : plane.openBit = false →
      plane.queue = [] ∧ plane.txs = 0 ∧ plane.reserved = 0 ∧ plane.rxTaken = false)
    (hconserved : plane.accepted.Perm (plane.taken ++ (plane.dropped ++ plane.pending)))
    (hserved : plane.taken <+: plane.accepted) : Served plane where
  slot := hfits
  channel := hchannel
  inOrder hopen := absurd hslot hopen
  whole hopen := absurd hslot hopen
  conserved := hconserved
  served := hserved

/-! ## What a requester does -/

variable (hserved : Served plane)

include hserved

theorem Served.submit : Served (plane.submit request).1 := by
  have hfits := hserved.slot
  have horder := hserved.inOrder
  have hwhole := hserved.whole
  unfold SystemPlane.submit
  split
  next hslot =>
    exact served_of_closed hslot (by simpa only [SlotFits, hslot] using hfits) hserved.channel
      hserved.conserved hserved.served
  next hslot =>
    rw [hslot] at horder hwhole
    simp only [SlotFits, hslot] at hfits
    obtain ⟨hqueue, _⟩ := hserved.channel hfits.2
    refine served_of_open ⟨rfl, hfits.2⟩ hserved.channel ?_ ?_
    · rw [horder nofun]
      simp [SystemSlot.held, hqueue]
    · exact { hwhole nofun with }
  next first hslot =>
    rw [hslot] at horder hwhole
    simp only [SlotFits, hslot] at hfits
    obtain ⟨hqueue, _, _, hrx⟩ := hserved.channel hfits.2
    refine served_of_open ⟨hfits.1, rfl, hrx, nofun⟩ nofun ?_ { hwhole nofun with }
    rw [horder nofun]
    rfl
  next first rx hslot =>
    rw [hslot] at horder hwhole
    simp only [SlotFits, hslot] at hfits
    refine served_of_open ?_ ?_ ?_ { hwhole nofun with }
    · simp only [SlotFits, hslot]
      exact hfits
    · intro hopen
      exact absurd (hfits.2.1.symm.trans hopen) (by decide)
    · rw [hslot]
      exact horder nofun

theorem Served.closed_of_rxClosed (hclosed : plane.rxClosed = true) : plane.slot = .closed := by
  by_contra hopen
  exact Bool.false_ne_true ((hserved.whole hopen).rxClosed.symm.trans hclosed)

theorem Served.closed_of_rxGone (hgone : plane.rxGone = true) : plane.slot = .closed := by
  by_contra hopen
  exact Bool.false_ne_true ((hserved.whole hopen).rxGone.symm.trans hgone)

/-- The counts of a channel that exists have no part in the account. -/
theorem Served.recount (hopen : plane.openBit = true) (txs reserved : Nat) :
    Served { plane with txs := txs, reserved := reserved } where
  slot := hserved.slot
  channel hclosed := absurd (hopen.symm.trans hclosed) (by decide)
  inOrder := hserved.inOrder
  whole hslot := { hserved.whole hslot with }
  conserved := hserved.conserved
  served := hserved.served

theorem Served.reserve (hopen : plane.openBit = true)
    (hreserve : plane.reserve request = some (after, place)) : Served after := by
  unfold SystemPlane.reserve at hreserve
  split at hreserve
  next hclosed =>
    cases hreserve
    exact served_of_closed (hserved.closed_of_rxClosed hclosed) hserved.slot hserved.channel
      hserved.conserved hserved.served
  · split at hreserve
    · cases hreserve
      exact hserved.recount hopen plane.txs _
    · cases hreserve

theorem Served.push (hopen : plane.openBit = true) : Served (plane.push request) := by
  by_cases hslot : plane.slot = .closed
  · refine served_of_closed hslot hserved.slot
      (fun hclosed => absurd (hopen.symm.trans hclosed) (by decide)) ?_ ?_
    · have hconserved := hserved.conserved.append_right [request]
      simp only [pending, List.append_assoc] at hconserved ⊢
      exact hconserved
    · exact hserved.served.trans (List.prefix_append _ _)
  · refine served_of_open hserved.slot (fun hclosed => absurd (hopen.symm.trans hclosed)
      (by decide))
      ?_ { hserved.whole hslot with }
    simp [SystemPlane.push, hserved.inOrder hslot]

theorem Served.receiver (hslot : plane.slot = .closed) :
    plane.openBit = true → plane.rxTaken = true := by
  have hfits := hserved.slot
  simpa only [SlotFits, hslot] using hfits

/-- A closed plane drops: what leaves the pending requests is among the dropped ones. -/
theorem Served.drops (hslot : after.slot = .closed)
    (hfits : after.openBit = true → after.rxTaken = true)
    (haccepted : after.accepted = plane.accepted) (htaken : after.taken = plane.taken)
    (hdropped : (plane.dropped ++ plane.pending).Perm (after.dropped ++ after.pending))
    (hchannel : after.openBit = false →
      after.queue = [] ∧ after.txs = 0 ∧ after.reserved = 0 ∧ after.rxTaken = false) :
    Served after := by
  refine served_of_closed hslot (by simpa only [SlotFits, hslot] using hfits) hchannel ?_ ?_
  · rw [haccepted, htaken]
    exact hserved.conserved.trans (hdropped.append_left _)
  · rw [haccepted, htaken]
    exact hserved.served

theorem Served.leave (hopen : plane.openBit = true) : Served plane.leave := by
  unfold SystemPlane.leave
  split
  next hlast =>
    have hslot := hserved.closed_of_rxGone hlast.2
    refine hserved.drops hslot (hserved.receiver hslot) rfl rfl ?_
      fun hclosed => absurd (hopen.symm.trans hclosed) (by decide)
    simp only [pending, List.append_nil, List.append_assoc]
    refine (List.Perm.append_left _ ?_)
    rw [← List.append_assoc]
    exact List.perm_append_comm
  · exact hserved.recount hopen _ plane.reserved

/-! ## What the run loop takes -/

theorem Served.takeHeld (htake : plane.takeHeld = some after) : Served after := by
  have hfits := hserved.slot
  have horder := hserved.inOrder
  have hwhole := hserved.whole
  unfold SystemPlane.takeHeld at htake
  split at htake
  next request hslot =>
    cases htake
    rw [hslot] at horder hwhole
    simp only [SlotFits, hslot] at hfits
    refine served_of_open ⟨rfl, hfits.2⟩ hserved.channel ?_ { hwhole nofun with }
    simp [horder nofun, SystemSlot.held]
  next request rx hslot =>
    cases htake
    rw [hslot] at horder hwhole
    simp only [SlotFits, hslot] at hfits
    refine served_of_open ⟨rfl, hfits.2.1, hfits.2.2.1, fun _ => rfl⟩ hserved.channel ?_
      { hwhole nofun with }
    simp [horder nofun, SystemSlot.held]
  · cases htake

theorem Served.takeRx : Served plane.takeRx.1 := by
  have hfits := hserved.slot
  have horder := hserved.inOrder
  have hwhole := hserved.whole
  unfold SystemPlane.takeRx
  split
  next request rx hslot =>
    rw [hslot] at horder hwhole
    simp only [SlotFits, hslot] at hfits
    obtain ⟨_, hopen, hrx, _⟩ := hfits
    refine served_of_open ⟨rfl, hopen, ?_, fun _ => rfl⟩
      (fun hclosed => absurd (hopen.symm.trans hclosed) (by decide)) ?_ { hwhole nofun with }
    · simp [hrx]
    · simp [horder nofun, SystemSlot.held]
  next rx hslot =>
    rw [hslot] at horder hwhole
    simp only [SlotFits, hslot] at hfits
    obtain ⟨hheld, hopen, hrx, _⟩ := hfits
    refine served_of_open ⟨hheld, hopen, ?_, fun _ => rfl⟩
      (fun hclosed => absurd (hopen.symm.trans hclosed) (by decide)) ?_ { hwhole nofun with }
    · simp [hrx]
    · simp [horder nofun, SystemSlot.held]
  · exact hserved

/-- While the plane is open, a receiver that is taken has nothing before it. -/
theorem Served.held_of_rxTaken (hslot : plane.slot ≠ .closed)
    (hrx : plane.rxTaken = true) : plane.slot = .opened none false := by
  have hfits := hserved.slot
  cases hcase : plane.slot with
  | closed => exact absurd hcase hslot
  | idle | one =>
    simp only [SlotFits, hcase] at hfits
    exact absurd ((hserved.channel hfits.2).2.2.2.symm.trans hrx) (by decide)
  | opened first rx =>
    simp only [SlotFits, hcase] at hfits
    obtain ⟨_, _, hrx', hfirst⟩ := hfits
    obtain rfl : rx = false := by simpa [hrx] using hrx'
    rw [hfirst rfl]

theorem Served.readChannel (hslot : plane.slot ≠ .closed) : Served plane.readChannel.1 := by
  unfold SystemPlane.readChannel
  split
  next hrx =>
    have hopened := hserved.held_of_rxTaken hslot hrx
    split
    next request rest hqueue =>
      have horder := hserved.inOrder hslot
      have hopen : plane.openBit = true := by
        have hfits := hserved.slot
        simp only [SlotFits, hopened] at hfits
        exact hfits.2.1
      refine served_of_open ?_ (fun hclosed => absurd (hopen.symm.trans hclosed) (by decide)) ?_
        { hserved.whole hslot with }
      · exact hserved.slot
      · simp [horder, hopened, SystemSlot.held, hqueue]
    · exact hserved
  · exact hserved

/-! ## What the end of the plane does -/

theorem Served.close (hslot : plane.slot ≠ .closed) : Served plane.close := by
  have hfits := hserved.slot
  have hhand := (hserved.whole hslot).inHand
  unfold SystemPlane.close
  split
  next request hcase =>
    simp only [SlotFits, hcase] at hfits
    refine hserved.drops rfl (fun hopen => absurd (hopen.symm.trans hfits.2) (by decide)) rfl rfl
      ?_ hserved.channel
    simp [pending, hcase, SystemSlot.held, hhand]
  next first rx hcase =>
    simp only [SlotFits, hcase] at hfits
    refine hserved.drops rfl (fun _ => by simp [hfits.2.2.1]) rfl rfl ?_
      fun hclosed => absurd (hfits.2.1.symm.trans hclosed) (by decide)
    simp [pending, hcase, SystemSlot.held, hhand]
  next hone hopened =>
    cases hcase : plane.slot with
    | idle =>
      simp only [SlotFits, hcase] at hfits
      refine hserved.drops rfl (fun hopen => absurd (hopen.symm.trans hfits.2) (by decide)) rfl
        rfl ?_ hserved.channel
      simp [pending, hcase, SystemSlot.held]
    | one request => exact absurd hcase (hone request)
    | opened first rx => exact absurd hcase (hopened first rx)
    | closed => exact absurd hcase hslot

theorem Served.release (hslot : plane.slot = .closed) : Served plane.release := by
  refine hserved.drops hslot (hserved.receiver hslot) rfl rfl ?_ ?_
  · simp [SystemPlane.release, pending]
  · intro hclosed
    obtain ⟨hqueue, htxs, hreserved, hrx⟩ := hserved.channel hclosed
    exact ⟨hqueue, by simp [SystemPlane.release, htxs], hreserved, hrx⟩

theorem Served.dropOne {rest : List Nat} (hslot : plane.slot = .closed)
    (hqueue : plane.queue = request :: rest) :
    Served { plane with queue := rest, dropped := plane.dropped ++ [request] } := by
  refine hserved.drops hslot (hserved.receiver hslot) rfl rfl ?_ fun hclosed => ?_
  · simp only [pending, hqueue, List.append_assoc, List.singleton_append]
    refine List.Perm.append_left _ ?_
    rw [← List.append_assoc, ← List.append_assoc]
    exact List.perm_middle
  · have := (hserved.channel hclosed).1
    rw [hqueue] at this
    cases this

theorem Served.dropRx (hslot : plane.slot = .closed) : Served plane.dropRx := by
  refine hserved.drops hslot (hserved.receiver hslot) rfl rfl ?_
    fun hclosed => ⟨rfl, (hserved.channel hclosed).2⟩
  simp only [SystemPlane.dropRx, pending, List.append_nil, List.append_assoc]
  refine List.Perm.append_left _ ?_
  rw [← List.append_assoc]
  exact List.perm_append_comm

end SystemPlane

end TokioActors
