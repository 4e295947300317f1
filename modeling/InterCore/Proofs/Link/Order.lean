import InterCore.Proofs.Link.Effects

/-!
# Rings in order

A link is in order if the ends of both rings agree on where the rings are and how much was offered,
and if the outgoing buffers that were offered exist and are apart from the rings. Nothing that the
firmware does disturbs that, and nothing that the peer does as long as it keeps to `Orderly`
(`Step.inOrder`). What waits in the incoming ring then changes only by offers and by taking
(`Step.incoming`).
-/

namespace InterCore.Link

open InterCore.Packet (Header maxLen)
open InterCore.Ring

namespace Cores

variable {c c' : Cores} {act : Act} {idx : UInt16}

/-- The packets that wait in the incoming ring. -/
def incoming (c : Cores) : List UInt16 :=
  c.rx.layout.offered c.memory c.rx.tail

/-- The buffers that wait in the outgoing ring. -/
def outgoing (c : Cores) : List UInt16 :=
  c.tx.layout.offered c.memory c.tx.tail

/-- Both rings are sound and apart, and the buffers on offer for outgoing packets are of the
ring. -/
structure InOrder (c : Cores) : Prop where
  tx : c.txEnds.Sound
  rx : c.rxEnds.Sound
  separate : c.Separate
  inRing : ∀ idx ∈ c.outgoing, idx.toNat < c.tx.layout.num.toNat

/-- The peer offers only buffers of the ring, and otherwise writes into neither ring. -/
def Orderly (c : Cores) : Act → Prop
  | .offeredTx idx => idx.toNat < c.tx.layout.num.toNat
  | .wrote addr bytes =>
    Event.Misses c.tx.layout.span.start c.tx.layout.span.stop (.write addr bytes) ∧
      Event.Misses c.rx.layout.span.start c.rx.layout.span.stop (.write addr bytes)
  | _ => True

theorem InOrder.placed (h : c.InOrder) : c.Placed := by
  have txOne : c.tx.layout = c.txDriver.layout := h.tx.oneRing
  have rxOne : c.rx.layout = c.rxDriver.layout := h.rx.oneRing
  exact ⟨txOne, rxOne, txOne ▸ h.tx.within, rxOne ▸ h.rx.within⟩

/-- The firmware takes the next buffer, which is one of the ring. -/
theorem InOrder.lt_of_next (h : c.InOrder) (next : c.tx.next? c.memory = some idx) :
    idx.toNat < c.tx.layout.num.toNat :=
  h.inRing idx (List.mem_of_mem_head? next)

/-- The outgoing buffers stay where they are. -/
theorem Step.txBuffer_eq (h : Step c act c') (order : c.InOrder) (orderly : c.Orderly act)
    (inRing : idx.toNat < c.tx.layout.num.toNat) : c'.txBuffer idx = c.txBuffer idx := by
  have placed := order.placed
  have bounds := Layout.descriptor_bounds inRing
  have areas := c.tx.layout.avail_add_le_used
  have stop := c.tx.layout.ringEnd_eq
  have within : c.tx.layout.span.start ≤ c.tx.layout.descriptorAddr idx ∧
      c.tx.layout.descriptorAddr idx + 12 ≤ c.tx.layout.span.stop := by
    simp only [Layout.span]
    omega
  have elsewhere (spares : act.Spares c c.tx.layout.span) :
      c.tx.layout.buffer c'.memory idx = c.tx.layout.buffer c.memory idx :=
    Layout.buffer_agree ((h.agreeOn placed spares).mono within.1 within.2)
  cases h with
  | skipped next short => exact Device.buffer_handBack placed.txWithin inRing
  | @sent idx' msg next roomy fits =>
    have apart := (order.separate.fromTx idx' (order.lt_of_next next)).symm
    have within' : c.tx.layout.Within (c.memory.after (fillEvents c.tx c.memory idx' msg)) :=
      placed.txWithin.replay _
    unfold txBuffer
    dsimp only
    rw [sendEvents, Memory.after_append]
    exact (Device.buffer_handBack within' inRing).trans
      (Layout.buffer_agree ((agreeOn_fill roomy fits apart).mono within.1 within.2))
  | offeredTx idx' =>
    unfold txBuffer
    dsimp only
    rw [placed.txOne] at inRing ⊢
    exact Driver.buffer_offer placed.txDriver_within inRing
  | returned idx' => exact elsewhere order.separate.rings
  | offeredRx idx' =>
    have rings := order.separate.rings
    rw [placed.rxOne] at rings
    exact elsewhere rings
  | wrote fits => exact elsewhere orderly.1
  | _ => rfl

/-- Only an offer changes what the available ring of the outgoing direction says. -/
theorem Step.agreeOn_txAvail (h : Step c act c') (order : c.InOrder) (orderly : c.Orderly act)
    (quiet : ∀ idx, act ≠ .offeredTx idx) :
    c.memory.AgreeOn c'.memory c.tx.layout.avail c.tx.layout.used := by
  have placed := order.placed
  have avail := c.tx.layout.avail_eq
  have stop := c.tx.layout.ringEnd_eq
  have within : c.tx.layout.span.start ≤ c.tx.layout.avail ∧
      c.tx.layout.used ≤ c.tx.layout.span.stop := by
    simp only [Layout.span]
    omega
  have elsewhere (spares : act.Spares c c.tx.layout.span) :=
    (h.agreeOn placed spares).mono within.1 within.2
  cases h with
  | skipped next short => exact Device.agreeOn_handBack_avail placed.txWithin
  | @sent idx' msg next roomy fits =>
    have apart := (order.separate.fromTx idx' (order.lt_of_next next)).symm
    have within' : c.tx.layout.Within (c.memory.after (fillEvents c.tx c.memory idx' msg)) :=
      placed.txWithin.replay _
    dsimp only
    rw [sendEvents, Memory.after_append]
    exact ((agreeOn_fill roomy fits apart).mono within.1 within.2).trans
      (Device.agreeOn_handBack_avail within')
  | offeredTx idx' => exact absurd rfl (quiet idx')
  | returned idx' => exact elsewhere order.separate.rings
  | offeredRx idx' =>
    have rings := order.separate.rings
    rw [placed.rxOne] at rings
    exact elsewhere rings
  | wrote fits => exact elsewhere orderly.1
  | _ => exact fun _ _ _ => rfl

/-- Only an offer changes what the available ring of the incoming direction says. -/
theorem Step.agreeOn_rxAvail (h : Step c act c') (order : c.InOrder) (orderly : c.Orderly act)
    (quiet : ∀ idx, act ≠ .offeredRx idx) :
    c.memory.AgreeOn c'.memory c.rx.layout.avail c.rx.layout.used := by
  have placed := order.placed
  have avail := c.rx.layout.avail_eq
  have stop := c.rx.layout.ringEnd_eq
  have rings := order.separate.rings.symm
  have elsewhere (spares : act.Spares c c.rx.layout.span) :
      c.memory.AgreeOn c'.memory c.rx.layout.avail c.rx.layout.used :=
    (h.agreeOn placed spares).mono (by simp only [Layout.span]; omega)
      (by simp only [Layout.span]; omega)
  cases h with
  | skipped next short => exact elsewhere rings
  | @sent idx' msg next roomy fits =>
    exact elsewhere ⟨rings, (order.separate.fromRx idx' (order.lt_of_next next)).symm⟩
  | returned idx' => exact Device.agreeOn_handBack_avail placed.rxWithin
  | offeredTx idx' =>
    rw [placed.txOne] at rings
    exact elsewhere rings
  | offeredRx idx' => exact absurd rfl (quiet idx')
  | wrote fits => exact elsewhere orderly.2
  | _ => exact fun _ _ _ => rfl

/-- Taking a buffer leaves those behind it. -/
theorem Step.outgoing_subset (h : Step c act c') (order : c.InOrder) (orderly : c.Orderly act)
    (quiet : ∀ idx, act ≠ .offeredTx idx) : c'.outgoing ⊆ c.outgoing := by
  have same : c.tx.layout.offered c'.memory = c.tx.layout.offered c.memory :=
    funext fun _ => Layout.offered_agree (h.agreeOn_txAvail order orderly quiet)
  have taken {idx : UInt16} (next : c.tx.next? c.memory = some idx) :
      c.tx.layout.offered c'.memory c.tx.advance.tail ⊆ c.outgoing := by
    rw [same, outgoing, Device.offered_of_next? next]
    exact List.subset_cons_self _ _
  cases h with
  | skipped next short => exact taken next
  | sent next roomy fits => exact taken next
  | offeredTx idx => exact absurd rfl (quiet idx)
  | _ =>
    unfold outgoing
    dsimp only at same ⊢
    rw [same]
    exact List.Subset.refl _

/-- An offer adds at most its own buffer to those that wait. -/
theorem Step.mem_outgoing {i : UInt16} (h : Step c (.offeredTx idx) c') (order : c.InOrder)
    (mem : i ∈ c'.outgoing) : i = idx ∨ i ∈ c.outgoing := by
  have placed := order.placed
  cases h with
  | offeredTx =>
    unfold outgoing at mem ⊢
    dsimp only at mem
    rw [placed.txOne] at mem ⊢
    exact Driver.mem_offered_offer placed.txDriver_within order.tx.head mem

theorem Step.tx_sound (h : Step c act c') (order : c.InOrder) (orderly : c.Orderly act) :
    c'.txEnds.Sound := by
  by_cases quiet : ∀ idx, act ≠ .offeredTx idx
  · have agree := h.agreeOn_txAvail order orderly quiet
    rw [order.placed.txOne] at agree
    have same := h.sameRings
    refine order.tx.of_avail same.txDriver ?_ same.tx ((same.within _).mpr order.tx.within) agree
    cases h with
    | offeredTx idx => exact absurd rfl (quiet idx)
    | _ => rfl
  · push Not at quiet
    obtain ⟨idx, rfl⟩ := quiet
    cases h with
    | offeredTx => exact order.tx.of_offer

theorem Step.rx_sound (h : Step c act c') (order : c.InOrder) (orderly : c.Orderly act) :
    c'.rxEnds.Sound := by
  by_cases quiet : ∀ idx, act ≠ .offeredRx idx
  · have agree := h.agreeOn_rxAvail order orderly quiet
    rw [order.placed.rxOne] at agree
    have same := h.sameRings
    refine order.rx.of_avail same.rxDriver ?_ same.rx ((same.within _).mpr order.rx.within) agree
    cases h with
    | offeredRx idx => exact absurd rfl (quiet idx)
    | _ => rfl
  · push Not at quiet
    obtain ⟨idx, rfl⟩ := quiet
    cases h with
    | offeredRx => exact order.rx.of_offer

/-- Order is kept. -/
theorem Step.inOrder (h : Step c act c') (order : c.InOrder) (orderly : c.Orderly act) :
    c'.InOrder := by
  have same := h.sameRings
  have buffers {i : UInt16} (inRing : i.toNat < c'.tx.layout.num.toNat) :
      i.toNat < c.tx.layout.num.toNat ∧ c'.txBuffer i = c.txBuffer i := by
    rw [same.tx] at inRing
    exact ⟨inRing, h.txBuffer_eq order orderly inRing⟩
  refine ⟨h.tx_sound order orderly, h.rx_sound order orderly, ⟨?_, ?_, ?_⟩, ?_⟩
  · rw [same.tx, same.rx]
    exact order.separate.rings
  · intro i inRing
    obtain ⟨inRing, buffer⟩ := buffers inRing
    rw [buffer, same.tx]
    exact order.separate.fromTx i inRing
  · intro i inRing
    obtain ⟨inRing, buffer⟩ := buffers inRing
    rw [buffer, same.rx]
    exact order.separate.fromRx i inRing
  · intro idx mem
    rw [same.tx]
    by_cases quiet : ∀ idx, act ≠ .offeredTx idx
    · exact order.inRing idx (h.outgoing_subset order orderly quiet mem)
    · push Not at quiet
      obtain ⟨new, rfl⟩ := quiet
      rcases h.mem_outgoing order mem with rfl | old
      · exact orderly
      · exact order.inRing idx old

/-! ## What waits in the incoming ring -/

/-- Unless the peer offers a packet, the firmware takes the first of those that wait or none. -/
theorem Step.incoming_eq (h : Step c act c') (order : c.InOrder) (orderly : c.Orderly act)
    (quiet : ∀ idx, act ≠ .offeredRx idx) : c.incoming = act.taken.toList ++ c'.incoming := by
  have same : c.rx.layout.offered c'.memory = c.rx.layout.offered c.memory :=
    funext fun _ => Layout.offered_agree (h.agreeOn_rxAvail order orderly quiet)
  have took {idx : UInt16} (next : c.rx.next? c.memory = some idx) :
      c.incoming = [idx] ++ c.rx.layout.offered c'.memory c.rx.advance.tail := by
    rw [same]
    exact Device.offered_of_next? next
  cases h with
  | woke kick next => exact took next
  | took next => exact took next
  | offeredRx idx => exact absurd rfl (quiet idx)
  | _ =>
    unfold incoming
    dsimp only at same ⊢
    rw [same]
    rfl

/-- An offer adds at most one packet to those that wait. -/
theorem Step.length_incoming_le (h : Step c (.offeredRx idx) c') (order : c.InOrder) :
    c'.incoming.length ≤ c.incoming.length + 1 := by
  have placed := order.placed
  cases h with
  | offeredRx =>
    unfold incoming
    dsimp only
    rw [placed.rxOne]
    exact Driver.length_offered_offer_le placed.rxDriver_within order.rx.head

/-- An offer for which there is room adds its packet behind those that wait. -/
theorem Step.incoming_offered (h : Step c (.offeredRx idx) c') (order : c.InOrder)
    (room : c.incoming.length < c.rx.layout.num.toNat) : c'.incoming = c.incoming ++ [idx] := by
  have placed := order.placed
  cases h with
  | offeredRx =>
    unfold incoming at room ⊢
    dsimp only
    rw [placed.rxOne] at room ⊢
    have offered := (@Ends.Sound.offering c.memory c.rxDriver c.rx idx order.rx room).2
    exact congrArg Queues.offered offered

/-- An offer of an outgoing buffer for which there is room goes to the end of the queue. -/
theorem Step.txQueues_offered (h : Step c (.offeredTx idx) c') (sound : c.txEnds.Sound)
    (room : c.txEnds.queues.offered.length < c.txDriver.layout.num.toNat) :
    c'.txEnds.Sound ∧ c'.txEnds.queues =
      ⟨c.txEnds.queues.offered ++ [idx], c.txEnds.queues.returned⟩ := by
  cases h
  exact Ends.Sound.offering sound room

/-- An index cannot run further ahead of another. -/
theorem length_incoming_lt (c : Cores) : c.incoming.length < UInt16.size :=
  c.rx.layout.length_offered_lt _ _

end Cores

end InterCore.Link
