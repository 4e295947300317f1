import InterCore.Proofs.Link.Order

/-!
# Packets that wait

Where every packet that waits stands in a readable buffer of the ring, apart from all that the
firmware writes, the packets are still the same when their turn comes. `Usable` says that a link is
so, `Keeps` that it still is and that packets were at most added, behind those that waited. Whatever
the firmware does except taking a packet keeps them (`Path.keeps`), while the peer might write into
the buffers of some.
-/

namespace InterCore.Ring

open InterCore.Packet (Header)

/-- Both parts of a packet in a buffer lie within the memory, unless the buffer has no room for a
header. -/
def Buffer.Reachable (b : Buffer) (m : Memory) : Prop :=
  Header.size ≤ b.capacity → m.Covers b.addr.toNat Header.size ∧
    m.Covers (b.addr.toNat + Header.size) (b.capacity - Header.size)

end InterCore.Ring

namespace InterCore.Link

open InterCore.Packet (Header maxLen)
open InterCore.Ring

namespace Cores

variable {c c' c'' : Cores} {act : Act} {acts : List Act} {idx : UInt16}
  {left : UInt16 → Prop} {added added' : List UInt16}

/-- The incoming buffer of a descriptor. -/
def rxBuffer (c : Cores) (idx : UInt16) : Buffer :=
  c.rx.layout.buffer c.memory idx

/-- An incoming buffer is one of the ring, can be read, and is apart from all that the firmware
writes. -/
structure Readable (c : Cores) (idx : UInt16) : Prop where
  inRing : idx.toNat < c.rx.layout.num.toNat
  reachable : (c.rxBuffer idx).Reachable c.memory
  fromTx : (c.rxBuffer idx).span.Apart c.tx.layout.span
  fromRx : (c.rxBuffer idx).span.Apart c.rx.layout.span
  fromBuffers : ∀ i : UInt16, i.toNat < c.tx.layout.num.toNat →
    (c.rxBuffer idx).span.Apart (c.txBuffer i).span

/-- A link in order in which every buffer that waits can be used. -/
structure Usable (c : Cores) : Prop where
  order : c.InOrder
  outgoing : ∀ idx ∈ c.outgoing, (c.txBuffer idx).Reachable c.memory
  incoming : ∀ idx ∈ c.incoming, c.Readable idx

/-- The buffer of a descriptor is where it was, with the same bytes in it. -/
structure SamePacket (c c' : Cores) (idx : UInt16) : Prop where
  buffer : c'.rxBuffer idx = c.rxBuffer idx
  bytes : c.memory.AgreeOn c'.memory (c.rxBuffer idx).span.start (c.rxBuffer idx).span.stop

/-- From one state of a link to another packets were at most added behind those that waited, and
those in the buffers that are left alone are the same. -/
structure Keeps (left : UInt16 → Prop) (c : Cores) (added : List UInt16) (c' : Cores) : Prop where
  usable : c'.Usable
  incoming : c'.incoming = c.incoming ++ added
  packets : ∀ idx ∈ c.incoming, left idx → c.SamePacket c' idx

theorem Keeps.refl (usable : c.Usable) : Keeps left c [] c :=
  ⟨usable, (List.append_nil _).symm, fun _ _ _ => ⟨rfl, fun _ _ _ => rfl⟩⟩

theorem Keeps.trans (h : Keeps left c added c') (h' : Keeps left c' added' c'') :
    Keeps left c (added ++ added') c'' := by
  refine ⟨h'.usable, ?_, ?_⟩
  · rw [h'.incoming, h.incoming, List.append_assoc]
  · intro idx waits alone
    have first := h.packets idx waits alone
    have second := h'.packets idx (h.incoming ▸ List.mem_append_left _ waits) alone
    refine ⟨second.buffer.trans first.buffer, ?_⟩
    have bytes := second.bytes
    rw [first.buffer] at bytes
    exact first.bytes.trans bytes

theorem SameRings.reachable (h : SameRings c c') {b : Buffer} :
    b.Reachable c'.memory ↔ b.Reachable c.memory := by
  rw [Buffer.Reachable, Buffer.Reachable, h.covers, h.covers]

/-- The incoming buffers stay where they are. -/
theorem Step.rxBuffer_eq (h : Step c act c') (order : c.InOrder) (orderly : c.Orderly act)
    (inRing : idx.toNat < c.rx.layout.num.toNat) : c'.rxBuffer idx = c.rxBuffer idx := by
  have placed := order.placed
  have bounds := Layout.descriptor_bounds inRing
  have areas := c.rx.layout.avail_add_le_used
  have stop := c.rx.layout.ringEnd_eq
  have rings := order.separate.rings.symm
  have elsewhere (spares : act.Spares c c.rx.layout.span) :
      c.rx.layout.buffer c'.memory idx = c.rx.layout.buffer c.memory idx :=
    Layout.buffer_agree ((h.agreeOn placed spares).mono (by simp only [Layout.span]; omega)
      (by simp only [Layout.span]; omega))
  cases h with
  | skipped next short => exact elsewhere rings
  | @sent idx' msg next roomy fits =>
    exact elsewhere ⟨rings, (order.separate.fromRx idx' (order.lt_of_next next)).symm⟩
  | returned idx' => exact Device.buffer_handBack placed.rxWithin inRing
  | offeredTx idx' =>
    rw [placed.txOne] at rings
    exact elsewhere rings
  | offeredRx idx' =>
    unfold rxBuffer
    dsimp only
    rw [placed.rxOne] at inRing ⊢
    exact Driver.buffer_offer placed.rxDriver_within inRing
  | wrote fits => exact elsewhere orderly.2
  | _ => rfl

/-- A step in order keeps a link usable if it offers only buffers that can be used. -/
theorem Step.usable (h : Step c act c') (usable : c.Usable) (orderly : c.Orderly act)
    (outgoing : ∀ idx ∈ c'.outgoing, (c.txBuffer idx).Reachable c.memory)
    (incoming : ∀ idx ∈ c'.incoming, c.Readable idx) : c'.Usable := by
  have order := usable.order
  have same := h.sameRings
  have order' := h.inOrder order orderly
  refine ⟨order', ?_, ?_⟩
  · intro idx waits
    have inRing := order'.inRing idx waits
    rw [same.tx] at inRing
    rw [same.reachable, h.txBuffer_eq order orderly inRing]
    exact outgoing idx waits
  · intro idx waits
    obtain ⟨inRing, reachable, fromTx, fromRx, fromBuffers⟩ := incoming idx waits
    have buffer := h.rxBuffer_eq order orderly inRing
    refine ⟨?_, ?_, ?_, ?_, ?_⟩
    · rwa [same.rx]
    · rwa [buffer, same.reachable]
    · rwa [buffer, same.tx]
    · rwa [buffer, same.rx]
    · intro i inTx
      rw [same.tx] at inTx
      rw [buffer, h.txBuffer_eq order orderly inTx]
      exact fromBuffers i inTx

/-- The firmware writes nothing into a readable buffer. -/
theorem Readable.spares (h : c.Readable idx) (step : Step c act c') (order : c.InOrder)
    (mine : act.byPeer = false) : act.Spares c (c.rxBuffer idx).span := by
  cases step with
  | skipped next short => exact h.fromTx
  | sent next roomy fits => exact ⟨h.fromTx, h.fromBuffers _ (order.lt_of_next next)⟩
  | returned idx' => exact h.fromRx
  | wokeInVain kick next => trivial
  | woke kick next => trivial
  | took next => trivial
  | _ => cases mine

/-- A step of the firmware that takes no packet keeps those that wait. -/
theorem Step.keeps (h : Step c act c') (usable : c.Usable) (mine : act.byPeer = false)
    (none : act.taken = none) : Keeps left c [] c' := by
  have order := usable.order
  have orderly : c.Orderly act := by
    cases act <;> trivial
  have noRx : ∀ idx, act ≠ .offeredRx idx := by
    rintro idx rfl
    cases mine
  have noTx : ∀ idx, act ≠ .offeredTx idx := by
    rintro idx rfl
    cases mine
  have incoming : c'.incoming = c.incoming := by
    have waits := h.incoming_eq order orderly noRx
    rw [none] at waits
    exact waits.symm
  refine ⟨h.usable usable orderly ?_ ?_, ?_, ?_⟩
  · intro idx waits
    exact usable.outgoing idx (h.outgoing_subset order orderly noTx waits)
  · rw [incoming]
    exact usable.incoming
  · rw [incoming, List.append_nil]
  · intro idx waits _
    have readable := usable.incoming idx waits
    exact ⟨h.rxBuffer_eq order orderly readable.inRing,
      h.agreeOn order.placed (readable.spares h order mine)⟩

/-- What the peer may do while packets wait: it offers only buffers that can be used, and only where
there is room, and otherwise writes neither into the rings nor into packets that are left alone. -/
def Considerate (left : UInt16 → Prop) (c : Cores) : Act → Prop
  | .offeredTx idx => idx.toNat < c.tx.layout.num.toNat ∧ (c.txBuffer idx).Reachable c.memory
  | .offeredRx idx => c.Readable idx ∧ c.incoming.length < c.rx.layout.num.toNat
  | .wrote addr bytes => c.Orderly (.wrote addr bytes) ∧ ∀ idx ∈ c.incoming, left idx →
      Event.Misses (c.rxBuffer idx).span.start (c.rxBuffer idx).span.stop (.write addr bytes)
  | _ => True

theorem Considerate.orderly {act : Act} (h : c.Considerate left act) : c.Orderly act := by
  cases act with
  | offeredTx idx => exact h.1
  | wrote addr bytes => exact h.1
  | _ => trivial

/-- A considerate peer spares the packets that are left alone. -/
theorem Readable.spares_peer {idx : UInt16} {act : Act} (h : c.Readable idx) (placed : c.Placed)
    (peer : act.byPeer = true) (considerate : c.Considerate left act) (waits : idx ∈ c.incoming)
    (alone : left idx) : act.Spares c (c.rxBuffer idx).span := by
  cases act with
  | offeredTx i =>
    have apart := h.fromTx
    rw [placed.txOne] at apart
    exact apart
  | offeredRx i =>
    have apart := h.fromRx
    rw [placed.rxOne] at apart
    exact apart
  | wrote addr bytes => exact considerate.2 idx waits alone
  | collectedTx x => trivial
  | collectedRx x => trivial
  | kickedRx => trivial
  | _ => cases peer

/-- A step of a considerate peer keeps the packets that wait, and adds the one that it offers. -/
theorem Step.keeps_peer (h : Step c act c') (usable : c.Usable) (peer : act.byPeer = true)
    (considerate : c.Considerate left act) : Keeps left c act.offered.toList c' := by
  have order := usable.order
  have orderly := considerate.orderly
  have outgoing : ∀ i ∈ c'.outgoing, (c.txBuffer i).Reachable c.memory := by
    intro i waits
    by_cases quiet : ∀ idx, act ≠ .offeredTx idx
    · exact usable.outgoing i (h.outgoing_subset order orderly quiet waits)
    · push Not at quiet
      obtain ⟨new, rfl⟩ := quiet
      rcases h.mem_outgoing order waits with rfl | old
      · exact considerate.2
      · exact usable.outgoing i old
  have incoming : c'.incoming = c.incoming ++ act.offered.toList := by
    by_cases quiet : ∀ idx, act ≠ .offeredRx idx
    · have waits := h.incoming_eq order orderly quiet
      have noOffer : act.offered = .none := by
        cases act with
        | offeredRx idx => exact absurd rfl (quiet idx)
        | _ => rfl
      rw [Act.taken_of_byPeer peer] at waits
      rw [noOffer, Option.toList_none, List.append_nil]
      exact waits.symm
    · push Not at quiet
      obtain ⟨new, rfl⟩ := quiet
      exact h.incoming_offered order considerate.2
  have readable : ∀ i ∈ c'.incoming, c.Readable i := by
    intro i waits
    rw [incoming] at waits
    rcases List.mem_append.mp waits with old | new
    · exact usable.incoming i old
    · cases act with
      | offeredRx idx =>
        rw [List.mem_singleton.mp new]
        exact considerate.1
      | _ => cases new
  refine ⟨h.usable usable orderly outgoing readable, incoming, ?_⟩
  intro i waits alone
  have readable := usable.incoming i waits
  exact ⟨h.rxBuffer_eq order orderly readable.inRing,
    h.agreeOn order.placed (readable.spares_peer order.placed peer considerate waits alone)⟩

theorem Path.keeps (h : Path c acts c') (usable : c.Usable)
    (mine : ∀ act ∈ acts, act.byPeer = false) (none : ∀ act ∈ acts, act.taken = none) :
    Keeps left c [] c' := by
  induction h with
  | start => exact .refl usable
  | @step acts act _ _ _ last ih =>
    have before := ih (fun act mem => mine act (List.mem_append_left _ mem))
      fun act mem => none act (List.mem_append_left _ mem)
    have now : act ∈ acts ++ [act] := List.mem_append_right _ (List.mem_singleton_self _)
    exact before.trans (last.keeps before.usable (mine _ now) (none _ now))

/-- Kicks have nothing to do with buffers. -/
theorem Usable.withKicks (h : c.Usable) (k : KickCounter) : Usable { c with rxKicks := k } := by
  have separate := h.order.separate
  refine ⟨⟨h.order.tx, h.order.rx, ⟨separate.rings, separate.fromTx, separate.fromRx⟩,
    h.order.inRing⟩, h.outgoing, ?_⟩
  intro idx waits
  have readable := h.incoming idx waits
  exact ⟨readable.inRing, readable.reachable, readable.fromTx, readable.fromRx,
    readable.fromBuffers⟩

/-- When a packet is taken, those behind it are still there. -/
theorem Usable.took (h : c.Usable) (next : c.rx.next? c.memory = some idx) :
    Usable { c with rx := c.rx.advance } ∧ c.Readable idx ∧
      c.incoming = idx :: Cores.incoming { c with rx := c.rx.advance } := by
  have queue : c.incoming = idx :: Cores.incoming { c with rx := c.rx.advance } :=
    Device.offered_of_next? next
  have step : Step c (.took idx) { c with rx := c.rx.advance } := .took next
  refine ⟨⟨step.inOrder h.order trivial, h.outgoing, ?_⟩, ?_, queue⟩
  · intro idx' waits
    have readable := h.incoming idx' (queue ▸ List.mem_cons_of_mem _ waits)
    exact ⟨readable.inRing, readable.reachable, readable.fromTx, readable.fromRx,
      readable.fromBuffers⟩
  · exact h.incoming idx (queue ▸ List.mem_cons_self)

end Cores

end InterCore.Link
