import InterCore.Proofs.Link.Sending

/-!
# What steps leave alone

A step writes into the ring that it is about, into the one buffer that it fills, or where the peer
says. `Act.Spares` says that this is apart from a span of addresses, and `Step.agreeOn` that the
bytes of that span stay as they were.
-/

namespace InterCore.Link

open InterCore.Packet (Header maxLen)
open InterCore.Ring (Device Driver Ends Span)

variable {tx : Device} {m : Memory} {idx : UInt16} {msg : Message}

theorem Message.length_cutTo_le (msg : Message) (b : Ring.Buffer) :
    (msg.cutTo b.len).data.length ≤ b.capacity - Header.size :=
  List.length_take_le _ _

/-- The header tells the length of what is in the buffer, for no packet is longer than 16 bits
say. -/
theorem Message.toNat_len_cutTo (msg : Message) (len : UInt32) :
    (msg.cutTo len).header.len.toNat = (msg.cutTo len).data.length := by
  have short : (msg.cutTo len).data.length ≤ _ := msg.length_cutTo_le ⟨0, len⟩
  have few : (⟨0, len⟩ : Ring.Buffer).capacity ≤ maxLen := Nat.min_le_right _ _
  simp only [maxLen] at few
  show (UInt16.ofNat _).toNat = _
  rw [UInt16.toNat_ofNat', Nat.mod_eq_of_lt (by omega)]

/-- A message is filled into its buffer and nowhere else. -/
theorem fillEvents_inside (roomy : Header.size ≤ (tx.layout.buffer m idx).len.toNat) {e : Event}
    (mem : e ∈ fillEvents tx m idx msg) :
    e.Inside (tx.layout.buffer m idx).span.start (tx.layout.buffer m idx).span.stop := by
  have short := msg.length_cutTo_le (tx.layout.buffer m idx)
  have enough : Header.size ≤ (tx.layout.buffer m idx).capacity :=
    Nat.le_min.mpr ⟨roomy, by decide⟩
  simp only [fillEvents, Message.events, List.mem_cons, List.not_mem_nil, or_false] at mem
  rcases mem with rfl | rfl | rfl
  · simp only [Event.Inside, Ring.Buffer.span, Header.length_encode]
    omega
  · simp only [Event.Inside, Ring.Buffer.span]
    omega
  · trivial

theorem agreeOn_fill {span : Span} (roomy : Header.size ≤ (tx.layout.buffer m idx).len.toNat)
    (fits : ∀ e ∈ fillEvents tx m idx msg, e.Fits m)
    (apart : span.Apart (tx.layout.buffer m idx).span) :
    m.AgreeOn (m.after (fillEvents tx m idx msg)) span.start span.stop := by
  apply Memory.agreeOn_after
  intro e mem
  exact ⟨fits e mem, (fillEvents_inside roomy mem).misses apart⟩

theorem agreeOn_send {span : Span} (within : tx.layout.Within m)
    (roomy : Header.size ≤ (tx.layout.buffer m idx).len.toNat)
    (fits : ∀ e ∈ fillEvents tx m idx msg, e.Fits m)
    (buffer : span.Apart (tx.layout.buffer m idx).span) (ring : span.Apart tx.layout.span) :
    m.AgreeOn (m.after (sendEvents tx m idx msg)) span.start span.stop := by
  have within' : tx.layout.Within (m.after (fillEvents tx m idx msg)) :=
    within.replay _
  rw [sendEvents, Memory.after_append]
  exact (agreeOn_fill roomy fits buffer).trans (Device.agreeOn_handBack_outside within' ring)

/-! ## What a buffer holds -/

/-- A packet that was put into a buffer stands there. -/
theorem Message.slice_events (msg : Message) {m : Memory} {addr : Nat}
    (fits : ∀ e ∈ msg.events addr, e.Fits m) :
    (m.after (msg.events addr)).slice addr Header.size = msg.header.encode ∧
      (m.after (msg.events addr)).slice (addr + Header.size) msg.data.length = msg.data := by
  obtain ⟨headerFits, dataFits⟩ := Message.events_fit.mp fits
  have headerFits' : m.Covers addr msg.header.encode.length := by
    rwa [Header.length_encode]
  have dataFits' : (m.patch addr msg.header.encode).Covers (addr + Header.size) msg.data.length :=
    Memory.covers_patch.mpr dataFits
  show ((m.patch addr msg.header.encode).patch (addr + Header.size) msg.data).slice _ _ = _ ∧
    ((m.patch addr msg.header.encode).patch (addr + Header.size) msg.data).slice _ _ = _
  refine ⟨?_, Memory.slice_patch_self dataFits'⟩
  have kept : (m.patch addr msg.header.encode).AgreeOn _ addr (addr + Header.size) :=
    Memory.agreeOn_patch dataFits' (.inr (Nat.le_refl _))
  rw [kept.slice (Nat.le_refl _) (Nat.le_refl _)]
  have written := Memory.slice_patch_self headerFits'
  rwa [Header.length_encode] at written

/-- In a memory the buffer of a descriptor holds a message, as far as it fits. -/
structure Carries (l : Ring.Layout) (m : Memory) (idx : UInt16) (msg : Message) : Prop where
  header : m.slice (l.buffer m idx).addr.toNat Header.size =
    (msg.cutTo (l.buffer m idx).len).header.encode
  data : m.slice ((l.buffer m idx).addr.toNat + Header.size)
    (msg.cutTo (l.buffer m idx).len).data.length = (msg.cutTo (l.buffer m idx).len).data

/-- What a buffer holds is in its span. -/
theorem Carries.of_agreeOn {l : Ring.Layout} {m' : Memory} (h : Carries l m idx msg)
    (roomy : Header.size ≤ (l.buffer m idx).len.toNat) (buffer : l.buffer m' idx = l.buffer m idx)
    (agree : m.AgreeOn m' (l.buffer m idx).span.start (l.buffer m idx).span.stop) :
    Carries l m' idx msg := by
  have short := msg.length_cutTo_le (l.buffer m idx)
  have enough : Header.size ≤ (l.buffer m idx).capacity := Nat.le_min.mpr ⟨roomy, by decide⟩
  simp only [Ring.Buffer.span] at agree
  refine ⟨?_, ?_⟩
  all_goals rw [buffer]
  · rw [agree.slice (by omega) (by omega)]
    exact h.header
  · rw [agree.slice (by omega) (by omega)]
    exact h.data

/-- After a message was filled in its buffer holds it. -/
theorem carries_fill (fits : ∀ e ∈ fillEvents tx m idx msg, e.Fits m)
    (buffer : tx.layout.buffer (m.after (fillEvents tx m idx msg)) idx = tx.layout.buffer m idx) :
    Carries tx.layout (m.after (fillEvents tx m idx msg)) idx msg := by
  obtain ⟨header, data⟩ := (msg.cutTo (tx.layout.buffer m idx).len).slice_events fits
  refine ⟨?_, ?_⟩
  all_goals rw [buffer]
  · exact header
  · exact data

/-- Filling a buffer leaves the descriptors alone. -/
theorem buffer_fill {i : UInt16} (inRing : i.toNat < tx.layout.num.toNat)
    (roomy : Header.size ≤ (tx.layout.buffer m idx).len.toNat)
    (fits : ∀ e ∈ fillEvents tx m idx msg, e.Fits m)
    (apart : (tx.layout.buffer m idx).span.Apart tx.layout.span) :
    tx.layout.buffer (m.after (fillEvents tx m idx msg)) i = tx.layout.buffer m i := by
  have bounds := Ring.Layout.descriptor_bounds inRing
  have areas := tx.layout.avail_add_le_used
  have ends := tx.layout.ringEnd_eq
  refine Ring.Layout.buffer_agree ((agreeOn_fill roomy fits apart.symm).mono bounds.1 ?_)
  simp only [Ring.Layout.span]
  omega

/-- After a message was sent its buffer holds it. -/
theorem carries_send (within : tx.layout.Within m) (inRing : idx.toNat < tx.layout.num.toNat)
    (roomy : Header.size ≤ (tx.layout.buffer m idx).len.toNat)
    (fits : ∀ e ∈ fillEvents tx m idx msg, e.Fits m)
    (apart : (tx.layout.buffer m idx).span.Apart tx.layout.span) :
    Carries tx.layout (m.after (sendEvents tx m idx msg)) idx msg := by
  have filled := buffer_fill inRing roomy fits apart
  have within' : tx.layout.Within (m.after (fillEvents tx m idx msg)) := within.replay _
  rw [sendEvents, Memory.after_append]
  refine (carries_fill fits filled).of_agreeOn ?_ (Device.buffer_handBack within' inRing) ?_
  all_goals rw [filled]
  · exact roomy
  · exact Device.agreeOn_handBack_outside within' apart

/-- An act writes nothing into a span. -/
def Act.Spares (c : Cores) (span : Span) : Act → Prop
  | skipped _ => span.Apart c.tx.layout.span
  | sent idx _ => span.Apart c.tx.layout.span ∧ span.Apart (c.txBuffer idx).span
  | returned _ => span.Apart c.rx.layout.span
  | offeredTx _ => span.Apart c.txDriver.layout.span
  | offeredRx _ => span.Apart c.rxDriver.layout.span
  | wrote addr bytes => Event.Misses span.start span.stop (.write addr bytes)
  | woke _ => True
  | took _ => True
  | collectedTx _ => True
  | collectedRx _ => True
  | kickedRx => True

namespace Cores

variable {c c' : Cores} {act : Act} {span : Span}

/-- Both ends of the outgoing ring. -/
def txEnds (c : Cores) : Ends :=
  .on c.memory c.txDriver c.tx

/-- Both ends of the incoming ring. -/
def rxEnds (c : Cores) : Ends :=
  .on c.memory c.rxDriver c.rx

/-- The rings and the outgoing buffers are apart from each other. -/
structure Separate (c : Cores) : Prop where
  rings : c.tx.layout.span.Apart c.rx.layout.span
  fromTx : ∀ i : UInt16, i.toNat < c.tx.layout.num.toNat →
    (c.txBuffer i).span.Apart c.tx.layout.span
  fromRx : ∀ i : UInt16, i.toNat < c.tx.layout.num.toNat →
    (c.txBuffer i).span.Apart c.rx.layout.span

/-- No two outgoing buffers overlap. -/
def BuffersApart (c : Cores) : Prop :=
  ∀ i j : UInt16, i ≠ j → i.toNat < c.tx.layout.num.toNat → j.toNat < c.tx.layout.num.toNat →
    (c.txBuffer i).span.Apart (c.txBuffer j).span

theorem Step.agreeOn (h : Step c act c') (placed : c.Placed) (spares : act.Spares c span) :
    c.memory.AgreeOn c'.memory span.start span.stop := by
  cases h with
  | skipped next short =>
    have apart : span.Apart c.tx.layout.span := spares
    exact Device.agreeOn_handBack_outside placed.txWithin apart
  | @sent idx msg next roomy fits =>
    obtain ⟨ring, buffer⟩ : span.Apart c.tx.layout.span ∧ span.Apart (c.txBuffer idx).span := spares
    dsimp only
    exact agreeOn_send placed.txWithin roomy fits buffer ring
  | returned idx =>
    have apart : span.Apart c.rx.layout.span := spares
    exact Device.agreeOn_handBack_outside placed.rxWithin apart
  | offeredTx idx =>
    have areas := c.txDriver.layout.avail_add_le_used
    have avail := c.txDriver.layout.avail_eq
    have ends := c.txDriver.layout.ringEnd_eq
    refine Driver.agreeOn_offer placed.txDriver_within ?_
    simp only [Act.Spares, Span.Apart, Ring.Layout.span] at spares
    omega
  | offeredRx idx =>
    have areas := c.rxDriver.layout.avail_add_le_used
    have avail := c.rxDriver.layout.avail_eq
    have ends := c.rxDriver.layout.ringEnd_eq
    refine Driver.agreeOn_offer placed.rxDriver_within ?_
    simp only [Act.Spares, Span.Apart, Ring.Layout.span] at spares
    omega
  | wrote fits => exact Memory.agreeOn_patch fits spares
  | _ => exact fun _ _ _ => rfl

end Cores

end InterCore.Link
