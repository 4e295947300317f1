import InterCore.Proofs.Link.Completion
import InterCore.Proofs.Link.Custody

/-!
# Messages arrive

Every message that was sent lies in a used buffer until the peer offers that buffer again, and the
used ring gives the buffers back in the order in which they were filled. `Holds` says that a buffer
holds a message. A buffer that is neither offered nor written by the peer goes on to hold what it
holds (`Holds.step`), so the messages that wait in the used ring are intact (`Path.mailed`), and so
are those that the peer has collected, for as long as it keeps the buffer (`Holds.path`).
-/

namespace InterCore

namespace Link

open InterCore.Packet (Header maxLen)
open InterCore.Ring

variable {c₀ c c' : Cores} {acts : List Act} {act : Act} {idx : UInt16} {msg : Message}

/-- An outgoing buffer that can be read holds a message, as far as it fits. -/
structure Cores.Holds (c : Cores) (idx : UInt16) (msg : Message) : Prop where
  roomy : Header.size ≤ (c.txBuffer idx).len.toNat
  headerFits : c.memory.Covers (c.txBuffer idx).addr.toNat Header.size
  dataFits : c.memory.Covers ((c.txBuffer idx).addr.toNat + Header.size)
    (msg.cutTo (c.txBuffer idx).len).data.length
  carries : Carries c.tx.layout c.memory idx msg

namespace Cores

/-- What a buffer holds is in its span. -/
theorem Holds.of_agreeOn (h : c.Holds idx msg) (same : SameRings c c')
    (buffer : c'.txBuffer idx = c.txBuffer idx)
    (agree : c.memory.AgreeOn c'.memory (c.txBuffer idx).span.start (c.txBuffer idx).span.stop) :
    c'.Holds idx msg := by
  refine ⟨?_, ?_, ?_, ?_⟩
  · rw [buffer]
    exact h.roomy
  · rw [buffer]
    exact same.covers.mpr h.headerFits
  · rw [buffer]
    exact same.covers.mpr h.dataFits
  · rw [txBuffer, same.tx] at buffer
    rw [same.tx]
    exact h.carries.of_agreeOn h.roomy buffer agree

/-- After a message was sent its buffer holds it. -/
theorem Holds.of_sent (placed : c.Placed) (step : Step c (.sent idx msg) c')
    (inRing : idx.toNat < c.tx.layout.num.toNat) (buffer : c'.txBuffer idx = c.txBuffer idx)
    (apart : (c.txBuffer idx).span.Apart c.tx.layout.span) : c'.Holds idx msg := by
  have same := step.sameRings
  cases step with
  | sent next roomy fits =>
    obtain ⟨headerFits, dataFits⟩ := Message.events_fit.mp fits
    have carried : Carries c.tx.layout (c.memory.after (sendEvents c.tx c.memory idx msg)) idx msg :=
      carries_send placed.txWithin inRing roomy fits apart
    refine ⟨?_, ?_, ?_, ?_⟩
    · rw [buffer]
      exact roomy
    · rw [buffer]
      exact same.covers.mpr headerFits
    · rw [buffer]
      exact same.covers.mpr dataFits
    · dsimp only [Device.layout_advance]
      exact carried

/-- An act does not write into a buffer as the peer. -/
def LeavesAlone (b : Buffer) : Act → Prop
  | .wrote addr bytes => Event.Misses b.span.start b.span.stop (.write addr bytes)
  | _ => True

/-- A buffer that does not wait for the firmware goes on to hold what it holds, if the peer does not
write there. -/
theorem Holds.step (h : c.Holds idx msg) (kept : TxKept c₀ acts c)
    (kept' : TxKept c₀ (acts ++ [act]) c') (separate : c₀.Separate) (disjoint : c₀.BuffersApart)
    (placed : c.Placed) (step : Step c act c') (inRing : idx.toNat < c₀.tx.layout.num.toNat)
    (away : idx ∉ c.txEnds.queues.offered) (alone : LeavesAlone (c₀.txBuffer idx) act) :
    c'.Holds idx msg := by
  have buffer := kept.buffers idx inRing
  have fromTx := separate.fromTx idx inRing
  have fromRx := separate.fromRx idx inRing
  rw [← kept.same.tx] at fromTx
  rw [← kept.same.rx] at fromRx
  refine h.of_agreeOn step.sameRings ((kept'.buffers idx inRing).trans buffer.symm) ?_
  rw [buffer]
  refine step.agreeOn placed ?_
  cases step with
  | skipped next short => exact fromTx
  | @sent idx' msg' next roomy fits =>
    obtain ⟨inRing', mem, buffer'⟩ := kept.buffer_of_next next
    have other : idx ≠ idx' := by
      rintro rfl
      exact away mem
    refine ⟨fromTx, ?_⟩
    rw [buffer']
    exact disjoint idx idx' other inRing inRing'
  | returned idx' => exact fromRx
  | offeredTx idx' =>
    show (c₀.txBuffer idx).span.Apart c.txDriver.layout.span
    rw [← placed.txOne]
    exact fromTx
  | offeredRx idx' =>
    show (c₀.txBuffer idx).span.Apart c.rxDriver.layout.span
    rw [← placed.rxOne]
    exact fromRx
  | wrote fits => exact alone
  | _ => trivial

end Cores

/-! ## What waits in the used ring -/

/-- The outgoing buffers that were handed back, each with the message that was put into it, if
any. -/
def posted (acts : List Act) : List (UInt16 × Option Message) :=
  acts.filterMap fun
    | .skipped idx => some (idx, none)
    | .sent idx msg => some (idx, some msg)
    | _ => none

/-- The used elements of the outgoing ring that the peer collected. -/
def collectedTx (acts : List Act) : List UsedElem :=
  acts.filterMap fun
    | .collectedTx x => some x
    | _ => none

/-- The used element of a buffer that was handed back. -/
def usedElem (entry : UInt16 × Option Message) : UsedElem :=
  ⟨entry.1.toUInt32, if entry.2.isSome then UInt32.ofNat maxLen else 0⟩

/-- What was handed back and not yet collected. -/
def waiting (acts : List Act) : List (UInt16 × Option Message) :=
  (posted acts).drop (collectedTx acts).length

theorem publishedIn_txRecords (acts : List Act) :
    publishedIn (txRecords acts) = (posted acts).map usedElem := by
  induction acts with
  | nil => rfl
  | cons act acts ih =>
    have split : txRecords (act :: acts) = txRecords [act] ++ txRecords acts :=
      txRecords_append [act] acts
    rw [split, publishedIn_append, ih]
    cases act <;> rfl

theorem collectedIn_txRecords (acts : List Act) :
    collectedIn (txRecords acts) = collectedTx acts := by
  induction acts with
  | nil => rfl
  | cons act acts ih =>
    have split : txRecords (act :: acts) = txRecords [act] ++ txRecords acts :=
      txRecords_append [act] acts
    rw [split, collectedIn_append, ih]
    cases act <;> rfl

theorem sentIn_eq (acts : List Act) : sentIn acts = (posted acts).filterMap Prod.snd := by
  induction acts with
  | nil => rfl
  | cons act acts ih =>
    have split : sentIn (act :: acts) = sentIn [act] ++ sentIn acts := sentIn_append [act] acts
    rw [split, ih]
    cases act <;> rfl

/-- What waits after an act waited before or was handed back in it. -/
theorem mem_waiting_snoc {entry : UInt16 × Option Message} (mem : entry ∈ waiting (acts ++ [act])) :
    entry ∈ waiting acts ∨ entry ∈ posted [act] := by
  have posts : posted (acts ++ [act]) = posted acts ++ posted [act] := List.filterMap_append
  have collects : collectedTx (acts ++ [act]) = collectedTx acts ++ collectedTx [act] :=
    List.filterMap_append
  rw [waiting, posts, collects, List.drop_append, List.length_append] at mem
  rcases List.mem_append.mp mem with old | new
  · rw [← List.drop_drop] at old
    exact .inl (List.mem_of_mem_drop old)
  · exact .inr (List.mem_of_mem_drop new)

namespace Cores

theorem TxKept.collected_eq (h : TxKept c₀ acts c) :
    (posted acts).map usedElem = collectedTx acts ++ c.txEnds.queues.returned := by
  rw [← publishedIn_txRecords, ← collectedIn_txRecords]
  exact h.holds.returned

/-- What waits is what lies in the used ring. -/
theorem TxKept.waiting_eq (h : TxKept c₀ acts c) :
    (waiting acts).map usedElem = c.txEnds.queues.returned := by
  rw [waiting, List.map_drop, h.collected_eq, List.drop_left]

/-- A buffer that waits is neither offered nor with the peer. -/
theorem TxKept.away_of_waiting (h : TxKept c₀ acts c) {message : Option Message}
    (mem : (idx, message) ∈ waiting acts) : idx.toNat < c₀.tx.layout.num.toNat ∧
      idx ∉ c.txEnds.queues.offered ∧ idx.toNat ∉ peerHas c₀.tx.layout.num.toNat acts := by
  have used : usedElem (idx, message) ∈ c.txEnds.queues.returned := by
    rw [← h.waiting_eq]
    exact List.mem_map_of_mem mem
  have here : idx.toNat ∈ c.txEnds.queues.returnedIds := by
    have id : idx.toNat = (usedElem (idx, message)).id.toNat := (UInt16.toNat_toUInt32 idx).symm
    rw [id]
    exact List.mem_map_of_mem used
  have once := h.circulates.conserved.count_le idx.toNat
  have counted := List.count_pos_iff.mpr here
  refine ⟨?_, ?_, ?_⟩
  · refine List.mem_range.mp ((List.Perm.mem_iff h.circulates.conserved).mp ?_)
    simp [everywhere, here]
  · intro there
    have there : idx.toNat ∈ c.txEnds.queues.offeredIds := List.mem_map_of_mem there
    have counted' := List.count_pos_iff.mpr there
    omega
  · intro there
    have counted' := List.count_pos_iff.mpr there
    rw [peerHas] at counted'
    omega

/-- What waits in the used ring holds its message. -/
def Mailed (acts : List Act) (c : Cores) : Prop :=
  ∀ idx msg, (idx, some msg) ∈ waiting acts → c.Holds idx msg

theorem Path.mailed (h : Path c₀ acts c) (ready : c₀.Ready) (disjoint : c₀.BuffersApart)
    (obeys : Obeys (txRule c₀) acts) : c.Mailed acts := by
  induction h with
  | start =>
    intro idx msg mem
    cases mem
  | @step acts act c c' before last ih =>
    obtain ⟨earlier, now⟩ := obeys.snoc
    have kept := before.txKept ready earlier
    have placed := before.placed ready.placed
    have kept' := kept.step ready.separate placed last now
    intro idx msg mem
    rcases mem_waiting_snoc mem with old | new
    · obtain ⟨inRing, away, notPeer⟩ := kept.away_of_waiting old
      refine (ih earlier idx msg old).step kept kept' ready.separate disjoint placed last inRing away ?_
      cases act with
      | wrote addr bytes => exact now.2 idx inRing notPeer
      | _ => trivial
    · obtain rfl : act = .sent idx msg := by
        cases act with
        | sent idx' msg' =>
          cases List.mem_singleton.mp new
          rfl
        | skipped idx' => cases List.mem_singleton.mp new
        | _ => cases new
      have next : c.tx.next? c.memory = some idx := by
        cases last with
        | sent next roomy fits => exact next
      obtain ⟨inRing, -, buffer⟩ := kept.buffer_of_next next
      refine .of_sent placed last (kept.num ▸ inRing)
        ((kept'.buffers idx inRing).trans buffer.symm) ?_
      rw [buffer, kept.same.tx]
      exact ready.separate.fromTx idx inRing

/-! ## What the peer has collected -/

/-- The peer has a buffer until it offers it. -/
theorem mem_peerHas_snoc {num : Nat} (has : idx.toNat ∈ peerHas num acts)
    (keeps : act ≠ .offeredTx idx) : idx.toNat ∈ peerHas num (acts ++ [act]) := by
  have has : idx.toNat ∈ (custody num (txRecords acts)).driver := has
  rw [peerHas, txRecords_append, custody_append]
  cases act with
  | offeredTx idx' =>
    refine (List.mem_erase_of_ne ?_).mpr has
    intro same
    exact keeps (congrArg Act.offeredTx (UInt16.toNat_inj.mp same).symm)
  | collectedTx x => exact List.mem_cons_of_mem _ has
  | _ => exact has

/-- A buffer of the peer is not offered. -/
theorem TxKept.not_offered_of_peerHas (h : TxKept c₀ acts c)
    (has : idx.toNat ∈ peerHas c₀.tx.layout.num.toNat acts) : idx ∉ c.txEnds.queues.offered := by
  intro there
  have there : idx.toNat ∈ c.txEnds.queues.offeredIds := List.mem_map_of_mem there
  have once := h.circulates.conserved.count_le idx.toNat
  have counted := List.count_pos_iff.mpr there
  have counted' := List.count_pos_iff.mpr has
  rw [peerHas] at counted'
  omega

/-- While the peer has a buffer and does not write there, it holds what it holds. -/
theorem Holds.path {before after : List Act} (h : c.Holds idx msg) (ready : c₀.Ready)
    (disjoint : c₀.BuffersApart) (inRing : idx.toNat < c₀.tx.layout.num.toNat)
    (first : Path c₀ before c) (path : Path c after c')
    (obeys : Obeys (txRule c₀) (before ++ after))
    (has : idx.toNat ∈ peerHas c₀.tx.layout.num.toNat before)
    (keeps : ∀ act ∈ after, act ≠ .offeredTx idx ∧ LeavesAlone (c₀.txBuffer idx) act) :
    c'.Holds idx msg ∧ idx.toNat ∈ peerHas c₀.tx.layout.num.toNat (before ++ after) := by
  induction path with
  | start => exact ⟨h, by rwa [List.append_nil]⟩
  | @step after act c₁ c₂ more last ih =>
    rw [← List.append_assoc] at obeys ⊢
    obtain ⟨earlier, now⟩ := obeys.snoc
    obtain ⟨held, has⟩ := ih earlier fun act mem => keeps act (List.mem_append_left _ mem)
    obtain ⟨offers, alone⟩ := keeps act (by simp)
    have whole := first.append more
    have kept := whole.txKept ready earlier
    have placed := whole.placed ready.placed
    have kept' := kept.step ready.separate placed last now
    exact ⟨held.step kept kept' ready.separate disjoint placed last inRing
      (kept.not_offered_of_peerHas has) alone, mem_peerHas_snoc has offers⟩

/-- The peer reads the message that a buffer holds. -/
theorem Holds.read (h : c.Holds idx msg) (placed : c.Placed)
    (inRing : idx.toNat < c.tx.layout.num.toNat) {m : Machine} (memory : m.bus.memory = c.memory)
    (driver : m.peer.tx = c.txDriver) {x : UsedElem} (id : x.id.toUInt16 = idx) :
    Peer.contents x m = .ok (⟨x.id, x.len, some ((msg.cutTo (c.txBuffer idx).len).header,
      (msg.cutTo (c.txBuffer idx).len).data)⟩, m) := by
  have bus : m.peerBus.memory = c.memory := memory
  have within : m.peer.tx.layout.Within m.peerBus.memory := by
    rw [driver, bus]
    exact placed.txDriver_within
  have here : (get : OnMachine Machine) m = .ok (m, m) := rfl
  have inRing' : idx.toNat < m.peer.tx.layout.num.toNat := by
    rwa [driver, ← placed.txOne]
  obtain ⟨d, read, buffer⟩ := Ring.Layout.readDescriptor_eq within inRing'
  have read : m.peer.tx.descriptor idx m.peerBus = .ok (d, m.peerBus) := read
  have buffer : c.txBuffer idx = ⟨d.addr, d.len⟩ := by
    rw [← buffer, driver, bus, ← placed.txOne]
    rfl
  obtain ⟨roomy, headerFits, dataFits, header, data⟩ := h
  rw [buffer] at roomy headerFits dataFits
  rw [show c.tx.layout.buffer c.memory idx = ⟨d.addr, d.len⟩ from buffer] at header data
  rw [buffer]
  rw [← bus] at headerFits dataFits header data
  have len := msg.toNat_len_cutTo d.len
  rw [Peer.contents, bind_of_ok here, id, bind_of_ok (asPeer_eq read),
    if_neg (Nat.not_lt.mpr roomy)]
  rw [bind_of_ok (asPeer_eq (Bus.readBytes_eq headerFits)), header, Header.decode_encode, len,
    bind_of_ok (asPeer_eq (Bus.readBytes_eq dataFits)), data]
  rfl

/-- The peer takes the next used element, and reads the message in its buffer. -/
theorem Holds.receive {m : Machine} {tx rx : Device} {x : UsedElem}
    (h : (m.cores tx rx).Holds x.id.toUInt16 msg) (placed : (m.cores tx rx).Placed)
    (inRing : x.id.toUInt16.toNat < tx.layout.num.toNat)
    (next : m.peer.tx.nextUsed? m.bus.memory = some x) :
    let cut := msg.cutTo ((m.cores tx rx).txBuffer x.id.toUInt16).len
    ∃ m', PeerStep.run (.receive false false) m =
        .ok (.received ⟨x.id, x.len, some (cut.header, cut.data)⟩, m') ∧
      Step (m.cores tx rx) (.collectedTx x) (m'.cores tx rx) := by
  intro cut
  obtain ⟨m', took, cores, step⟩ := Peer.takeTxUsed?_eq placed next
  have buffer : (m'.cores tx rx).txBuffer x.id.toUInt16 = (m.cores tx rx).txBuffer x.id.toUInt16 := by
    rw [cores]
    rfl
  have held : (m'.cores tx rx).Holds x.id.toUInt16 msg :=
    h.of_agreeOn step.sameRings buffer fun _ _ _ => by rw [cores]
  have read := held.read ((Path.single step).placed placed) inRing rfl rfl rfl
  rw [buffer] at read
  have received : Peer.receive? false false m =
      .ok (some ⟨x.id, x.len, some (cut.header, cut.data)⟩, m') := by
    rw [Peer.receive?, bind_of_ok took]
    exact bind_of_ok read
  exact ⟨m', bind_of_ok received, step⟩

end Cores

/-- The used elements with a message that the peer collected. -/
def mailIn (acts : List Act) : List UsedElem :=
  (collectedTx acts).filter (·.len = UInt32.ofNat maxLen)

theorem length_filter_usedElem (entries : List (UInt16 × Option Message)) :
    ((entries.map usedElem).filter (·.len = UInt32.ofNat maxLen)).length =
      (entries.filterMap Prod.snd).length := by
  induction entries with
  | nil => rfl
  | cons entry entries ih =>
    obtain ⟨idx, message⟩ := entry
    cases message with
    | none =>
      have other : (0 : UInt32) ≠ UInt32.ofNat maxLen := by decide
      simpa [usedElem, other] using ih
    | some msg => simpa [usedElem] using ih

namespace Cores

/-- The messages that were sent are those that the peer collected and those that wait. -/
theorem TxKept.sentIn_eq (h : TxKept c₀ acts c) : ∃ delivered : List Message,
    delivered.length = (mailIn acts).length ∧
      sentIn acts = delivered ++ (waiting acts).filterMap Prod.snd := by
  let delivered := (posted acts).take (collectedTx acts).length
  have all : posted acts = delivered ++ waiting acts := (List.take_append_drop _ _).symm
  have collected : delivered.map usedElem = collectedTx acts := by
    rw [List.map_take, h.collected_eq, List.take_left]
  refine ⟨delivered.filterMap Prod.snd, ?_, ?_⟩
  · rw [mailIn, ← collected, length_filter_usedElem]
  · rw [Link.sentIn_eq, all, List.filterMap_append]

/-- What the peer collects is the first of what waits. -/
theorem TxKept.waiting_of_next (h : TxKept c₀ acts c) {x : UsedElem}
    (next : c.txDriver.nextUsed? c.memory = some x) :
    ∃ entry rest, waiting acts = entry :: rest ∧ usedElem entry = x := by
  have head : c.txEnds.queues.returned.head? = some x := next
  rw [← h.waiting_eq] at head
  cases waits : waiting acts with
  | nil =>
    rw [waits] at head
    cases head
  | cons entry rest =>
    rw [waits] at head
    exact ⟨entry, rest, rfl, Option.some.inj head⟩

/-- A buffer with a message that the peer collected holds the first message that it had not
collected before, for as long as the peer keeps the buffer and does not write there. -/
theorem Path.holds_of_collected {before after : List Act} {x : UsedElem} (ready : c₀.Ready)
    (disjoint : c₀.BuffersApart) (path : Path c₀ (before ++ [.collectedTx x] ++ after) c)
    (obeys : Obeys (txRule c₀) (before ++ [.collectedTx x] ++ after))
    (full : x.len = UInt32.ofNat maxLen)
    (keeps : ∀ act ∈ after, act ≠ .offeredTx x.id.toUInt16 ∧
      LeavesAlone (c₀.txBuffer x.id.toUInt16) act) :
    ∃ msg, (sentIn before)[(mailIn before).length]? = some msg ∧ c.Holds x.id.toUInt16 msg ∧
      x.id.toUInt16.toNat < c₀.tx.layout.num.toNat := by
  obtain ⟨c₂, first, rest⟩ := path.split
  obtain ⟨c₁, path₁, step⟩ := first.unsnoc
  have kept := path₁.txKept ready obeys.init.init
  have kept₂ := first.txKept ready obeys.init
  have next : c₁.txDriver.nextUsed? c₁.memory = some x := by
    cases step with
    | collectedTx next => exact next
  obtain ⟨⟨idx, message⟩, others, waits, rfl⟩ := kept.waiting_of_next next
  cases message with
  | none => cases full
  | some msg =>
    have id : (usedElem (idx, some msg)).id.toUInt16 = idx := by simp [usedElem]
    rw [id] at keeps ⊢
    have mem : (idx, some msg) ∈ waiting before := by simp [waits]
    obtain ⟨inRing, away, -⟩ := kept.away_of_waiting mem
    have held := path₁.mailed ready disjoint obeys.init.init idx msg mem
    have held₂ := held.step kept kept₂ ready.separate disjoint (path₁.placed ready.placed) step
      inRing away trivial
    have has : idx.toNat ∈ peerHas c₀.tx.layout.num.toNat
        (before ++ [.collectedTx (usedElem (idx, some msg))]) := by
      have back : idx.toNat = (usedElem (idx, some msg)).id.toNat := (UInt16.toNat_toUInt32 idx).symm
      rw [peerHas, txRecords_append, custody_append, back]
      exact List.mem_cons_self
    refine ⟨msg, ?_, (held₂.path ready disjoint inRing first rest obeys has keeps).1, inRing⟩
    obtain ⟨delivered, count, sent⟩ := kept.sentIn_eq
    rw [sent, ← count, waits]
    simp

/-- Nothing waits once the used ring is empty. -/
theorem TxKept.waiting_eq_nil (h : TxKept c₀ acts c)
    (drained : c.txDriver.nextUsed? c.memory = none) : waiting acts = [] := by
  have none : c.txEnds.queues.returned = [] := List.head?_eq_none_iff.mp drained
  rwa [← h.waiting_eq, List.map_eq_nil_iff] at none

/-- Once the used ring is empty all messages were collected. -/
theorem TxKept.length_mailIn (h : TxKept c₀ acts c)
    (drained : c.txDriver.nextUsed? c.memory = none) :
    (mailIn acts).length = (sentIn acts).length := by
  obtain ⟨delivered, count, sent⟩ := h.sentIn_eq
  rw [sent, h.waiting_eq_nil drained, List.filterMap_nil, List.append_nil, count]

end Cores

/-- In every session in which the peer keeps to its rule, the messages that it collects are those
that the calls were to send, in order: the `k`-th buffer with a message holds the `k`-th message
(cut to what fits into it) from when it is collected until the peer offers it again or writes
there, and once the used ring is empty all messages were collected. Every call that returns, and
every step of the peer, goes on with the session. -/
theorem messages_arrive_in_order {σ : Type} {start s : Station σ} {acts : List Act}
    {said : List Message} (ready : start.cores.Ready) (disjoint : start.cores.BuffersApart)
    (session : Session start acts said s) (obeys : Obeys (Cores.txRule start.cores) acts) :
    (∀ before x after later c, acts = before ++ [.collectedTx x] ++ after ++ later →
      x.len = UInt32.ofNat maxLen →
      (∀ act ∈ after, act ≠ .offeredTx x.id.toUInt16 ∧
        Cores.LeavesAlone (start.cores.txBuffer x.id.toUInt16) act) →
      Cores.Path start.cores (before ++ [.collectedTx x] ++ after) c →
        ∃ msg, said[(mailIn before).length]? = some msg ∧
          ∀ m : Machine, m.bus.memory = c.memory → m.peer.tx = c.txDriver →
            let cut := msg.cutTo (start.cores.txBuffer x.id.toUInt16).len
            Peer.contents x m = .ok (⟨x.id, x.len, some (cut.header, cut.data)⟩, m)) ∧
      (s.cores.txDriver.nextUsed? s.cores.memory = none → (mailIn acts).length = said.length) ∧
      Session.GoesOn start acts said s := by
  obtain ⟨whole, sent⟩ := session.path
  refine ⟨?_, ?_, session.goesOn ready.placed⟩
  · rintro before x after later c rfl full keeps path
    obtain ⟨msg, first, held, inRing⟩ :=
      path.holds_of_collected ready disjoint obeys.init full keeps
    have kept := path.txKept ready obeys.init
    refine ⟨msg, ?_, ?_⟩
    · have within : (mailIn before).length < (sentIn before).length :=
        (List.getElem?_eq_some_iff.mp first).1
      simp only [sentIn_append, List.append_assoc] at sent
      rw [← sent, List.getElem?_append_left within]
      exact first
    · intro m memory driver
      rw [← kept.buffers _ inRing]
      exact held.read (path.placed ready.placed) (kept.num ▸ inRing) memory driver rfl
  · intro drained
    rw [(whole.txKept ready obeys).length_mailIn drained, sent]

/-- The peer offers the first buffer of a link, a channel is announced in it, and the peer collects
the announcement. -/
structure CollectedFirst {σ : Type} (start : Station σ) (m : Machine) (s s' : Station σ)
    (msg : Message) : Prop where
  offered : Session start [.offeredTx 0] [] (start.withMachine m)
  sent : Session start [.offeredTx 0, .sent 0 msg] [msg] s
  collected : Session s [.collectedTx ⟨0, 512⟩] [] s'
  obeys : Obeys (Cores.txRule start.cores) [.offeredTx 0, .sent 0 msg, .collectedTx ⟨0, 512⟩]

/-- The first announcement on a link that was set up can be collected. -/
theorem Firmware.AnnouncedFirst.collect {σ : Type} {p : Site} {memory : Memory} {h : p.Fits memory}
    {start s : Station σ} {m : Machine} {name : String} {handler : Handler σ}
    {slot : Fin maxChannels} (first : AnnouncedFirst start m name handler slot s)
    (starts : h.Starts start) :
    ∃ m', CollectedFirst start m s (s.withMachine m') (announcement name firstLocalAddr) := by
  have fresh := starts.fresh
  have inRing : (0 : UInt16).toNat < start.cores.tx.layout.num.toNat := Layout.num_pos _
  have offered : Session start [.offeredTx 0] [] (start.withMachine m) :=
    Session.start.peer first.offered (.single first.offer) (by simp [Act.byPeer])
  have called := Called.created first.created
  have addr : (start.withMachine m).mux.nextAddr = firstLocalAddr := starts.mux.nextAddr
  rw [addr] at called
  have said := first.sent
  generalize announcement name firstLocalAddr = msg at said called ⊢
  have sent : Session start [.offeredTx 0, .sent 0 msg] [msg] s :=
    offered.call called (.single said) rfl
  have obeys : Obeys (Cores.txRule start.cores) [.offeredTx 0, .sent 0 msg] := by
    have has : (0 : UInt16).toNat ∈ peerHas start.cores.tx.layout.num.toNat [] :=
      List.mem_range.mpr inRing
    have offers : Obeys (Cores.txRule start.cores) [.offeredTx 0] := Obeys.nil.concat has
    exact offers.concat trivial
  -- The announcement waits in the used ring.
  have path := sent.path.1
  have kept := path.txKept fresh.ready obeys
  have next : s.cores.txDriver.nextUsed? s.cores.memory = some ⟨0, 512⟩ := by
    have queue : s.cores.txEnds.queues.returned = [⟨0, 512⟩] := kept.waiting_eq.symm
    show s.cores.txEnds.queues.returned.head? = _
    rw [queue]
    rfl
  have held : (s.run.machine.cores s.mux.tx s.mux.rx).Holds (⟨0, 512⟩ : UsedElem).id.toUInt16 msg :=
    path.mailed fresh.ready fresh.disjoint obeys 0 msg (List.mem_singleton_self _)
  obtain ⟨m', received, collected⟩ :=
    held.receive (path.placed fresh.ready.placed) (Layout.num_pos _) next
  have after : Session s [.collectedTx ⟨0, 512⟩] [] (s.withMachine m') :=
    Session.start.peer received (.single collected) (by simp [Act.byPeer])
  exact ⟨m', offered, sent, after, obeys.concat trivial⟩

/-- On a link that was set up, the peer offers a buffer, a channel is announced in it, and the peer
collects it. What it then reads, again and again, is the announcement. -/
theorem messages_arrive_in_order_after_announcement :
    ∃ (start s : Station Unit) (bus : Bus), twoBuffers.setUp () threePages = .ok (.ok start, bus) ∧
      let msg := Firmware.announcement "log" firstLocalAddr
      Session start [.offeredTx 0, .sent 0 msg, .collectedTx ⟨0, 512⟩] [msg] s ∧
        Peer.contents ⟨0, 512⟩ s.run.machine =
          .ok (⟨0, 512, some (msg.header, msg.data)⟩, s.run.machine) := by
  obtain ⟨start, bus, run, starts⟩ := fits_threePages.setUp ()
  have fresh := starts.fresh
  obtain ⟨m, slot, s, first⟩ :=
    Firmware.announce_first starts "log" (fun _ _ app => (.done, app)) (by decide)
  obtain ⟨m', mail⟩ := first.collect starts
  have session := mail.sent.append mail.collected
  obtain ⟨arrives, -⟩ := messages_arrive_in_order fresh.ready fresh.disjoint session mail.obeys
  obtain ⟨msg, said, reads⟩ := arrives [.offeredTx 0, .sent 0 _] ⟨0, 512⟩ [] [] _ rfl rfl
    (fun _ mem => absurd mem List.not_mem_nil) session.path.1
  cases said
  have read := reads m' rfl rfl
  obtain ⟨buffer, -⟩ := fresh.writable 0 (by decide)
  have id : (⟨0, 512⟩ : UsedElem).id.toUInt16 = 0 := rfl
  rw [id, buffer, Firmware.cutTo_announcement "log" firstLocalAddr (by decide)] at read
  exact ⟨start, s.withMachine m', bus, run, session, read⟩

end Link

end InterCore
