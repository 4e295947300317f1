import InterCore.Link.Outgoing
import InterCore.Proofs.Packet.Codec
import InterCore.Proofs.Ring.Handover
import Mathlib.Data.List.Induction

/-!
# A link in steps

What the two cores do to a link, one step at a time. Between two steps of one core the other one can
do any number of its own. A step is a change of `Cores`: the memory, both ends of both rings, and
the kicks of the incoming direction. `Path` is a sequence of steps with the record of what happened.
Every path keeps the rings where they are (`Path.sameRings`).
-/

namespace InterCore.Ring

/-- The addresses from one up to another. -/
structure Span where
  start : Nat
  stop : Nat
  deriving DecidableEq, Repr

/-- Two spans do not overlap. -/
def Span.Apart (a b : Span) : Prop :=
  a.stop ≤ b.start ∨ b.stop ≤ a.start

instance (a b : Span) : Decidable (a.Apart b) :=
  inferInstanceAs (Decidable (_ ∨ _))

theorem Span.Apart.symm {a b : Span} (h : a.Apart b) : b.Apart a :=
  Or.symm h

/-- Where a ring lies. -/
def Layout.span (l : Layout) : Span :=
  ⟨l.base.toNat, l.ringEnd⟩

/-- How many bytes of a buffer a packet can use. -/
def Buffer.capacity (b : Buffer) : Nat :=
  min b.len.toNat Packet.maxLen

/-- Where a packet in a buffer can be. -/
def Buffer.span (b : Buffer) : Span :=
  ⟨b.addr.toNat, b.addr.toNat + b.capacity⟩

end InterCore.Ring

namespace InterCore.Link

open InterCore.Packet (Header maxLen)
open InterCore.Ring (Device Driver UsedElem)

/-- What one packet says, and between which addresses. -/
structure Message where
  src : UInt32
  dst : UInt32
  data : List UInt8
  deriving DecidableEq, Repr

namespace Message

/-- The message as far as it fits into a buffer of `len` bytes. -/
def cutTo (msg : Message) (len : UInt32) : Message :=
  { msg with data := fitting len msg.data }

/-- The header that a message is sent with. -/
def header (msg : Message) : Header :=
  { src := msg.src, dst := msg.dst, len := UInt16.ofNat msg.data.length }

/-- The packet as it stands in a buffer. -/
def bytes (msg : Message) : List UInt8 :=
  msg.header.encode ++ msg.data

/-- The events that put the packet into a buffer. -/
def events (msg : Message) (addr : Nat) : List Event :=
  [.write addr msg.header.encode, .write (addr + Header.size) msg.data,
    .flush addr (Header.size + msg.data.length)]

end Message

/-- The events that put a message into an outgoing buffer, as far as it fits. -/
def fillEvents (tx : Device) (m : Memory) (idx : UInt16) (msg : Message) : List Event :=
  (msg.cutTo (tx.layout.buffer m idx).len).events (tx.layout.buffer m idx).addr.toNat

/-- The events that put a message into an outgoing buffer and hand it back. -/
def sendEvents (tx : Device) (m : Memory) (idx : UInt16) (msg : Message) : List Event :=
  fillEvents tx m idx msg ++
    tx.handBackEvents (m.after (fillEvents tx m idx msg)) idx (UInt32.ofNat maxLen)

/-- Both cores, as far as they have to do with the two rings. -/
structure Cores where
  memory : Memory
  /-- The kicks of the incoming direction that the firmware has not taken. -/
  rxKicks : KickCounter
  txDriver : Driver
  rxDriver : Driver
  tx : Device
  rx : Device

/-- What happened in a step. -/
inductive Act where
  /-- The firmware handed an outgoing buffer back that has no room for a header. -/
  | skipped (idx : UInt16)
  /-- The firmware put a message into an outgoing buffer, as far as it fits, and handed it back. -/
  | sent (idx : UInt16) (msg : Message)
  /-- The firmware took a kick and looked for a packet. -/
  | woke (idx? : Option UInt16)
  /-- The firmware took a further packet. -/
  | took (idx : UInt16)
  /-- The firmware handed an incoming buffer back. -/
  | returned (idx : UInt16)
  | offeredTx (idx : UInt16)
  | collectedTx (x : UsedElem)
  | offeredRx (idx : UInt16)
  | collectedRx (x : UsedElem)
  /-- The peer wrote into the memory, not as a part of an offer. -/
  | wrote (addr : Nat) (bytes : List UInt8)
  /-- The peer raised a kick of the incoming direction. -/
  | kickedRx
  deriving DecidableEq, Repr

namespace Act

/-- The peer did it. -/
def byPeer : Act → Bool
  | offeredTx _ | collectedTx _ | offeredRx _ | collectedRx _ | wrote _ _ | kickedRx => true
  | skipped _ | sent _ _ | woke _ | took _ | returned _ => false

/-- The packet that the firmware took. -/
def taken : Act → Option UInt16
  | woke idx? => idx?
  | took idx => some idx
  | _ => none

/-- The packet that the peer offered. -/
def offered : Act → Option UInt16
  | offeredRx idx => some idx
  | _ => none

/-- The firmware takes a packet when it looks for one after a kick, or goes on to it from
another. -/
theorem of_taken {act : Act} {idx : UInt16} (h : act.taken = some idx) :
    act = took idx ∨ act = woke (some idx) := by
  cases act with
  | took i => exact .inl (congrArg took (Option.some.inj h))
  | woke idx? => exact .inr (congrArg woke h)
  | _ => cases h

/-- Packets are taken by the firmware. -/
theorem taken_of_byPeer {act : Act} (peer : act.byPeer = true) : act.taken = none := by
  cases act with
  | woke idx? => cases peer
  | took idx => cases peer
  | _ => rfl

/-- Packets are offered by the peer. -/
theorem offered_of_not_byPeer {act : Act} (mine : act.byPeer = false) : act.offered = none := by
  cases act with
  | offeredRx idx => cases mine
  | _ => rfl

end Act

/-- The messages that were sent, in order. -/
def sentIn (acts : List Act) : List Message :=
  acts.filterMap fun
    | .sent _ msg => some msg
    | _ => none

@[simp]
theorem sentIn_append (acts acts' : List Act) : sentIn (acts ++ acts') = sentIn acts ++ sentIn acts' :=
  List.filterMap_append

theorem sentIn_byPeer {acts : List Act} (h : ∀ act ∈ acts, act.byPeer) : sentIn acts = [] := by
  apply List.filterMap_eq_nil_iff.mpr
  intro act mem
  have peer := h act mem
  cases act with
  | sent idx msg => cases peer
  | _ => rfl

/-- What the firmware did with the packets of the incoming ring: it takes them and hands their
buffers back. -/
def served (acts : List Act) : List Ring.Record :=
  acts.flatMap fun
    | .woke idx? => idx?.toList.map fun idx => (.take, .index (some idx))
    | .took idx => [(.take, .index (some idx))]
    | .returned idx => [(.publish idx (UInt32.ofNat maxLen) true, .done)]
    | _ => []

@[simp]
theorem served_append (acts acts' : List Act) : served (acts ++ acts') = served acts ++ served acts' :=
  List.flatMap_append

theorem served_byPeer {acts : List Act} (h : ∀ act ∈ acts, act.byPeer) : served acts = [] := by
  apply List.flatMap_eq_nil_iff.mpr
  intro act mem
  have peer := h act mem
  cases act with
  | woke idx? => cases peer
  | took idx => cases peer
  | returned idx => cases peer
  | _ => rfl

/-- Each act of a history is one that a rule admits after those before it. -/
def Obeys (rule : List Act → Act → Prop) (acts : List Act) : Prop :=
  ∀ before act after, acts = before ++ act :: after → rule before act

theorem Obeys.init {rule : List Act → Act → Prop} {acts acts' : List Act}
    (h : Obeys rule (acts ++ acts')) : Obeys rule acts := by
  rintro before act after rfl
  exact h before act (after ++ acts') (by simp)

theorem Obeys.snoc {rule : List Act → Act → Prop} {acts : List Act} {act : Act}
    (h : Obeys rule (acts ++ [act])) : Obeys rule acts ∧ rule acts act := by
  exact ⟨h.init, h acts act [] rfl⟩

theorem Obeys.mono {rule rule' : List Act → Act → Prop} {acts : List Act} (h : Obeys rule acts)
    (less : ∀ before act, rule before act → rule' before act) : Obeys rule' acts :=
  fun before act after split => less before act (h before act after split)

theorem Obeys.nil {rule : List Act → Act → Prop} : Obeys rule [] := by
  intro before act after split
  cases before <;> cases split

theorem Obeys.concat {rule : List Act → Act → Prop} {acts : List Act} {act : Act}
    (h : Obeys rule acts) (last : rule acts act) : Obeys rule (acts ++ [act]) := by
  intro before act' after split
  rcases List.eq_nil_or_concat after with rfl | ⟨after', act'', rfl⟩
  · obtain ⟨rfl, same⟩ := List.append_inj' split rfl
    rwa [← List.singleton_inj.mp same]
  · rw [List.concat_eq_append, ← List.cons_append, ← List.append_assoc] at split
    obtain ⟨rfl, -⟩ := List.append_inj' split rfl
    exact h before act' after' rfl

namespace Cores

variable {c c' c'' : Cores}

/-- The outgoing buffer of a descriptor. -/
def txBuffer (c : Cores) (idx : UInt16) : Ring.Buffer :=
  c.tx.layout.buffer c.memory idx

/-- One step of either core. -/
inductive Step : Cores → Act → Cores → Prop where
  | skipped {c : Cores} {idx : UInt16} (next : c.tx.next? c.memory = some idx)
      (short : (c.txBuffer idx).len.toNat < Header.size) :
      Step c (.skipped idx) { c with
        memory := c.memory.after (c.tx.handBackEvents c.memory idx 0)
        tx := c.tx.advance }
  | sent {c : Cores} {idx : UInt16} {msg : Message} (next : c.tx.next? c.memory = some idx)
      (roomy : Header.size ≤ (c.txBuffer idx).len.toNat)
      (fits : ∀ e ∈ fillEvents c.tx c.memory idx msg, e.Fits c.memory) :
      Step c (.sent idx msg) { c with
        memory := c.memory.after (sendEvents c.tx c.memory idx msg)
        tx := c.tx.advance }
  | wokeInVain {c : Cores} {k : KickCounter} (kick : c.rxKicks.take? = some k)
      (next : c.rx.next? c.memory = none) : Step c (.woke none) { c with rxKicks := k }
  | woke {c : Cores} {k : KickCounter} {idx : UInt16} (kick : c.rxKicks.take? = some k)
      (next : c.rx.next? c.memory = some idx) :
      Step c (.woke (some idx)) { c with rxKicks := k, rx := c.rx.advance }
  | took {c : Cores} {idx : UInt16} (next : c.rx.next? c.memory = some idx) :
      Step c (.took idx) { c with rx := c.rx.advance }
  | returned {c : Cores} (idx : UInt16) :
      Step c (.returned idx) { c with
        memory := c.memory.after (c.rx.handBackEvents c.memory idx (UInt32.ofNat maxLen)) }
  | offeredTx {c : Cores} (idx : UInt16) :
      Step c (.offeredTx idx) { c with
        memory := c.memory.after (c.txDriver.offerEvents idx)
        txDriver := c.txDriver.offering }
  | collectedTx {c : Cores} {x : UsedElem} (next : c.txDriver.nextUsed? c.memory = some x) :
      Step c (.collectedTx x) { c with txDriver := c.txDriver.collecting }
  | offeredRx {c : Cores} (idx : UInt16) :
      Step c (.offeredRx idx) { c with
        memory := c.memory.after (c.rxDriver.offerEvents idx)
        rxDriver := c.rxDriver.offering }
  | collectedRx {c : Cores} {x : UsedElem} (next : c.rxDriver.nextUsed? c.memory = some x) :
      Step c (.collectedRx x) { c with rxDriver := c.rxDriver.collecting }
  | wrote {c : Cores} {addr : Nat} {bytes : List UInt8} (fits : c.memory.Covers addr bytes.length) :
      Step c (.wrote addr bytes) { c with memory := c.memory.after [.write addr bytes] }
  | kickedRx {c : Cores} : Step c .kickedRx { c with rxKicks := c.rxKicks.signal }

theorem Step.memory_wrote {addr : Nat} {bytes : List UInt8} (h : Step c (.wrote addr bytes) c') :
    c.memory.Covers addr bytes.length ∧ c'.memory = c.memory.patch addr bytes := by
  cases h with
  | wrote fits => exact ⟨fits, rfl⟩

/-- A write that is not a part of an offer changes the memory only. -/
theorem Step.eq_of_wrote {addr : Nat} {bytes : List UInt8} (h : Step c (.wrote addr bytes) c') :
    c' = { c with memory := c.memory.patch addr bytes } := by
  cases h
  rfl

/-- Steps one after the other, with what happened in them. -/
inductive Path (start : Cores) : List Act → Cores → Prop where
  | start : Path start [] start
  | step {acts : List Act} {act : Act} {c c' : Cores} :
      Path start acts c → Step c act c' → Path start (acts ++ [act]) c'

namespace Path

variable {acts acts' : List Act} {act : Act}

theorem single (h : Step c act c') : Path c [act] c' :=
  Path.step .start h

theorem append (h : Path c acts c') (h' : Path c' acts' c'') : Path c (acts ++ acts') c'' := by
  induction h' with
  | start => rwa [List.append_nil]
  | step _ last ih =>
    rw [← List.append_assoc]
    exact ih.step last

/-- The last step of a path. -/
theorem unsnoc (h : Path c (acts ++ [act]) c'') : ∃ c', Path c acts c' ∧ Step c' act c'' := by
  generalize whole : acts ++ [act] = all at h
  cases h with
  | start => simp at whole
  | step before last =>
    obtain ⟨rfl, same⟩ := List.append_inj' whole rfl
    obtain rfl := List.singleton_inj.mp same
    exact ⟨_, before, last⟩

/-- A path can be cut anywhere. -/
theorem split (h : Path c (acts ++ acts') c'') : ∃ c', Path c acts c' ∧ Path c' acts' c'' := by
  induction acts' using List.reverseRecOn generalizing c'' with
  | nil => exact ⟨c'', by rwa [List.append_nil] at h, .start⟩
  | append_singleton acts' act ih =>
    rw [← List.append_assoc] at h
    obtain ⟨c₁, before, last⟩ := h.unsnoc
    obtain ⟨c', first, second⟩ := ih before
    exact ⟨c', first, second.step last⟩

end Path

/-! ## Where the rings are -/

/-- Neither the rings nor the window of the memory have moved. -/
structure SameRings (c c' : Cores) : Prop where
  base : c'.memory.base = c.memory.base
  size : c'.memory.size = c.memory.size
  txDriver : c'.txDriver.layout = c.txDriver.layout
  rxDriver : c'.rxDriver.layout = c.rxDriver.layout
  tx : c'.tx.layout = c.tx.layout
  rx : c'.rx.layout = c.rx.layout

theorem SameRings.refl (c : Cores) : SameRings c c :=
  ⟨rfl, rfl, rfl, rfl, rfl, rfl⟩

theorem SameRings.trans (h : SameRings c c') (h' : SameRings c' c'') : SameRings c c'' :=
  ⟨h'.base.trans h.base, h'.size.trans h.size, h'.txDriver.trans h.txDriver,
    h'.rxDriver.trans h.rxDriver, h'.tx.trans h.tx, h'.rx.trans h.rx⟩

theorem Step.sameRings {act : Act} (h : Step c act c') : SameRings c c' := by
  cases h <;> constructor <;> simp

theorem Path.sameRings {acts : List Act} (h : Path c acts c') : SameRings c c' := by
  induction h with
  | start => exact .refl _
  | step _ last ih => exact ih.trans last.sameRings

theorem SameRings.covers (h : SameRings c c') {addr len : Nat} :
    c'.memory.Covers addr len ↔ c.memory.Covers addr len := by
  rw [Memory.Covers, Memory.Covers, h.base, h.size]

theorem SameRings.within (h : SameRings c c') (l : Ring.Layout) :
    l.Within c'.memory ↔ l.Within c.memory := by
  rw [Ring.Layout.Within, Ring.Layout.Within, h.base, h.size]

/-- Both ends of each ring are at one ring, which lies within the memory. -/
structure Placed (c : Cores) : Prop where
  txOne : c.tx.layout = c.txDriver.layout
  rxOne : c.rx.layout = c.rxDriver.layout
  txWithin : c.tx.layout.Within c.memory
  rxWithin : c.rx.layout.Within c.memory

theorem SameRings.placed (h : SameRings c c') (placed : c.Placed) : c'.Placed := by
  refine ⟨?_, ?_, ?_, ?_⟩
  · rw [h.tx, h.txDriver, placed.txOne]
  · rw [h.rx, h.rxDriver, placed.rxOne]
  · rw [h.tx, h.within]
    exact placed.txWithin
  · rw [h.rx, h.within]
    exact placed.rxWithin

theorem Placed.txDriver_within (h : c.Placed) : c.txDriver.layout.Within c.memory :=
  h.txOne ▸ h.txWithin

theorem Placed.rxDriver_within (h : c.Placed) : c.rxDriver.layout.Within c.memory :=
  h.rxOne ▸ h.rxWithin

theorem Path.placed {acts : List Act} (h : Path c acts c') (placed : c.Placed) : c'.Placed :=
  h.sameRings.placed placed

end Cores

end InterCore.Link
