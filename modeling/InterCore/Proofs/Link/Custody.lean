import InterCore.Proofs.Link.Effects
import InterCore.Proofs.Ring.Account

/-!
# The outgoing ring in a history

If the peer offers only outgoing buffers that it has and writes nothing into the outgoing ring, the
account of who has which buffer is true of every history of the link (`Path.txKept`): the firmware
keeps no buffer beyond a step, so each is with the peer or in one of the two queues of the ring.
-/

namespace InterCore.Link

open InterCore.Packet (Header maxLen)
open InterCore.Ring

/-- What a history did to the outgoing ring. -/
def txRecords (acts : List Act) : List Record :=
  acts.flatMap fun
    | .skipped idx => [(.take, .index (some idx)), (.publish idx 0 true, .done)]
    | .sent idx _ => [(.take, .index (some idx)), (.publish idx (UInt32.ofNat maxLen) true, .done)]
    | .offeredTx idx => [(.offer idx, .done)]
    | .collectedTx x => [(.takeUsed, .elem (some x))]
    | _ => []

theorem txRecords_append (acts acts' : List Act) :
    txRecords (acts ++ acts') = txRecords acts ++ txRecords acts' :=
  List.flatMap_append

/-- The outgoing buffers that the peer has after a history, if it had all of them at first. -/
def peerHas (num : Nat) (acts : List Act) : List Nat :=
  (custody num (txRecords acts)).driver

namespace Cores

variable {c₀ c c' : Cores} {acts : List Act} {act : Act} {idx : UInt16} {len : UInt32}

/-- What is true of the outgoing ring after a history that started at `c₀` with an empty ring. -/
structure TxKept (c₀ : Cores) (acts : List Act) (c : Cores) : Prop where
  same : SameRings c₀ c
  sound : c.txEnds.Sound
  circulates : Circulates c₀.tx.layout.num.toNat (txRecords acts) c.txEnds.queues
  idle : (custody c₀.tx.layout.num.toNat (txRecords acts)).device = []
  holds : c.txEnds.queues.Holds (txRecords acts)
  buffers : ∀ i : UInt16, i.toNat < c₀.tx.layout.num.toNat → c.txBuffer i = c₀.txBuffer i

namespace TxKept

theorem num (h : TxKept c₀ acts c) : c.tx.layout.num.toNat = c₀.tx.layout.num.toNat := by
  rw [h.same.tx]

theorem driver_num (h : TxKept c₀ acts c) :
    c.txDriver.layout.num.toNat = c₀.tx.layout.num.toNat := by
  have one : c.tx.layout = c.txDriver.layout := h.sound.oneRing
  rw [← one, h.num]

/-- The account of the ring alone. -/
theorem ends (h : TxKept c₀ acts c) : c.txEnds.Kept c₀.tx.layout.num.toNat (txRecords acts) :=
  ⟨h.sound, h.driver_num, h.circulates, h.holds⟩

theorem of_ends (ends : c.txEnds.Kept c₀.tx.layout.num.toNat (txRecords acts)) (same : SameRings c₀ c)
    (idle : (custody c₀.tx.layout.num.toNat (txRecords acts)).device = [])
    (buffers : ∀ i : UInt16, i.toNat < c₀.tx.layout.num.toNat → c.txBuffer i = c₀.txBuffer i) :
    TxKept c₀ acts c :=
  ⟨same, ends.sound, ends.circulates, idle, ends.holds, buffers⟩

/-- Every descriptor that the firmware can take is one of the ring. -/
theorem lt_of_offered (h : TxKept c₀ acts c) (mem : idx ∈ c.txEnds.queues.offered) :
    idx.toNat < c₀.tx.layout.num.toNat :=
  (h.ends.of_offered mem).1

/-- A step that has nothing to do with the outgoing ring. -/
theorem elsewhere (h : TxKept c₀ acts c) (records : txRecords [act] = [])
    (same : SameRings c c') (driver : c'.txDriver = c.txDriver) (device : c'.tx = c.tx)
    (agree : c.memory.AgreeOn c'.memory c.tx.layout.span.start c.tx.layout.span.stop) :
    TxKept c₀ (acts ++ [act]) c' := by
  have one : c.tx.layout = c.txDriver.layout := h.sound.oneRing
  have avail := c.txDriver.layout.avail_eq
  have within : c.txDriver.layout.Within c'.memory := (same.within _).mpr h.sound.within
  rw [one] at agree
  have kept := Ends.Kept.elsewhere h.ends within
    (agree.mono (by simp only [Layout.span]; omega) (Nat.le_refl _))
  have ends : c'.txEnds = .on c'.memory c.txDriver c.tx := by
    rw [txEnds, driver, device]
  have all : txRecords (acts ++ [act]) = txRecords acts := by
    rw [txRecords_append, records, List.append_nil]
  refine of_ends ?_ (h.same.trans same) ?_ ?_
  · rw [ends, all]
    exact kept
  · rw [all]
    exact h.idle
  · intro i inRing
    rw [← h.buffers i inRing, txBuffer, txBuffer, device, one]
    have own : i.toNat < c.txDriver.layout.num.toNat := h.driver_num ▸ inRing
    have bounds := Layout.descriptor_bounds own
    have areas := c.txDriver.layout.avail_add_le_used
    have stop := c.txDriver.layout.ringEnd_eq
    refine Layout.buffer_agree (agree.mono bounds.1 ?_)
    simp only [Layout.span]
    omega

/-- A step that takes the next buffer, perhaps fills it, and hands it back. -/
theorem handedBack (h : TxKept c₀ acts c) {m : Memory} (next : c.tx.next? c.memory = some idx)
    (records : txRecords [act] =
      [(.take, .index (some idx)), (.publish idx len true, .done)])
    (base : m.base = c.memory.base) (size : m.size = c.memory.size)
    (agree : c.memory.AgreeOn m c.tx.layout.span.start c.tx.layout.span.stop) :
    TxKept c₀ (acts ++ [act]) { c with
      memory := m.after (c.tx.handBackEvents m idx len)
      tx := c.tx.advance } := by
  have one : c.tx.layout = c.txDriver.layout := h.sound.oneRing
  have avail := c.txDriver.layout.avail_eq
  have within : c.txDriver.layout.Within m := by
    rw [Layout.Within, base, size]
    exact h.sound.within
  rw [one] at agree
  have taken := Ends.Kept.elsewhere (Ends.Kept.advancing h.ends next) within
    (agree.mono (by simp only [Layout.span]; omega) (Nat.le_refl _))
  -- Between its two uses of the ring the firmware has this buffer alone.
  have has : custody c₀.tx.layout.num.toNat (txRecords acts ++ [(.take, .index (some idx))]) =
      ⟨peerHas c₀.tx.layout.num.toNat acts, [idx.toNat]⟩ := by
    rw [custody_append, peerHas, ← h.idle]
    rfl
  have owned : Owned c₀.tx.layout.num.toNat (txRecords acts ++ [(.take, .index (some idx))])
      (.publish idx len true) := by
    rw [Owned, has]
    exact List.mem_singleton_self _
  have all : txRecords (acts ++ [act]) =
      txRecords acts ++ [(.take, .index (some idx))] ++ [(.publish idx len true, .done)] := by
    simp [txRecords_append, records]
  refine of_ends ?_ (h.same.trans ⟨?_, ?_, rfl, rfl, rfl, rfl⟩) ?_ ?_
  · rw [all]
    exact Ends.Kept.handingBack taken owned
  · rw [Memory.base_after, base]
  · rw [Memory.size_after, size]
  · rw [all, custody_append, has]
    simp [movesIn, Custody.after]
  · intro i inRing
    have own : i.toNat < c.tx.layout.num.toNat := h.num ▸ inRing
    have within' : c.tx.layout.Within m := one ▸ within
    have bounds := Layout.descriptor_bounds own
    have areas := c.txDriver.layout.avail_add_le_used
    have stop := c.txDriver.layout.ringEnd_eq
    rw [one] at bounds
    rw [← h.buffers i inRing, txBuffer, txBuffer]
    refine (Device.buffer_handBack within' own).trans (Layout.buffer_agree ?_)
    rw [one]
    refine agree.mono bounds.1 ?_
    simp only [Layout.span]
    omega

/-- The peer offers a buffer that it has. -/
theorem offered (h : TxKept c₀ acts c) (owned : idx.toNat ∈ peerHas c₀.tx.layout.num.toNat acts) :
    TxKept c₀ (acts ++ [.offeredTx idx]) { c with
      memory := c.memory.after (c.txDriver.offerEvents idx)
      txDriver := c.txDriver.offering } := by
  have one : c.tx.layout = c.txDriver.layout := h.sound.oneRing
  have owned : Owned c₀.tx.layout.num.toNat (txRecords acts) (.offer idx) := owned
  refine of_ends ?_ (h.same.trans ⟨?_, ?_, rfl, rfl, rfl, rfl⟩) ?_ ?_
  · rw [txRecords_append]
    exact Ends.Kept.offering h.ends owned
  · rw [Memory.base_after]
  · rw [Memory.size_after]
  · rw [txRecords_append, custody_append]
    exact h.idle
  · intro i inRing
    have own : i.toNat < c.txDriver.layout.num.toNat := h.driver_num ▸ inRing
    rw [← h.buffers i inRing, txBuffer, txBuffer, one]
    exact Driver.buffer_offer h.sound.within own

/-- The peer collects a buffer. -/
theorem collected (h : TxKept c₀ acts c) {x : UsedElem}
    (next : c.txDriver.nextUsed? c.memory = some x) :
    TxKept c₀ (acts ++ [.collectedTx x]) { c with txDriver := c.txDriver.collecting } := by
  refine of_ends ?_ (h.same.trans ⟨rfl, rfl, rfl, rfl, rfl, rfl⟩) ?_ h.buffers
  · rw [txRecords_append]
    exact Ends.Kept.collecting h.ends next
  · rw [txRecords_append, custody_append]
    exact h.idle

end TxKept

/-- What the peer may do to the outgoing direction: it offers only buffers that it has, and
otherwise writes nothing into the ring or into a buffer that it has offered. -/
def txRule (c₀ : Cores) (before : List Act) : Act → Prop
  | .offeredTx idx => idx.toNat ∈ peerHas c₀.tx.layout.num.toNat before
  | .wrote addr bytes =>
    Event.Misses c₀.tx.layout.span.start c₀.tx.layout.span.stop (.write addr bytes) ∧
      ∀ i : UInt16, i.toNat < c₀.tx.layout.num.toNat →
        i.toNat ∉ peerHas c₀.tx.layout.num.toNat before →
          Event.Misses (c₀.txBuffer i).span.start (c₀.txBuffer i).span.stop (.write addr bytes)
  | _ => True

/-- The firmware takes the next buffer, which is one of the ring. -/
theorem TxKept.buffer_of_next (h : TxKept c₀ acts c) (next : c.tx.next? c.memory = some idx) :
    idx.toNat < c₀.tx.layout.num.toNat ∧ idx ∈ c.txEnds.queues.offered ∧
      c.txBuffer idx = c₀.txBuffer idx := by
  obtain ⟨-, -, head⟩ := h.sound.advancing next
  have mem : idx ∈ c.txEnds.queues.offered := List.mem_of_mem_head? head
  have inRing := h.lt_of_offered mem
  exact ⟨inRing, mem, h.buffers idx inRing⟩

/-- The firmware takes next what lies first in the ring. -/
theorem TxKept.next?_eq (h : TxKept c₀ acts c) :
    c.tx.next? c.memory = c.txEnds.queues.offered.head? := by
  have one : c.tx.layout = c.txDriver.layout := h.sound.oneRing
  rw [Device.next?, one]
  rfl

theorem TxKept.step (h : TxKept c₀ acts c) (separate : c₀.Separate) (placed : c.Placed)
    (step : Step c act c') (rule : txRule c₀ acts act) : TxKept c₀ (acts ++ [act]) c' := by
  have rings : c.tx.layout.span.Apart c.rx.layout.span := by
    rw [h.same.tx, h.same.rx]
    exact separate.rings
  have same := step.sameRings
  have agree (spares : act.Spares c c.tx.layout.span) := step.agreeOn placed spares
  cases step with
  | skipped next short => exact h.handedBack next rfl rfl rfl fun _ _ _ => rfl
  | @sent idx msg next roomy fits =>
    obtain ⟨inRing, -, buffer⟩ := h.buffer_of_next next
    have apart : c.tx.layout.span.Apart (c.txBuffer idx).span := by
      rw [h.same.tx, buffer]
      exact (separate.fromTx idx inRing).symm
    rw [sendEvents, Memory.after_append]
    exact h.handedBack next rfl (Memory.base_after _ _) (Memory.size_after _ _)
      (agreeOn_fill roomy fits apart)
  | offeredTx idx => exact h.offered rule
  | collectedTx next => exact h.collected next
  | returned idx => exact h.elsewhere rfl same rfl rfl (agree rings)
  | offeredRx idx =>
    rw [placed.rxOne] at rings
    exact h.elsewhere rfl same rfl rfl (agree rings)
  | wrote fits =>
    have misses := rule.1
    rw [← h.same.tx] at misses
    exact h.elsewhere rfl same rfl rfl (agree misses)
  | _ => exact h.elsewhere rfl same rfl rfl fun _ _ _ => rfl

/-- A link at its start: the rings and the buffers have their places, and the outgoing ring is
empty. -/
structure Ready (c : Cores) : Prop where
  sound : c.txEnds.Sound
  empty : c.txEnds.queues = {}
  rxOne : c.rx.layout = c.rxDriver.layout
  rxWithin : c.rx.layout.Within c.memory
  separate : c.Separate

theorem Ready.placed (h : c.Ready) : c.Placed := by
  have one : c.tx.layout = c.txDriver.layout := h.sound.oneRing
  exact ⟨one, h.rxOne, one ▸ h.sound.within, h.rxWithin⟩

theorem Ready.txKept (h : c.Ready) : TxKept c [] c := by
  refine ⟨.refl c, h.sound, ?_, rfl, ?_, fun _ _ => rfl⟩
  · rw [h.empty]
    exact .start _
  · rw [h.empty]
    exact ⟨rfl, rfl⟩

/-- The account of the outgoing ring along every history in which the peer keeps to its rule. -/
theorem Path.txKept (h : Path c₀ acts c) (ready : c₀.Ready) (obeys : Obeys (txRule c₀) acts) :
    TxKept c₀ acts c := by
  induction h with
  | start => exact ready.txKept
  | step before last ih =>
    obtain ⟨earlier, now⟩ := obeys.snoc
    exact (ih earlier).step ready.separate (before.placed ready.placed) last now

end Cores

end InterCore.Link
