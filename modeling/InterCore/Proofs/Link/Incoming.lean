import InterCore.Proofs.Link.Mail
import InterCore.Proofs.Ring.Account

/-!
# The incoming ring in a history

If the peer offers only buffers that it has and writes nothing into a buffer that it does not have,
then each incoming buffer is at every moment with the peer, in one of the two queues of the ring, or
with the firmware, which has at most one (`Accounted`). The packets that wait are then left alone
until it is their turn (`Accounted.step`).
-/

namespace InterCore.Link

open InterCore.Packet (Header maxLen)
open InterCore.Ring

/-- What a history did to the incoming ring. -/
def rxRecords (acts : List Act) : List Record :=
  acts.flatMap fun
    | .woke idx? => idx?.toList.map fun idx => (.take, .index (some idx))
    | .took idx => [(.take, .index (some idx))]
    | .returned idx => [(.publish idx (UInt32.ofNat maxLen) true, .done)]
    | .offeredRx idx => [(.offer idx, .done)]
    | .collectedRx x => [(.takeUsed, .elem (some x))]
    | _ => []

theorem rxRecords_append (acts acts' : List Act) :
    rxRecords (acts ++ acts') = rxRecords acts ++ rxRecords acts' :=
  List.flatMap_append

/-- Who has which of `num` incoming buffers after a history, if the peer had all of them at
first. -/
def rxCustody (num : Nat) (acts : List Act) : Custody :=
  custody num (rxRecords acts)

/-- A history in which no packet was taken and none handed back is one of such acts. -/
theorem served_concat_eq_nil {acts : List Act} {act : Act} (h : served (acts ++ [act]) = []) :
    served acts = [] ∧ served [act] = [] := by
  rw [served_append] at h
  exact List.append_eq_nil_iff.mp h

namespace Cores

variable {c₀ c c' : Cores} {acts : List Act} {act : Act} {idx : UInt16} {held : Option UInt16}

/-- What the peer may do to the incoming direction: it offers only buffers that it has, and
otherwise writes nothing into the ring or into a buffer that it does not have. -/
def rxRule (c₀ : Cores) (before : List Act) : Act → Prop
  | .offeredRx idx => idx.toNat ∈ (rxCustody c₀.rx.layout.num.toNat before).driver
  | .wrote addr bytes =>
    Event.Misses c₀.rx.layout.span.start c₀.rx.layout.span.stop (.write addr bytes) ∧
      ∀ i : UInt16, i.toNat < c₀.rx.layout.num.toNat →
        i.toNat ∉ (rxCustody c₀.rx.layout.num.toNat before).driver →
          Event.Misses (c₀.rxBuffer i).span.start (c₀.rxBuffer i).span.stop (.write addr bytes)
  | _ => True

/-- What the peer may do to both directions. -/
def rule (c₀ : Cores) (before : List Act) (act : Act) : Prop :=
  txRule c₀ before act ∧ rxRule c₀ before act

/-- A link at its start: both rings are empty, and every buffer can be used. -/
structure Prepared (c : Cores) : Prop where
  ready : c.Ready
  disjoint : c.BuffersApart
  rxSound : c.rxEnds.Sound
  rxEmpty : c.rxEnds.queues = {}
  writable : ∀ i : UInt16, i.toNat < c.tx.layout.num.toNat → (c.txBuffer i).Reachable c.memory
  readable : ∀ i : UInt16, i.toNat < c.rx.layout.num.toNat → c.Readable i

theorem rxQueues_offered (sound : c.rxEnds.Sound) : c.rxEnds.queues.offered = c.incoming := by
  have one : c.rx.layout = c.rxDriver.layout := sound.oneRing
  rw [incoming, one]
  rfl

/-- What is true of both rings after a history that started at `c₀`. The firmware has the buffer
`held`, if any. -/
structure Accounted (c₀ : Cores) (acts : List Act) (held : Option UInt16) (c : Cores) : Prop where
  tx : TxKept c₀ acts c
  rx : c.rxEnds.Kept c₀.rx.layout.num.toNat (rxRecords acts)
  held : (rxCustody c₀.rx.layout.num.toNat acts).device = held.toList.map UInt16.toNat
  usable : c.Usable
  rxBuffers : ∀ i : UInt16, i.toNat < c₀.rx.layout.num.toNat → c.rxBuffer i = c₀.rxBuffer i

theorem Prepared.incoming_eq (h : c.Prepared) : c.incoming = [] := by
  rw [← rxQueues_offered h.rxSound, h.rxEmpty]

theorem Prepared.usable (h : c.Prepared) : c.Usable := by
  have noTx : c.outgoing = [] := by
    have one : c.tx.layout = c.txDriver.layout := h.ready.sound.oneRing
    have empty : c.txEnds.queues.offered = [] := congrArg Queues.offered h.ready.empty
    rw [outgoing, one]
    exact empty
  refine ⟨⟨h.ready.sound, h.rxSound, h.ready.separate, ?_⟩, ?_, ?_⟩
  · rw [noTx]
    exact fun _ waits => absurd waits List.not_mem_nil
  · rw [noTx]
    exact fun _ waits => absurd waits List.not_mem_nil
  · rw [h.incoming_eq]
    exact fun _ waits => absurd waits List.not_mem_nil

theorem Prepared.accounted (h : c.Prepared) : Accounted c [] none c := by
  have one : c.rx.layout = c.rxDriver.layout := h.rxSound.oneRing
  refine ⟨h.ready.txKept, .start h.rxSound ?_ h.rxEmpty, rfl, h.usable, fun _ _ => rfl⟩
  show c.rxDriver.layout.num.toNat = _
  rw [one]

/-- A link that was set up where it fits is prepared. -/
theorem Prepared.of_fits {p : Site} {m : Memory} (h : p.Fits m) : h.cores.Prepared := by
  have fresh := h.fresh
  have num := fresh.num
  have within : h.rxLayout.Within (m.after (Ring.Driver.createEvents h.txLayout p.txBuffers p.bufSize)) := by
    have inWindow : h.rxLayout.Within m := h.rx.inWindow
    exact inWindow.replay _
  obtain ⟨-, rxEmpty⟩ := Ring.Ends.sound_create within p.rxBuffers p.bufSize
  refine ⟨fresh.ready, fresh.disjoint, fresh.usable.order.rx, rxEmpty, ?_, ?_⟩
  · intro i inRing
    rw [num.1] at inRing
    exact (fresh.writable i inRing).2
  · intro i inRing
    rw [num.2] at inRing
    exact (fresh.readable i inRing).2

/-- The peer may write into an incoming buffer that overlaps with none that it does not have. -/
theorem Prepared.rule_wrote (h : c.Prepared) (inRing : idx.toNat < c.rx.layout.num.toNat)
    (alone : ∀ i : UInt16, i.toNat < c.rx.layout.num.toNat →
      i.toNat ∉ (rxCustody c.rx.layout.num.toNat acts).driver →
        (c.rxBuffer idx).span.Apart (c.rxBuffer i).span)
    {addr : Nat} {bytes : List UInt8} (lower : (c.rxBuffer idx).span.start ≤ addr)
    (upper : addr + bytes.length ≤ (c.rxBuffer idx).span.stop) :
    c.rule acts (.wrote addr bytes) := by
  obtain ⟨-, -, fromTx, fromRx, fromBuffers⟩ := h.readable idx inRing
  have misses {span : Span} (apart : (c.rxBuffer idx).span.Apart span) :
      Event.Misses span.start span.stop (.write addr bytes) := by
    simp only [Span.Apart] at apart
    simp only [Event.Misses]
    omega
  exact ⟨⟨misses fromTx, fun i inTx _ => misses (fromBuffers i inTx)⟩, misses fromRx,
    fun i inRx away => misses (alone i inRx away)⟩

/-- The peer may put a packet into such a buffer if it has it, and offer it then. -/
theorem Prepared.obeys_posts (h : c.Prepared) (obeys : Obeys c.rule acts)
    (inRing : idx.toNat < c.rx.layout.num.toNat)
    (mine : idx.toNat ∈ (rxCustody c.rx.layout.num.toNat acts).driver)
    (alone : ∀ i : UInt16, i.toNat < c.rx.layout.num.toNat →
      i.toNat ∉ (rxCustody c.rx.layout.num.toNat acts).driver →
        (c.rxBuffer idx).span.Apart (c.rxBuffer i).span)
    {q : Message} (fits : Header.size + q.data.length ≤ (c.rxBuffer idx).capacity) :
    let addr := (c.rxBuffer idx).addr.toNat
    Obeys c.rule (acts ++
      [.wrote addr q.header.encode, .wrote (addr + Header.size) q.data, .offeredRx idx]) := by
  intro addr
  have header : q.header.encode.length = Header.size := Header.length_encode _
  have stop : (c.rxBuffer idx).span.stop = addr + (c.rxBuffer idx).capacity := rfl
  have same (before : List Act) (addr : Nat) (bytes : List UInt8) :
      rxCustody c.rx.layout.num.toNat (before ++ [.wrote addr bytes]) =
        rxCustody c.rx.layout.num.toNat before := by
    rw [rxCustody, rxRecords_append, rxCustody]
    exact congrArg _ (List.append_nil _)
  have first : c.rule acts (.wrote addr q.header.encode) :=
    h.rule_wrote inRing alone (Nat.le_refl _) (by omega)
  have second : c.rule (acts ++ [.wrote addr q.header.encode])
      (.wrote (addr + Header.size) q.data) := by
    refine h.rule_wrote inRing ?_ (Nat.le_add_right _ _) (by omega)
    rw [same]
    exact alone
  have third : c.rule (acts ++ [.wrote addr q.header.encode] ++ [.wrote (addr + Header.size) q.data])
      (.offeredRx idx) := by
    refine ⟨trivial, ?_⟩
    rw [rxRule, same, same]
    exact mine
  have all := ((obeys.concat first).concat second).concat third
  rwa [List.append_assoc, List.append_assoc] at all

namespace Accounted

variable {incoming : List UInt16}

theorem num (h : Accounted c₀ acts held c) : c.rx.layout.num.toNat = c₀.rx.layout.num.toNat := by
  rw [h.tx.same.rx]

/-- The incoming buffers can be read at all times. -/
theorem readable (h : Accounted c₀ acts held c) (prepared : c₀.Prepared)
    (inRing : idx.toNat < c₀.rx.layout.num.toNat) : c.Readable idx := by
  have same := h.tx.same
  have buffer := h.rxBuffers idx inRing
  obtain ⟨-, reachable, fromTx, fromRx, fromBuffers⟩ := prepared.readable idx inRing
  refine ⟨?_, ?_, ?_, ?_, ?_⟩
  · rw [h.num]
    exact inRing
  · rw [buffer]
    exact same.reachable.mpr reachable
  · rw [buffer, same.tx]
    exact fromTx
  · rw [buffer, same.rx]
    exact fromRx
  · intro i inTx
    rw [same.tx] at inTx
    rw [buffer, h.tx.buffers i inTx]
    exact fromBuffers i inTx

theorem waits (h : Accounted c₀ acts held c) (mem : idx ∈ c.incoming) :
    idx.toNat < c₀.rx.layout.num.toNat ∧
      idx.toNat ∉ (rxCustody c₀.rx.layout.num.toNat acts).driver := by
  rw [← rxQueues_offered h.usable.order.rx] at mem
  exact h.rx.of_offered mem

/-- A peer that keeps to its rule leaves the packets alone that wait. -/
theorem considerate (h : Accounted c₀ acts held c) (prepared : c₀.Prepared)
    (admitted : rule c₀ acts act) : c.Considerate (fun _ => True) act := by
  obtain ⟨tx, rx⟩ := admitted
  cases act with
  | offeredTx idx =>
    have inRing : idx.toNat < c₀.tx.layout.num.toNat := h.tx.ends.lt_of_driver tx
    refine ⟨by rw [h.tx.num]; exact inRing, ?_⟩
    rw [h.tx.buffers idx inRing]
    exact h.tx.same.reachable.mpr (prepared.writable idx inRing)
  | offeredRx idx =>
    have owned : Owned c₀.rx.layout.num.toNat (rxRecords acts) (.offer idx) := rx
    have inRing : idx.toNat < c₀.rx.layout.num.toNat := h.rx.lt_of_driver rx
    refine ⟨h.readable prepared inRing, ?_⟩
    rw [← rxQueues_offered h.usable.order.rx, h.num]
    exact h.rx.circulates.conserved.room owned
  | wrote addr bytes =>
    refine ⟨⟨?_, ?_⟩, ?_⟩
    · rw [h.tx.same.tx]
      exact tx.1
    · rw [h.tx.same.rx]
      exact rx.1
    · intro idx waits _
      obtain ⟨inRing, away⟩ := h.waits waits
      rw [h.rxBuffers idx inRing]
      exact rx.2 idx inRing away
  | _ => trivial

theorem orderly (h : Accounted c₀ acts held c) (prepared : c₀.Prepared)
    (admitted : rule c₀ acts act) : c.Orderly act := by
  have fair := h.considerate prepared admitted
  cases act with
  | offeredTx idx => exact fair.1
  | wrote addr bytes => exact fair.1
  | _ => trivial

/-- A step that has nothing to do with the incoming ring. -/
theorem kept_elsewhere (h : Accounted c₀ acts held c) (records : rxRecords [act] = [])
    (same : SameRings c c') (driver : c'.rxDriver = c.rxDriver) (device : c'.rx = c.rx)
    (agree : c.memory.AgreeOn c'.memory c.rx.layout.span.start c.rx.layout.span.stop) :
    c'.rxEnds.Kept c₀.rx.layout.num.toNat (rxRecords (acts ++ [act])) := by
  have one : c.rx.layout = c.rxDriver.layout := h.usable.order.rx.oneRing
  have avail := c.rxDriver.layout.avail_eq
  have within : c.rxDriver.layout.Within c'.memory :=
    (same.within _).mpr h.usable.order.rx.within
  rw [one] at agree
  rw [rxRecords_append, records, List.append_nil, rxEnds, driver, device]
  exact Ends.Kept.elsewhere h.rx within
    (agree.mono (by simp only [Layout.span]; omega) (Nat.le_refl _))

/-- What a step that takes no packet and hands none back does to the incoming ring. -/
theorem kept_step (h : Accounted c₀ acts held c) (step : Step c act c') (quiet : served [act] = [])
    (orderly : c.Orderly act) (admitted : rxRule c₀ acts act) :
    c'.rxEnds.Kept c₀.rx.layout.num.toNat (rxRecords (acts ++ [act])) := by
  have order := h.usable.order
  have placed := order.placed
  have rings := order.separate.rings.symm
  have same := step.sameRings
  have agree (spares : act.Spares c c.rx.layout.span) := step.agreeOn placed spares
  cases step with
  | offeredRx idx =>
    rw [rxRecords_append]
    exact Ends.Kept.offering h.rx admitted
  | collectedRx next =>
    rw [rxRecords_append]
    exact Ends.Kept.collecting h.rx next
  | skipped next short => exact h.kept_elsewhere rfl same rfl rfl (agree rings)
  | @sent idx msg next roomy fits =>
    have buffer := (order.separate.fromRx idx (order.lt_of_next next)).symm
    exact h.kept_elsewhere rfl same rfl rfl (agree ⟨rings, buffer⟩)
  | offeredTx idx =>
    rw [placed.txOne] at rings
    exact h.kept_elsewhere rfl same rfl rfl (agree rings)
  | wrote fits => exact h.kept_elsewhere rfl same rfl rfl (agree orderly.2)
  | woke kick next => cases quiet
  | took next => cases quiet
  | returned idx => cases quiet
  | _ => exact h.kept_elsewhere rfl same rfl rfl fun _ _ _ => rfl

/-- A step that takes no packet and hands none back keeps the account, and leaves the packets alone
that wait. -/
theorem step (h : Accounted c₀ acts held c) (prepared : c₀.Prepared) (step : Step c act c')
    (quiet : served [act] = []) (admitted : rule c₀ acts act) :
    Accounted c₀ (acts ++ [act]) held c' ∧ Keeps (fun _ => True) c act.offered.toList c' := by
  have order := h.usable.order
  have kept : Keeps (fun _ => True) c act.offered.toList c' := by
    cases mine : act.byPeer with
    | true => exact step.keeps_peer h.usable mine (h.considerate prepared admitted)
    | false =>
      rw [Act.offered_of_not_byPeer mine]
      exact step.keeps h.usable mine (taken_of_served quiet act (List.mem_singleton_self act))
  have orderly := h.orderly prepared admitted
  refine ⟨⟨h.tx.step prepared.ready.separate order.placed step admitted.1,
    h.kept_step step quiet orderly admitted.2, ?_, kept.usable, ?_⟩, kept⟩
  · rw [← h.held, rxCustody, rxCustody, rxRecords_append, custody_append]
    cases act with
    | woke idx? =>
      cases idx? with
      | none => rfl
      | some idx => cases quiet
    | took idx => cases quiet
    | returned idx => cases quiet
    | _ => rfl
  · intro i inRing
    rw [← h.rxBuffers i inRing]
    exact step.rxBuffer_eq order orderly (by rw [h.num]; exact inRing)

/-- The firmware takes the first packet that waits. -/
theorem taken (h : Accounted c₀ acts none c) (prepared : c₀.Prepared) (step : Step c act c')
    (takes : act.taken = some idx) : Accounted c₀ (acts ++ [act]) (some idx) c' ∧
      c.incoming = idx :: c'.incoming ∧ c'.memory = c.memory := by
  have order := h.usable.order
  obtain ⟨next, memory, device, driver, buffers⟩ : c.rx.next? c.memory = some idx ∧
      c'.memory = c.memory ∧ c'.rx = c.rx.advance ∧ c'.rxDriver = c.rxDriver ∧
        c'.rxBuffer = c.rxBuffer := by
    cases step with
    | woke kick next => cases takes; exact ⟨next, rfl, rfl, rfl, rfl⟩
    | took next => cases takes; exact ⟨next, rfl, rfl, rfl, rfl⟩
    | _ => cases takes
  have records : rxRecords [act] = [(.take, .index (some idx))] := by
    rcases Act.of_taken takes with rfl | rfl <;> rfl
  have fair : rule c₀ acts act := by
    rcases Act.of_taken takes with rfl | rfl <;> exact ⟨trivial, trivial⟩
  have orderly := h.orderly prepared fair
  have quiet : ∀ i, act ≠ .offeredRx i := by
    rintro i rfl
    cases takes
  have noTx : ∀ i, act ≠ .offeredTx i := by
    rintro i rfl
    cases takes
  have queue : c.incoming = idx :: c'.incoming := by
    have waits := step.incoming_eq order orderly quiet
    rwa [takes] at waits
  refine ⟨⟨h.tx.step prepared.ready.separate order.placed step fair.1, ?_, ?_, ?_, ?_⟩, queue, memory⟩
  · rw [rxRecords_append, records, rxEnds, memory, device, driver]
    exact Ends.Kept.advancing h.rx next
  · rw [rxCustody, rxRecords_append, records, custody_append, ← rxCustody]
    show idx.toNat :: _ = [idx.toNat]
    rw [h.held]
    rfl
  · refine step.usable h.usable orderly ?_ ?_
    · intro i waits
      exact h.usable.outgoing i (step.outgoing_subset order orderly noTx waits)
    · intro i waits
      exact h.usable.incoming i (queue ▸ List.mem_cons_of_mem _ waits)
  · rw [buffers]
    exact h.rxBuffers

/-- The firmware hands back the packet that it has. -/
theorem returned (h : Accounted c₀ acts (some idx) c) (prepared : c₀.Prepared)
    (step : Step c (.returned idx) c') :
    Accounted c₀ (acts ++ [.returned idx]) none c' ∧ Keeps (fun _ => True) c [] c' := by
  have order := h.usable.order
  have kept : Keeps (fun _ => True) c [] c' := step.keeps h.usable rfl rfl
  refine ⟨⟨h.tx.step prepared.ready.separate order.placed step trivial, ?_, ?_, kept.usable, ?_⟩, kept⟩
  · have owned : Owned c₀.rx.layout.num.toNat (rxRecords acts)
        (.publish idx (UInt32.ofNat maxLen) true) := by
      have held : (custody c₀.rx.layout.num.toNat (rxRecords acts)).device = [idx.toNat] := h.held
      rw [Owned, Custody.Allows, held]
      exact List.mem_singleton_self _
    rw [rxRecords_append]
    cases step with
    | returned => exact Ends.Kept.handingBack h.rx owned
  · rw [rxCustody, rxRecords_append, custody_append, ← rxCustody]
    show List.erase _ idx.toNat = []
    rw [h.held]
    simp
  · intro i inRing
    rw [← h.rxBuffers i inRing]
    exact step.rxBuffer_eq order trivial (by rw [h.num]; exact inRing)

end Accounted

end Cores

end InterCore.Link
