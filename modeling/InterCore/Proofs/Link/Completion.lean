import InterCore.Proofs.Link.SetUp
import InterCore.Proofs.Link.Waits

/-!
# Sends that come to an end

On a usable link nothing can stop the firmware but a wait that does not end. An attempt to send
never fails, and if the peer has a turn in each wait (`Station.Supplied`), the send ends. What waits
in the incoming ring is kept (`Goes`).
-/

namespace InterCore.Link

open InterCore.Packet (Header maxLen maxPayload)
open InterCore.Ring (Device)

variable {σ : Type} {left : UInt16 → Prop}

/-! ## Attempts to send -/

section Attempts

variable {tx : Device} {m : Memory} {bus : Bus} {idx : UInt16}

/-- Every buffer that a device can take is one of the ring, and can be written if it is roomy. -/
structure Sendable (tx : Device) (m : Memory) : Prop where
  within : tx.layout.Within m
  waiting : ∀ idx ∈ tx.layout.offered m tx.tail,
    idx.toNat < tx.layout.num.toNat ∧ (tx.layout.buffer m idx).Reachable m

/-- A short buffer that is handed back leaves those behind it. -/
theorem Sendable.skip (h : Sendable tx m) (next : tx.next? m = some idx) :
    Sendable tx.advance (m.after (tx.handBackEvents m idx 0)) ∧
      tx.layout.offered m tx.tail = idx :: tx.layout.offered
        (m.after (tx.handBackEvents m idx 0)) tx.advance.tail := by
  have queue : tx.layout.offered m tx.tail = idx :: tx.layout.offered
      (m.after (tx.handBackEvents m idx 0)) tx.advance.tail :=
    Device.offered_of_handBack h.within next
  refine ⟨⟨h.within.replay _, ?_⟩, queue⟩
  intro idx' waits
  obtain ⟨inRing, reachable⟩ := h.waiting idx' (queue ▸ List.mem_cons_of_mem _ waits)
  refine ⟨inRing, ?_⟩
  rw [Device.layout_advance, Device.buffer_handBack h.within inRing]
  intro roomy
  simpa only [Memory.covers_after] using reachable roomy

/-- The firmware comes to a buffer that can be written, or to the end of the ring. -/
theorem takeBuffer?_eq {fuel : Nat} (h : Sendable tx bus.memory)
    (enough : (tx.layout.offered bus.memory tx.tail).length < fuel) :
    ∃ r tx' bus', takeBuffer? tx fuel bus = .ok ((r, tx'), bus') ∧
      tx'.layout.Within bus'.memory ∧ ∀ idx d, r = some (idx, d) →
        tx'.layout.buffer bus'.memory idx = ⟨d.addr, d.len⟩ ∧ Header.size ≤ d.len.toNat ∧
          (Ring.Buffer.mk d.addr d.len).Reachable bus'.memory := by
  induction fuel generalizing tx bus with
  | zero => omega
  | succ fuel ih =>
    cases next : tx.next? bus.memory with
    | none =>
      refine ⟨none, tx, bus, takeBuffer?_of_none fuel h.within next, h.within, ?_⟩
      intro idx d found
      cases found
    | some idx =>
      obtain ⟨inRing, reachable⟩ := h.waiting idx (List.mem_of_mem_head? next)
      have described := h.within.describedIn inRing
      rcases Nat.lt_or_ge (tx.layout.buffer bus.memory idx).len.toNat Header.size with short | roomy
      · rw [takeBuffer?_of_short fuel h.within next described short]
        obtain ⟨later, queue⟩ := h.skip next
        rw [← Bus.memory_after] at later queue
        refine ih later ?_
        rw [queue, List.length_cons] at enough
        exact Nat.lt_of_succ_lt_succ enough
      · obtain ⟨d, took, buffer⟩ := takeBuffer?_of_roomy fuel h.within next described roomy
        refine ⟨_, _, _, took, h.within, ?_⟩
        rintro idx' d' ⟨⟩
        rw [buffer] at roomy reachable
        exact ⟨buffer, roomy, reachable⟩

/-- A message fits into a roomy buffer that can be written. -/
theorem fits_of_reachable (msg : Message)
    (roomy : Header.size ≤ (tx.layout.buffer m idx).len.toNat)
    (reachable : (tx.layout.buffer m idx).Reachable m) : ∀ e ∈ fillEvents tx m idx msg, e.Fits m := by
  have enough : Header.size ≤ (tx.layout.buffer m idx).capacity :=
    Nat.le_min.mpr ⟨roomy, by decide⟩
  have short := msg.length_cutTo_le (tx.layout.buffer m idx)
  obtain ⟨header, payload⟩ := reachable enough
  rw [fillEvents, Message.events_fit]
  exact ⟨header, payload.1, payload.2.1, by have := payload.2.2; omega⟩

/-- An attempt to send does not fail. -/
theorem trySend_eq (src dst : UInt32) (data : List UInt8) (h : Sendable tx bus.memory) :
    ∃ sent tx' bus', trySend tx src dst data bus = .ok ((sent, tx'), bus') := by
  obtain ⟨r, tx', bus₁, took, within, found⟩ := takeBuffer?_eq h (tx.layout.length_offered_lt _ _)
  rcases r with - | ⟨idx, d⟩
  · exact ⟨_, _, _, @trySend_of_missed _ _ _ _ ⟨src, dst, data⟩ took⟩
  · obtain ⟨buffer, roomy, reachable⟩ := found idx d rfl
    have fits := fits_of_reachable ⟨src, dst, data⟩ (by rwa [buffer]) (by rwa [buffer])
    exact ⟨_, _, _, @trySend_of_found _ _ _ _ ⟨src, dst, data⟩ _ _ took within buffer fits⟩

end Attempts

/-! ## What a call of the firmware keeps -/

/-- From one state of the station to another packets were at most added, the channels have the
addresses that they had, and each turn of the peer was used at most once. -/
structure Goes (left : UInt16 → Prop) (s : Station σ) (added : List UInt16) (s' : Station σ) :
    Prop where
  keeps : Cores.Keeps left s.cores added s'.cores
  rx : s'.mux.rx = s.mux.rx
  addresses : ∀ dst, s'.recipient? dst = s.recipient? dst
  turns : s'.run.schedule = s.run.schedule ∧ added = [] ∨
    s'.run.schedule.length < s.run.schedule.length

/-- The peer has a turn in the wait that now comes. In it packets are at most added, and some
buffers are left alone. -/
def Station.Supplied (left : UInt16 → Prop) (s : Station σ) : Prop :=
  ∃ turn rest outcomes m added, s.run.schedule = turn :: rest ∧
    PeerStep.runAll turn s.run.machine = .ok (outcomes, m) ∧
      Cores.Keeps left s.cores added (s.withMachine m).cores

namespace Goes

variable {s s' s'' : Station σ} {added added' : List UInt16}

theorem refl (usable : s.cores.Usable) : Goes left s [] s :=
  ⟨.refl usable, rfl, fun _ => rfl, .inl ⟨rfl, rfl⟩⟩

theorem trans (h : Goes left s added s') (h' : Goes left s' added' s'') : Goes left s (added ++ added') s'' := by
  refine ⟨h.keeps.trans h'.keeps, h'.rx.trans h.rx,
    fun dst => (h'.addresses dst).trans (h.addresses dst), ?_⟩
  rcases h.turns with ⟨same, rfl⟩ | fewer
  · rcases h'.turns with ⟨same', rfl⟩ | fewer'
    · exact .inl ⟨same'.trans same, rfl⟩
    · exact .inr (same ▸ fewer')
  · rcases h'.turns with ⟨same', -⟩ | fewer'
    · exact .inr (same' ▸ fewer)
    · exact .inr (Nat.lt_trans fewer' fewer)

theorem usable (h : Goes left s added s') : s'.cores.Usable :=
  h.keeps.usable

end Goes

theorem Machine.onBus_eq {work : OnBus α} {m : Machine} {a : α} {bus : Bus}
    (h : work m.bus = .ok (a, bus)) : Machine.onBus work m = .ok (a, { m with bus }) := by
  obtain ⟨bus₀, kicks, peer⟩ := m
  simp only [Machine.onBus, h]

/-- Where no packet was served, none was taken. -/
theorem taken_of_served {acts : List Act} (h : served acts = []) :
    ∀ act ∈ acts, act.taken = none := by
  intro act mem
  have quiet := List.flatMap_eq_nil_iff.mp h act mem
  cases act with
  | woke idx? =>
    cases idx? with
    | none => rfl
    | some idx => cases quiet
  | took idx => cases quiet
  | _ => rfl

variable {s s' : Station σ} {idx : UInt16}

theorem Station.sendable (s : Station σ) (usable : s.cores.Usable) :
    Sendable s.mux.tx s.run.machine.bus.memory :=
  ⟨usable.order.placed.txWithin,
    fun idx waits => ⟨usable.order.inRing idx waits, usable.outgoing idx waits⟩⟩

/-- The firmware can always try to send. -/
theorem Station.attempt (s : Station σ) (usable : s.cores.Usable) (msg : Message) :
    ∃ sent s', Attempted msg s sent s' ∧ Goes left s [] s' := by
  have placed := usable.order.placed
  obtain ⟨sent, tx, bus, tried⟩ := trySend_eq msg.src msg.dst msg.data (s.sendable usable)
  have run := Machine.onBus_eq tried
  obtain ⟨acts, path, -, quiet, mine⟩ := trySend_path placed run
  refine ⟨sent, _, .mk run, path.keeps usable mine (taken_of_served quiet), rfl, fun _ => rfl,
    .inl ⟨rfl, rfl⟩⟩

/-- Where the next outgoing buffer is roomy the firmware sends at once. -/
theorem Station.attempt_sends (s : Station σ) (usable : s.cores.Usable) (msg : Message)
    (next : s.mux.tx.next? s.run.machine.bus.memory = some idx)
    (roomy : Header.size ≤ (s.cores.txBuffer idx).len.toNat) :
    ∃ s', Attempted msg s true s' ∧ Cores.Step s.cores (.sent idx msg) s'.cores := by
  have within : s.mux.tx.layout.Within s.run.machine.bus.memory := usable.order.placed.txWithin
  obtain ⟨sent, tx, bus, tried⟩ := trySend_eq msg.src msg.dst msg.data (s.sendable usable)
  obtain ⟨es, attempt, rfl⟩ := trySend_eq_ok within tried
  cases attempt with
  | missed none => cases none.symm.trans next
  | skipped next' short =>
    cases next'.symm.trans next
    exact absurd short (Nat.not_lt.mpr roomy)
  | sent next' roomy' fits =>
    cases next'.symm.trans next
    refine ⟨_, .mk (Machine.onBus_eq tried), ?_⟩
    have step : Cores.Step s.cores (.sent idx msg) _ := .sent next roomy fits
    simpa only [Station.cores, Machine.cores, Bus.memory_after] using step

theorem Station.Supplied.wait (h : s.Supplied left) :
    ∃ added s', Waited s s' ∧ Goes left s added s' ∧ s'.run.schedule.length < s.run.schedule.length := by
  obtain ⟨turn, rest, outcomes, m, added, next, run, keeps⟩ := h
  have waited : Link.wait s.mux.tx turn s.run.machine = .ok (outcomes, m.afterTxKick s.mux.tx) := by
    rw [Link.wait, bind_of_ok run, bind_of_ok (serviceTxKick_eq _ _)]
    rfl
  have fewer : rest.length < s.run.schedule.length := by
    rw [next]
    exact Nat.lt_succ_self _
  refine ⟨added, _, .mk next waited, ⟨?_, rfl, fun _ => rfl, .inr fewer⟩, fewer⟩
  have cores := Link.cores_afterTxKick m s.mux.tx s.mux.tx s.mux.rx
  show Cores.Keeps left s.cores added ((m.afterTxKick s.mux.tx).cores s.mux.tx s.mux.rx)
  rw [cores]
  exact keeps

namespace Firmware

/-- A send ends if its waits do. -/
theorem sendBlocking_goes {src dst : UInt32} {data : List UInt8} (usable : s.cores.Usable)
    (supplied : ∀ s', Waiting ⟨src, dst, data.take maxPayload⟩ s s' → s'.Supplied left) :
    ∃ added s', sendBlocking src dst data s = .ok ((), s') ∧ Goes left s added s' := by
  generalize left : s.run.schedule.length = n
  induction n using Nat.strong_induction_on generalizing s with
  | h n ih =>
    obtain ⟨sent, s₁, tried, goes₁⟩ := s.attempt usable ⟨src, dst, data.take maxPayload⟩
    cases sent with
    | true => exact ⟨[], s₁, sendBlocking_of_sent tried, goes₁⟩
    | false =>
      obtain ⟨added₂, s₂, waited, goes₂, fewer⟩ := (supplied s₁ (.here tried)).wait
      have goes := goes₁.trans goes₂
      have less : s₂.run.schedule.length < n := by
        rcases goes₁.turns with ⟨same, -⟩ | fewer₁
        · rw [← left, ← same]
          exact fewer
        · omega
      obtain ⟨added₃, s₃, run, goes₃⟩ := ih _ less goes.usable
        (fun s' waits => supplied s' (.later tried waited waits)) rfl
      exact ⟨_, s₃, (sendBlocking_of_waited tried waited).trans run, goes.trans goes₃⟩

/-- Where the next outgoing buffer is roomy a channel is announced at once. -/
theorem createChannel_goes {slot : Fin maxChannels} (name : String) (handler : Handler σ)
    (usable : s.cores.Usable) (free : s.freeSlot? = some slot)
    (next : s.cores.tx.next? s.cores.memory = some idx)
    (roomy : Header.size ≤ (s.cores.txBuffer idx).len.toNat) :
    ∃ s', createChannel name handler s = .ok (.ok slot, s') ∧
      Cores.Step s.cores (.sent idx (announcement name s.mux.nextAddr)) s'.cores := by
  obtain ⟨s', attempted, step⟩ := (s.entered slot name handler).attempt_sends usable
    (announcement name s.mux.nextAddr) next roomy
  refine ⟨s', createChannel_eq free (sendBlocking_of_sent ?_), step⟩
  rw [take_announcement]
  exact attempted

/-- The peer has offered the first buffer, and a channel was announced in it. -/
structure AnnouncedFirst (start : Station σ) (m : Machine) (name : String) (handler : Handler σ)
    (slot : Fin maxChannels) (s : Station σ) : Prop where
  offered : PeerStep.run (.offerTx 0) start.run.machine = .ok (.nothing, m)
  offer : Cores.Step start.cores (.offeredTx 0) (start.withMachine m).cores
  created : createChannel name handler (start.withMachine m) = .ok (.ok slot, s)
  sent : Cores.Step (start.withMachine m).cores (.sent 0 (announcement name firstLocalAddr)) s.cores

/-- On a link that was set up a channel can be announced in the first buffer that the peer
offers. -/
theorem announce_first {p : Site} {memory : Memory} {h : p.Fits memory} {start : Station σ}
    (starts : h.Starts start) (name : String) (handler : Handler σ)
    (roomy : Header.size ≤ p.bufSize.toNat) :
    ∃ m slot s, AnnouncedFirst start m name handler slot s := by
  have fresh := starts.fresh
  have ready := fresh.ready
  have inRing : (0 : UInt16).toNat < p.num.toNat := by
    rw [← fresh.num.1]
    exact Ring.Layout.num_pos _
  obtain ⟨buffer, -⟩ := fresh.writable 0 inRing
  -- The peer offers the first buffer.
  obtain ⟨m, offered, -, step⟩ := Peer.offerTx_eq 0 ready.placed
  let s := start.withMachine m
  have step : Cores.Step start.cores (.offeredTx 0) s.cores := step
  have keeps : Cores.Keeps (fun _ => False) start.cores [] s.cores :=
    fresh.keeps_offeredTx inRing step
  obtain ⟨-, queues⟩ := step.txQueues_offered ready.sound (by
    rw [ready.empty]
    exact Ring.Layout.num_pos _)
  rw [ready.empty] at queues
  have waits : s.cores.txDriver.layout.offered s.cores.memory s.cores.tx.tail = [0] :=
    congrArg Ring.Queues.offered queues
  have next : s.cores.tx.next? s.cores.memory = some 0 := by
    rw [Device.next?, keeps.usable.order.placed.txOne, waits]
    rfl
  have buffer' : s.cores.txBuffer 0 = p.buffer p.txBuffers 0 := by
    rw [step.txBuffer_eq fresh.usable.order _ _, buffer]
    · rfl
    · show (0 : UInt16).toNat < _
      rw [fresh.num.1]
      exact inRing
    · rw [fresh.num.1]
      exact inRing
  -- The firmware announces a channel in it.
  have free : s.freeSlot? = some ⟨0, by decide⟩ :=
    Station.freeSlot?_of_unused starts.mux.channels
  obtain ⟨s', created, sent⟩ := createChannel_goes name handler keeps.usable free next (by
    rw [buffer']
    exact roomy)
  have addr : s.mux.nextAddr = firstLocalAddr := starts.mux.nextAddr
  rw [addr] at sent
  exact ⟨m, _, s', bind_of_ok offered, step, created, sent⟩

/-- The messages of a handler go out if the waits for buffers end. -/
theorem sendBack_goes {ep : Endpoint} {replies : Replies} (usable : s.cores.Usable)
    (supplied : ∀ s', Answering ep replies s s' → s'.Supplied left) :
    ∃ added s', sendBack ep replies s = .ok ((), s') ∧ Goes left s added s' := by
  induction replies generalizing s with
  | done => exact ⟨[], s, rfl, .refl usable⟩
  | next data rest ih =>
    obtain ⟨added₁, s₁, first, goes₁⟩ :=
      sendBlocking_goes usable fun s' waits => supplied s' (.here waits)
    obtain ⟨added₂, s₂, later, goes₂⟩ :=
      ih () goes₁.usable fun s' waits => supplied s' (.later first waits)
    exact ⟨_, s₂, (bind_of_ok first).trans later, goes₁.trans goes₂⟩

end Firmware

end InterCore.Link
