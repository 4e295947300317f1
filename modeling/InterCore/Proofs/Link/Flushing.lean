import InterCore.Proofs.Link.Waits
import InterCore.Proofs.Ring.Flushing

/-!
# Nothing dirty behind a kick

Whatever call the firmware makes, on whatever link, all that it has written is flushed when it kicks
the peer and when the call returns (`flushed_behind_kicks`). A call that does not return is no
exception: `Reaches` says to which states of the station a call comes, and from one to the next the
journal grows by what is tidy (`Tidies`). The peer's turns leave the journal alone (`Silent`).
-/

namespace InterCore.Link

open InterCore.Packet (Header maxLen maxPayload)
open InterCore.Ring (Device Layout Tidy Tidied)

variable {σ : Type}

/-! ## The peer's turns -/

/-- Work that enters nothing in the firmware's journal. -/
def Silent (work : OnMachine α) : Prop :=
  ∀ m a m', work m = .ok (a, m') → m'.bus.journal = m.bus.journal

namespace Silent

theorem bind {work : OnMachine α} {next : α → OnMachine β} (first : Silent work)
    (second : ∀ a, Silent (next a)) : Silent (work >>= next) := by
  intro m b m' run
  obtain ⟨a, m₁, run₁, run₂⟩ := bind_eq_ok.mp run
  exact (second a m₁ b m' run₂).trans (first m a m₁ run₁)

theorem pure (a : α) : Silent (Pure.pure a : OnMachine α) := by
  intro m b m' run
  cases run
  rfl

theorem get : Silent (MonadState.get : OnMachine Machine) := by
  intro m b m' run
  cases run
  rfl

theorem livelock : Silent (throw .livelock : OnMachine α) := by
  intro m a m' run
  cases run

theorem ifThen {b : Bool} {first : OnMachine PUnit} {later : PUnit → OnMachine β}
    (h : Silent first) (h' : ∀ u, Silent (later u)) :
    Silent (if b then first >>= later else later ()) := by
  cases b with
  | true => exact h.bind h'
  | false => exact h' ()

theorem asPeer (work : OnBus α) : Silent (Machine.asPeer work) := by
  intro m a m' run
  obtain ⟨bus, -, rfl⟩ := asPeer_eq_ok run
  rfl

theorem onKicks (f : Kicks → Kicks) : Silent (Machine.onKicks f) := by
  intro m a m' run
  cases run
  rfl

theorem onPeer (f : Peer → Peer) : Silent (Machine.onPeer f) := by
  intro m a m' run
  cases run
  rfl

end Silent

namespace Peer

theorem silent_takeTxUsed? : Silent takeTxUsed? :=
  Silent.get.bind fun _ => (Silent.asPeer _).bind fun (_, _) => (Silent.onPeer _).bind fun _ => .pure _

theorem silent_takeRxUsed? : Silent takeRxUsed? :=
  Silent.get.bind fun _ => (Silent.asPeer _).bind fun (_, _) => (Silent.onPeer _).bind fun _ => .pure _

theorem silent_offerTx (idx : UInt16) : Silent (offerTx idx) :=
  Silent.get.bind fun _ => (Silent.asPeer _).bind fun _ => .onPeer _

theorem silent_offerRx (idx : UInt16) : Silent (offerRx idx) :=
  Silent.get.bind fun _ => (Silent.asPeer _).bind fun _ => .onPeer _

theorem silent_collect (fuel : Nat) : Silent (collect fuel) := by
  induction fuel with
  | zero => exact .livelock
  | succ fuel ih =>
    refine silent_takeRxUsed?.bind fun x? => ?_
    cases x? with
    | none => exact .pure ()
    | some x => exact (Silent.onPeer _).bind fun _ => ih

theorem silent_send (src dst : UInt32) (data : List UInt8) (len : UInt16) (kick : Bool) :
    Silent (send src dst data len kick) := by
  refine (silent_collect _).bind fun _ => Silent.get.bind fun m => ?_
  cases m.peer.free with
  | nil => exact .pure none
  | cons idx free =>
    refine (Silent.onPeer _).bind fun _ => Silent.get.bind fun m => ?_
    refine (Silent.asPeer _).bind fun d => (Silent.asPeer _).bind fun _ => ?_
    exact (silent_offerRx idx).bind fun _ => (Silent.onKicks _).ifThen fun _ => .pure (some idx)

theorem silent_contents (x : Ring.UsedElem) : Silent (contents x) := by
  refine Silent.get.bind fun m => (Silent.asPeer _).bind fun d => ?_
  split
  · exact .pure _
  · exact (Silent.asPeer _).bind fun _ => (Silent.asPeer _).bind fun _ => .pure _

theorem silent_receive? (offer kick : Bool) : Silent (receive? offer kick) := by
  refine silent_takeTxUsed?.bind fun x? => ?_
  cases x? with
  | none => exact .pure none
  | some x =>
    refine (silent_contents x).bind fun received => (silent_offerTx _).ifThen fun _ => ?_
    exact (Silent.onKicks _).ifThen fun _ => .pure _

theorem silent_receiveAll (offer kick : Bool) (fuel : Nat) : Silent (receiveAll offer kick fuel) := by
  induction fuel with
  | zero => exact .livelock
  | succ fuel ih =>
    refine (silent_receive? offer kick).bind fun received? => ?_
    cases received? with
    | none => exact .pure []
    | some received => exact ih.bind fun _ => .pure _

end Peer

theorem PeerStep.silent_run (step : PeerStep) : Silent step.run := by
  cases step with
  | send src dst data len kick =>
    refine (Peer.silent_send src dst data len kick).bind fun idx? => ?_
    cases idx? <;> exact .pure _
  | offerRx idx => exact (Peer.silent_offerRx idx).bind fun _ => .pure _
  | offerTx idx => exact (Peer.silent_offerTx idx).bind fun _ => .pure _
  | receive offer kick =>
    refine (Peer.silent_receive? offer kick).bind fun received? => ?_
    cases received? <;> exact .pure _
  | receiveAll offer kick => exact (Peer.silent_receiveAll offer kick _).bind fun _ => .pure _
  | rxUsed =>
    refine Peer.silent_takeRxUsed?.bind fun x? => ?_
    cases x? <;> exact .pure _
  | collect => exact (Peer.silent_collect _).bind fun _ => Silent.get.bind fun _ => .pure _
  | kickTx => exact (Silent.onKicks _).bind fun _ => .pure _
  | kickRx => exact (Silent.onKicks _).bind fun _ => .pure _
  | write addr bytes => exact (Silent.asPeer _).bind fun _ => .pure _
  | read addr len => exact (Silent.asPeer _).bind fun _ => .pure _

theorem PeerStep.silent_runAll (turn : List PeerStep) : Silent (runAll turn) := by
  induction turn with
  | nil => exact .pure []
  | cons step rest ih => exact step.silent_run.bind fun _ => ih.bind fun _ => .pure _

/-! ## Attempts to send and waits -/

section Sending

variable {tx tx' : Device} {rx : Layout} {bus bus' : Bus} {m m' : Machine}

/-- Short buffers that are handed straight back leave nothing dirty. -/
theorem takeBuffer?_tidied {fuel : Nat} {r : Option (UInt16 × Ring.Descriptor)}
    (run : takeBuffer? tx fuel bus = .ok ((r, tx'), bus')) :
    tx'.layout = tx.layout ∧ Tidied tx.layout rx bus bus' := by
  induction fuel generalizing tx bus with
  | zero => cases run
  | succ fuel ih =>
    obtain ⟨⟨idx?, tx₁⟩, bus₁, took, rest⟩ := bind_eq_ok.mp run
    obtain ⟨rfl, layout⟩ := Device.take?_eq_ok took
    cases idx? with
    | none =>
      cases rest
      exact ⟨layout, .refl _⟩
    | some idx =>
      obtain ⟨d, bus₂, read, further⟩ := bind_eq_ok.mp rest
      obtain ⟨rfl, -⟩ := Ring.Layout.readDescriptor_eq_ok read
      split at further
      case isTrue roomy =>
        cases further
        exact ⟨layout, .refl _⟩
      case isFalse short =>
        obtain ⟨u, bus₃, handedBack, later⟩ := bind_eq_ok.mp further
        obtain ⟨same, tidied⟩ := ih later
        rw [layout] at same tidied
        exact ⟨same, (Device.tidied_publish (.inl layout) handedBack).trans tidied⟩

theorem trySend_tidied {src dst : UInt32} {data : List UInt8} {sent : Bool}
    (run : trySend tx src dst data bus = .ok ((sent, tx'), bus')) :
    tx'.layout = tx.layout ∧ Tidied tx.layout rx bus bus' := by
  obtain ⟨⟨r, tx₁⟩, bus₁, took, rest⟩ := bind_eq_ok.mp run
  obtain ⟨layout, skipped⟩ := takeBuffer?_tidied took
  cases r with
  | none =>
    cases rest
    exact ⟨layout, skipped⟩
  | some found =>
    obtain ⟨idx, d⟩ := found
    obtain ⟨u, bus₂, header, rest⟩ := bind_eq_ok.mp rest
    obtain ⟨-, rfl⟩ := OnBus.writeBytes_eq_ok header
    obtain ⟨v, bus₃, payload, rest⟩ := bind_eq_ok.mp rest
    obtain ⟨-, rfl⟩ := OnBus.writeBytes_eq_ok payload
    rw [OnBus.bind_eq (Bus.flush_eq _ _ _)] at rest
    obtain ⟨w, bus₄, handedBack, last⟩ := bind_eq_ok.mp rest
    cases last
    rw [← Bus.after_append, ← Bus.after_append] at handedBack
    have packet : Tidied tx.layout rx bus₁
        (bus₁.after ((Message.mk src dst (fitting d.len data)).events d.addr.toNat)) :=
      .after (.packet (Header.length_encode _))
    exact ⟨layout, skipped.trans (packet.trans (Device.tidied_publish (.inl layout) handedBack))⟩

/-- The ring is flushed when its kick is taken, and nothing else is done. -/
theorem tidied_afterTxKick (m : Machine) (tx : Device) (l l' : Layout) :
    Tidied l l' m.bus (m.afterTxKick tx).bus := by
  unfold Machine.afterTxKick
  dsimp only
  split
  · exact .after (.flush _ _)
  · exact .refl _

theorem wait_tidied {turn : List PeerStep} {outcomes : List PeerOutcome} {l l' : Layout}
    (run : wait tx turn m = .ok (outcomes, m')) : Tidied l l' m.bus m'.bus := by
  obtain ⟨outcomes, m₁, turned, run⟩ := bind_eq_ok.mp run
  obtain ⟨taken, m₂, serviced, last⟩ := bind_eq_ok.mp run
  cases last
  rw [serviceTxKick_eq] at serviced
  cases serviced
  have silent := PeerStep.silent_runAll turn m outcomes m₁ turned
  exact (Tidied.of_journal silent).trans (tidied_afterTxKick m₁ tx l l')

end Sending

/-! ## The station -/

/-- From one state of the station to another the rings stay where they are, and what the firmware
does is tidy. -/
structure Tidies (s s' : Station σ) : Prop where
  tx : s'.mux.tx.layout = s.mux.tx.layout
  rx : s'.mux.rx.layout = s.mux.rx.layout
  tidied : Tidied s.mux.tx.layout s.mux.rx.layout s.run.machine.bus s'.run.machine.bus

namespace Tidies

variable {s s' s'' : Station σ}

theorem refl (s : Station σ) : Tidies s s :=
  ⟨rfl, rfl, .refl _⟩

theorem trans (h : Tidies s s') (h' : Tidies s' s'') : Tidies s s'' := by
  have later := h'.tidied
  rw [h.tx, h.rx] at later
  exact ⟨h'.tx.trans h.tx, h'.rx.trans h.rx, h.tidied.trans later⟩

/-- A buffer of one of the rings is handed back. -/
theorem of_publish {d : Device} {idx : UInt16} {len : UInt32} {kick : Bool}
    (which : d.layout = s.mux.tx.layout ∨ d.layout = s.mux.rx.layout)
    (run : Firmware.onBus (d.publish idx len kick) s = .ok ((), s')) : Tidies s s' := by
  obtain ⟨bus, published, rfl⟩ := Firmware.onBus_eq_ok run
  exact ⟨rfl, rfl, Device.tidied_publish which published⟩

/-- How far the incoming ring is read the firmware notes for itself. -/
theorem of_rx {rx : Device} (layout : rx.layout = s.mux.rx.layout) :
    Tidies s { s with mux.rx := rx } :=
  ⟨rfl, layout, .refl _⟩

/-- Nothing is written where a channel is entered. -/
theorem of_entered (s : Station σ) (slot : Fin maxChannels) (name : String) (handler : Handler σ) :
    Tidies s (s.entered slot name handler) :=
  ⟨rfl, rfl, .refl _⟩

/-- A buffer is flushed before the packet in it is read. -/
theorem of_peek (s : Station σ) (idx : UInt16) : Tidies s (s.perform (s.peekEvents idx)) := by
  refine ⟨rfl, rfl, ?_⟩
  unfold Station.peekEvents
  dsimp only
  split
  · exact .refl _
  · exact .after (.flush _ _)

/-- A handler that is told of a packet writes nothing itself. -/
theorem of_peek_told (s : Station σ) (idx : UInt16) (slot : Fin maxChannels) (remote : UInt32)
    (app : σ) : Tidies s ((s.perform (s.peekEvents idx)).told slot remote app) :=
  ⟨rfl, rfl, (of_peek s idx).tidied⟩

/-- The ring is looked at anew after a kick of its direction. -/
theorem of_afterTxKick (s : Station σ) : Tidies s s.afterTxKick :=
  ⟨rfl, rfl, tidied_afterTxKick _ _ _ _⟩

theorem of_woken (s : Station σ) (k : KickCounter) : Tidies s (s.woken k) :=
  ⟨rfl, rfl, (tidied_afterTxKick _ _ _ _).trans (.after (.flush _ _))⟩

end Tidies

theorem Firmware.take?_eq_ok {d d' : Device} {idx? : Option UInt16} {s s' : Station σ}
    (run : Firmware.onBus d.take? s = .ok ((idx?, d'), s')) : s = s' ∧ d'.layout = d.layout := by
  obtain ⟨bus, took, rfl⟩ := Firmware.onBus_eq_ok run
  obtain ⟨rfl, layout⟩ := Device.take?_eq_ok took
  exact ⟨rfl, layout⟩

/-! ## What a call comes to -/

/-- The firmware looks for an outgoing buffer, and has handed short ones back. -/
inductive Searching : Station σ → Station σ → Prop where
  | here (s : Station σ) : Searching s s
  | later {s s₁ s₂ s₃ s' : Station σ} {tx : Device} {idx : UInt16} {d : Ring.Descriptor}
      (took : Firmware.onBus s.mux.tx.take? s = .ok ((some idx, tx), s₁))
      (read : Firmware.onBus (tx.descriptor idx) s₁ = .ok (d, s₂))
      (short : d.len.toNat < Header.size)
      (handedBack : Firmware.onBus (tx.publish idx 0 true) s₂ = .ok ((), s₃))
      (search : Searching { s₃ with mux.tx := tx } s') : Searching s s'

/-- The firmware sends a message, and may have to wait for a buffer. -/
inductive Sending (msg : Message) : Station σ → Station σ → Prop where
  | searching {s s' : Station σ} (search : Searching s s') : Sending msg s s'
  | tried {s s' : Station σ} {sent : Bool} (tried : Attempted msg s sent s') : Sending msg s s'
  | later {s s₁ s₂ s' : Station σ} (tried : Attempted msg s false s₁) (waited : Waited s₁ s₂)
      (sending : Sending msg s₂ s') : Sending msg s s'

/-- The firmware sends the messages of a handler back. -/
inductive Replying (ep : Endpoint) : Replies → Station σ → Station σ → Prop where
  | here {replies : Replies} (s : Station σ) : Replying ep replies s s
  | sending {data : List UInt8} {rest : Unit → Replies} {s s' : Station σ}
      (sending : Sending ⟨ep.localAddr, ep.remoteAddr, data.take maxPayload⟩ s s') :
      Replying ep (.next data rest) s s'
  | later {data : List UInt8} {rest : Unit → Replies} {s s₁ s' : Station σ}
      (sent : Firmware.sendBlocking ep.localAddr ep.remoteAddr data s = .ok ((), s₁))
      (replying : Replying ep (rest ()) s₁ s') : Replying ep (.next data rest) s s'

/-- The firmware handles the packets of the incoming ring. -/
inductive Serving : Station σ → Station σ → Prop where
  | here (s : Station σ) : Serving s s
  | handling {s s₁ s₂ s' : Station σ} {rx : Device} {idx : UInt16} {slot : Fin maxChannels}
      {header : Header} {data : List UInt8} {replies : Replies} {app : σ}
      (took : Firmware.onBus s.mux.rx.take? s = .ok ((some idx, rx), s₁))
      (read : Firmware.readPacket idx { s₁ with mux.rx := rx } = .ok (some (header, data), s₂))
      (found : s₂.recipient? header.dst = some slot)
      (handled : (s₂.mux.channels.get slot).handler ⟨header.dst, header.src⟩ data s₂.app =
        (replies, app))
      (replying : Replying ⟨header.dst, header.src⟩ replies (s₂.told slot header.src app) s') :
      Serving s s'
  | later {s s₁ s₂ s₃ s' : Station σ} {rx : Device} {idx : UInt16}
      (took : Firmware.onBus s.mux.rx.take? s = .ok ((some idx, rx), s₁))
      (received : Firmware.receive idx { s₁ with mux.rx := rx } = .ok ((), s₂))
      (handedBack : Firmware.onBus (s₂.mux.rx.publish idx (UInt32.ofNat maxLen) true) s₂ =
        .ok ((), s₃)) (serving : Serving s₃ s') : Serving s s'

/-- A call of the firmware that began at one state of the station comes to another, whether or not
it ever returns. There is such a state behind every kick of a call, and where the call waits. -/
inductive Reaches (s s' : Station σ) : Prop where
  | creating {name : String} {handler : Handler σ} {slot : Fin maxChannels}
      (free : s.freeSlot? = some slot)
      (sending : Sending (Firmware.announcement name s.mux.nextAddr) (s.entered slot name handler) s')
  | sending {slot : Fin maxChannels} {data : List UInt8} (live : (s.mux.channels.get slot).isLive)
      (sending : Sending ⟨(s.mux.channels.get slot).localAddr, (s.mux.channels.get slot).remoteAddr,
        data.take maxPayload⟩ s s')
  | polling {k : KickCounter} (kick : s.run.machine.kicks.rx.take? = some k)
      (serving : Serving (s.woken k) s')
  | returned (returns : Returns s s')

section Points

variable {s s' : Station σ} {msg : Message}

theorem Attempted.tidies {sent : Bool} (h : Attempted msg s sent s') : Tidies s s' := by
  obtain ⟨run⟩ := h
  obtain ⟨bus, tried, rfl⟩ := Machine.onBus_eq_ok run
  obtain ⟨layout, tidied⟩ := trySend_tidied tried
  exact ⟨layout, rfl, tidied⟩

theorem Waited.tidies (h : Waited s s') : Tidies s s' := by
  obtain ⟨next, run⟩ := h
  exact ⟨rfl, rfl, wait_tidied run⟩

theorem Searching.tidies (h : Searching s s') : Tidies s s' := by
  induction h with
  | here s => exact .refl s
  | @later s _ _ s₃ s' tx idx d took read short handedBack search ih =>
    obtain ⟨rfl, layout⟩ := Firmware.take?_eq_ok took
    obtain ⟨bus, described, rfl⟩ := Firmware.onBus_eq_ok read
    obtain ⟨rfl, -⟩ := Ring.Layout.readDescriptor_eq_ok described
    -- The number of entries taken is noted once the search is over, and is not in the journal.
    have back := Tidies.of_publish (.inl layout) handedBack
    have advanced : Tidies s { s₃ with mux.tx := tx } := ⟨layout, back.rx, back.tidied⟩
    exact advanced.trans ih

theorem Sending.tidies (h : Sending msg s s') : Tidies s s' := by
  induction h with
  | searching search => exact search.tidies
  | tried tried => exact tried.tidies
  | later tried waited sending ih => exact tried.tidies.trans (waited.tidies.trans ih)

namespace Firmware

/-- A send that returns ends with an attempt that was successful. -/
theorem sendWaiting_sending {schedule : List (List PeerStep)} {waits : List (List PeerOutcome)}
    {mux : Multiplexer σ} {app : σ} {tx : Device} {m : Machine} {r : Run}
    (run : sendWaiting msg.src msg.dst msg.data schedule waits mux.tx m = .ok (tx, r)) :
    Sending msg ⟨⟨m, schedule, waits⟩, mux, app⟩ ⟨r, { mux with tx }, app⟩ := by
  induction schedule generalizing waits mux m with
  | nil =>
    rw [sendWaiting] at run
    split at run
    case h_1 => cases run
    case h_2 tx₁ m₁ tried =>
      cases run
      exact .tried ⟨tried⟩
    case h_3 => cases run
  | cons turn schedule ih =>
    rw [sendWaiting] at run
    split at run
    case h_1 => cases run
    case h_2 tx₁ m₁ tried =>
      cases run
      exact .tried ⟨tried⟩
    case h_3 tx₁ m₁ tried =>
      dsimp only at run
      split at run
      case h_1 => cases run
      case h_2 outcomes m₂ waited =>
        -- The peer has its turn where the attempt was in vain.
        let s₁ : Station σ := ⟨⟨m₁, turn :: schedule, waits⟩, { mux with tx := tx₁ }, app⟩
        have turned : Waited s₁ ⟨⟨m₂, schedule, outcomes :: waits⟩, s₁.mux, app⟩ := ⟨rfl, waited⟩
        have missed : Attempted msg ⟨⟨m, turn :: schedule, waits⟩, mux, app⟩ false s₁ := ⟨tried⟩
        exact .later missed turned (ih run)

variable {ep : Endpoint} {replies : Replies} {src dst : UInt32} {data : List UInt8} {idx : UInt16}

theorem sendBlocking_sending (run : sendBlocking src dst data s = .ok ((), s')) :
    Sending ⟨src, dst, data.take maxPayload⟩ s s' := by
  obtain ⟨⟨machine, schedule, waits⟩, mux, app⟩ := s
  rw [sendBlocking] at run
  split at run
  case h_1 => cases run
  case h_2 tx r sent =>
    cases run
    exact sendWaiting_sending sent

theorem sendBack_tidies (run : sendBack ep replies s = .ok ((), s')) : Tidies s s' := by
  induction replies generalizing s with
  | done =>
    cases run
    exact .refl _
  | next data rest ih =>
    obtain ⟨u, s₁, first, later⟩ := bind_eq_ok.mp run
    exact (sendBlocking_sending first).tidies.trans (ih () later)

theorem receive_tidies (run : receive idx s = .ok ((), s')) : Tidies s s' := by
  obtain ⟨delivery, handled⟩ := receive_eq_ok run
  cases handled with
  | dropped refused => exact .of_peek s idx
  | @delivered slot header data replies app _ accepted handled answered =>
    exact (Tidies.of_peek_told s idx slot header.src app).trans (sendBack_tidies answered)

end Firmware

theorem Replying.tidies {ep : Endpoint} {replies : Replies} (h : Replying ep replies s s') :
    Tidies s s' := by
  induction h with
  | here s => exact .refl s
  | sending sending => exact sending.tidies
  | later sent replying ih => exact (Firmware.sendBlocking_sending sent).tidies.trans ih

theorem Serving.tidies (h : Serving s s') : Tidies s s' := by
  induction h with
  | here s => exact .refl s
  | @handling s _ s₂ s' rx idx slot header data replies app took read found handled replying =>
    obtain ⟨rfl, layout⟩ := Firmware.take?_eq_ok took
    obtain ⟨-, rfl⟩ := Firmware.readPacket_eq_ok read
    have told := (Tidies.of_peek_told _ idx slot header.src app).trans replying.tidies
    exact (Tidies.of_rx layout).trans told
  | @later s _ s₂ s₃ s' rx idx took received handedBack serving ih =>
    obtain ⟨rfl, layout⟩ := Firmware.take?_eq_ok took
    have served := (Firmware.receive_tidies received).trans (.of_publish (.inr rfl) handedBack)
    exact (Tidies.of_rx layout).trans (served.trans ih)

namespace Firmware

theorem drain_tidies {fuel : Nat} (run : drain fuel s = .ok ((), s')) : Tidies s s' := by
  induction fuel generalizing s with
  | zero => cases run
  | succ fuel ih =>
    rw [drain, bind_of_ok (get_eq s)] at run
    obtain ⟨⟨idx?, rx⟩, s₁, took, rest⟩ := bind_eq_ok.mp run
    obtain ⟨rfl, layout⟩ := take?_eq_ok took
    have advanced := Tidies.of_rx layout
    obtain ⟨u, s₂, put, rest⟩ := bind_eq_ok.mp rest
    cases put
    cases idx? with
    | none =>
      cases rest
      exact advanced
    | some idx =>
      obtain ⟨v, s₃, received, rest⟩ := bind_eq_ok.mp rest
      rw [bind_of_ok (get_eq s₃)] at rest
      obtain ⟨w, s₄, handedBack, later⟩ := bind_eq_ok.mp rest
      have served := (receive_tidies received).trans (.of_publish (.inr rfl) handedBack)
      exact advanced.trans (served.trans (ih later))

theorem createChannel_tidies {name : String} {handler : Handler σ} {answer : Answer (Fin maxChannels)}
    (run : createChannel name handler s = .ok (answer, s')) : Tidies s s' := by
  cases free : s.freeSlot? with
  | none =>
    rw [createChannel_full free] at run
    cases run
    exact .refl _
  | some slot =>
    have found : s.mux.channels.findFinIdx? (·.state = .unused) = some slot := free
    rw [createChannel, bind_of_ok (get_eq s)] at run
    dsimp only at run
    rw [found] at run
    obtain ⟨u, s₁, put, rest⟩ := bind_eq_ok.mp run
    cases put
    obtain ⟨v, s₂, sent, last⟩ := bind_eq_ok.mp rest
    cases last
    exact (Tidies.of_entered s slot name handler).trans (sendBlocking_sending sent).tidies

theorem send_tidies {slot : Fin maxChannels} (run : send slot data s = .ok ((), s')) :
    Tidies s s' := by
  obtain ⟨s₀, s₁, here, rest⟩ := bind_eq_ok.mp run
  cases here
  split at rest
  case isTrue live => exact (sendBlocking_sending rest).tidies
  case isFalse unused =>
    cases rest
    exact .refl _

theorem poll_tidies {b : Bool} (run : poll s = .ok (b, s')) : Tidies s s' := by
  rw [poll_eq] at run
  cases kick : s.run.machine.kicks.rx.take? with
  | none =>
    rw [kick] at run
    cases run
    exact .of_afterTxKick s
  | some k =>
    rw [kick] at run
    obtain ⟨u, s₁, drained, last⟩ := bind_eq_ok.mp run
    cases last
    exact (Tidies.of_woken s k).trans (drain_tidies drained)

end Firmware

theorem Reaches.tidies (h : Reaches s s') : Tidies s s' := by
  cases h with
  | creating free sending =>
    exact (Tidies.of_entered s _ _ _).trans sending.tidies
  | sending live sending => exact sending.tidies
  | polling kick serving => exact (Tidies.of_woken s _).trans serving.tidies
  | returned returns =>
    rcases returns with ⟨name, handler, answer, run⟩ | ⟨slot, data, run⟩ | ⟨b, run⟩
    · exact Firmware.createChannel_tidies run
    · exact Firmware.send_tidies run
    · exact Firmware.poll_tidies run

end Points

/-- A call leaves nothing dirty where it kicks the peer and where it returns: each write of it is
followed by a flush of the packet or of the ring that it belongs to. -/
theorem flushed_behind_kicks {s s' : Station σ} (h : Reaches s s') :
    ∃ es, s'.run.machine.bus.trace = s.run.machine.bus.trace ++ es ∧
      Tidy s.mux.tx.layout s.mux.rx.layout es :=
  h.tidies.tidied

/-- A ring of two descriptors that ends soon after the start of a page. -/
def pageLayout : Layout :=
  ⟨⟨0xFD0, 2⟩, ⟨1, rfl⟩, by decide⟩

/-- Two descriptors, of a short buffer and of a roomy one, and an available ring with both. -/
def shortThenRoomy : List UInt8 :=
  [0x20, 0x10, 0, 0, 0, 0, 0, 0, 8, 0, 0, 0, 0, 0, 0, 0] ++
    [0x40, 0x10, 0, 0, 0, 0, 0, 0, 64, 0, 0, 0, 0, 0, 0, 0] ++ [0, 0, 2, 0, 0, 0, 1, 0]

/-- A station with a channel, where the first buffer that the peer offers is short. -/
def shortFirst : Station Unit where
  run.machine :=
    { bus.memory := ⟨0xFD0, (shortThenRoomy ++ List.replicate 150 0).toArray⟩
      kicks := {}
      peer := ⟨{ layout := pageLayout }, { layout := pageLayout }, []⟩ }
  mux :=
    { tx := { layout := pageLayout }
      rx := { layout := pageLayout }
      channels := Vector.replicate maxChannels { state := .up } }
  app := ()

/-- The short buffer is handed back with a kick, and the message with another one. -/
theorem flushed_behind_kicks_of_shortFirst :
    ∃ s', Firmware.send ⟨0, by decide⟩ [1, 2, 3] shortFirst = .ok ((), s') ∧ Reaches shortFirst s' ∧
      s'.run.machine.bus.trace.count .notify = 2 ∧
      ∃ es, s'.run.machine.bus.trace = shortFirst.run.machine.bus.trace ++ es ∧
        Tidy pageLayout pageLayout es := by
  have kicks : ((Firmware.send ⟨0, by decide⟩ [1, 2, 3] shortFirst).toOption.map fun r =>
      r.2.run.machine.bus.trace.count .notify) = some 2 := by
    decide +kernel
  cases run : Firmware.send ⟨0, by decide⟩ [1, 2, 3] shortFirst with
  | error fault =>
    rw [run] at kicks
    cases kicks
  | ok r =>
    rw [run] at kicks
    have reached : Reaches shortFirst r.2 := .returned (.inr (.inl ⟨_, _, run⟩))
    exact ⟨r.2, rfl, reached, Option.some.inj kicks, flushed_behind_kicks reached⟩

end InterCore.Link
