import InterCore.Link.Station
import InterCore.Proofs.Link.Turns

/-!
# The firmware's calls as steps

A call of the firmware that returns is a path from the cores as they were to the cores as they are,
on which exactly the messages of that call are sent: `Sends` for the calls that only send, and
`Drains` for what a poll does to the packets of the incoming ring.
-/

namespace InterCore.Link

open InterCore.Packet (Header maxLen maxPayload)
open InterCore.Ring (Device Driver UsedElem)

variable {σ : Type}

/-! ## Waiting for a buffer -/

/-- The machine after a look at the kicks of the outgoing direction. -/
def Machine.afterTxKick (m : Machine) (tx : Device) : Machine :=
  { m with
    bus := if m.kicks.takeTx.1 then m.bus.after [.flush tx.layout.base.toNat tx.layout.len] else m.bus
    kicks := m.kicks.takeTx.2 }

theorem serviceTxKick_eq (tx : Device) (m : Machine) :
    serviceTxKick tx m = .ok (m.kicks.takeTx.1, m.afterTxKick tx) := by
  show (do
    Machine.onKicks fun _ => m.kicks.takeTx.2
    if m.kicks.takeTx.1 then
      Machine.onBus tx.flush
    return m.kicks.takeTx.1 : OnMachine Bool) m = _
  rw [Machine.afterTxKick]
  cases m.kicks.takeTx.1 <;> rfl

@[simp]
theorem cores_afterTxKick (m : Machine) (tx tx' rx : Device) :
    (m.afterTxKick tx).cores tx' rx = m.cores tx' rx := by
  have kicks : m.kicks.takeTx.2.rx = m.kicks.rx := by
    unfold Kicks.takeTx
    split <;> rfl
  have memory : (m.afterTxKick tx).bus.memory = m.bus.memory := by
    unfold Machine.afterTxKick
    dsimp only
    split <;> rfl
  simp only [Machine.cores, memory]
  simp only [Machine.afterTxKick, kicks]

/-- A wait is a turn of the peer. -/
theorem wait_byPeer (tx : Device) (turn : List PeerStep) : ByPeer (wait tx turn) := by
  refine (PeerStep.byPeer_runAll turn).bind fun outcomes => ?_
  refine Does.bind (Does.of_same ?_) fun _ => .pure outcomes
  intro tx' rx m taken m' run
  rw [serviceTxKick_eq] at run
  cases run
  exact cores_afterTxKick _ _ _ _

theorem Machine.onBus_eq_ok {work : OnBus α} {m m' : Machine} {a : α}
    (run : Machine.onBus work m = .ok (a, m')) :
    ∃ bus, work m.bus = .ok (a, bus) ∧ m' = { m with bus } := by
  cases worked : work m.bus with
  | error fault =>
    simp only [Machine.onBus, worked] at run
    cases run
  | ok r =>
    simp only [Machine.onBus, worked] at run
    cases run
    exact ⟨_, rfl, rfl⟩

theorem trySend_path {msg : Message} {tx tx' rx : Device} {m m' : Machine} {sent : Bool}
    (placed : (m.cores tx rx).Placed)
    (run : Machine.onBus (trySend tx msg.src msg.dst msg.data) m = .ok ((sent, tx'), m')) :
    ∃ acts, Cores.Path (m.cores tx rx) acts (m'.cores tx' rx) ∧
      sentIn acts = (if sent then [msg] else []) ∧ served acts = [] ∧
        ∀ act ∈ acts, act.byPeer = false := by
  obtain ⟨bus, tried, rfl⟩ := Machine.onBus_eq_ok run
  obtain ⟨es, attempt, rfl⟩ := trySend_eq_ok placed.txWithin tried
  obtain ⟨acts, path, messages, quiet, mine⟩ := attempt.path (m.cores tx rx)
  refine ⟨acts, ?_, messages, quiet, mine⟩
  rwa [← Bus.memory_after] at path

/-- A packet that is sent is sent once, whatever the peer does in the waits. -/
theorem sendWaiting_eq_ok (msg : Message) {schedule : List (List PeerStep)}
    {waits : List (List PeerOutcome)} {tx tx' rx : Device} {m : Machine} {r : Run}
    (placed : (m.cores tx rx).Placed)
    (run : sendWaiting msg.src msg.dst msg.data schedule waits tx m = .ok (tx', r)) :
    ∃ acts, Cores.Path (m.cores tx rx) acts (r.machine.cores tx' rx) ∧ sentIn acts = [msg] ∧
      served acts = [] := by
  induction schedule generalizing waits tx m with
  | nil =>
    rw [sendWaiting] at run
    split at run
    case h_1 => cases run
    case h_2 tx₁ m₁ tried =>
      cases run
      obtain ⟨acts, path, messages, quiet, -⟩ := trySend_path placed tried
      exact ⟨acts, path, messages, quiet⟩
    case h_3 => cases run
  | cons turn schedule ih =>
    rw [sendWaiting] at run
    split at run
    case h_1 => cases run
    case h_2 tx₁ m₁ tried =>
      cases run
      obtain ⟨acts, path, messages, quiet, -⟩ := trySend_path placed tried
      exact ⟨acts, path, messages, quiet⟩
    case h_3 tx₁ m₁ tried =>
      obtain ⟨acts₁, path₁, none, quiet₁, -⟩ := trySend_path placed tried
      have placed₁ := path₁.placed placed
      dsimp only at run
      split at run
      case h_1 => cases run
      case h_2 outcomes m₂ waited =>
        obtain ⟨acts₂, path₂, peer⟩ := wait_byPeer tx₁ turn tx₁ rx m₁ outcomes m₂ placed₁ waited
        obtain ⟨acts₃, path₃, messages, quiet₃⟩ := ih (path₂.placed placed₁) run
        refine ⟨acts₁ ++ (acts₂ ++ acts₃), path₁.append (path₂.append path₃), ?_, ?_⟩
        · rw [sentIn_append, sentIn_append, none, sentIn_byPeer peer, messages]
          rfl
        · rw [served_append, served_append, quiet₁, served_byPeer peer, quiet₃]
          rfl

/-! ## Calls that only send -/

namespace Station

/-- Both cores as a station shows them. -/
def cores (s : Station σ) : Cores :=
  s.run.machine.cores s.mux.tx s.mux.rx

end Station

/-- From one state of the station to another messages are sent, and nothing else of the firmware
changes. -/
structure Sends (s : Station σ) (messages : List Message) (s' : Station σ) : Prop where
  path : ∃ acts, Cores.Path s.cores acts s'.cores ∧ sentIn acts = messages ∧ served acts = []
  mux : s'.mux = { s.mux with tx := s'.mux.tx }
  app : s'.app = s.app

namespace Sends

variable {s s' s'' : Station σ} {messages messages' : List Message}

theorem refl (s : Station σ) : Sends s [] s :=
  ⟨⟨[], .start, rfl, rfl⟩, rfl, rfl⟩

theorem trans (h : Sends s messages s') (h' : Sends s' messages' s'') :
    Sends s (messages ++ messages') s'' := by
  obtain ⟨acts, path, said, quiet⟩ := h.path
  obtain ⟨acts', path', said', quiet'⟩ := h'.path
  refine ⟨⟨acts ++ acts', path.append path', ?_, ?_⟩, ?_, h'.app.trans h.app⟩
  · rw [sentIn_append, said, said']
  · rw [served_append, quiet, quiet']
    rfl
  · rw [h'.mux, h.mux]

theorem sent (h : Sends s messages s') :
    ∃ acts, Cores.Path s.cores acts s'.cores ∧ sentIn acts = messages := by
  obtain ⟨acts, path, said, -⟩ := h.path
  exact ⟨acts, path, said⟩

theorem placed (h : Sends s messages s') (placed : s.cores.Placed) : s'.cores.Placed := by
  obtain ⟨acts, path, -⟩ := h.path
  exact path.placed placed

end Sends

namespace Firmware

variable {s s' : Station σ} {src dst : UInt32} {data : List UInt8}

theorem sendBlocking_eq_ok (placed : s.cores.Placed)
    (run : sendBlocking src dst data s = .ok ((), s')) :
    Sends s [⟨src, dst, data.take maxPayload⟩] s' := by
  obtain ⟨⟨machine, schedule, waits⟩, mux, app⟩ := s
  rw [sendBlocking] at run
  split at run
  case h_1 => cases run
  case h_2 tx r sent =>
    cases run
    exact ⟨sendWaiting_eq_ok ⟨src, dst, data.take maxPayload⟩ placed sent, rfl, rfl⟩

/-- Messages from one end of a channel to the other, one for each payload. -/
def messagesFrom (ep : Endpoint) (payloads : List (List UInt8)) : List Message :=
  payloads.map fun data => ⟨ep.localAddr, ep.remoteAddr, data.take maxPayload⟩

theorem sendBack_eq_ok {ep : Endpoint} {replies : Replies} (placed : s.cores.Placed)
    (run : sendBack ep replies s = .ok ((), s')) :
    Sends s (messagesFrom ep replies.toList) s' := by
  induction replies generalizing s with
  | done =>
    cases run
    exact .refl _
  | next data rest ih =>
    obtain ⟨u, s₁, first, later⟩ := bind_eq_ok.mp run
    have sent := sendBlocking_eq_ok placed first
    exact sent.trans (ih () (sent.placed placed) later)

/-- What is announced of a channel. -/
def announcement (name : String) (localAddr : UInt32) : Message :=
  ⟨localAddr, Packet.nameServiceAddr, (Packet.Announcement.create name localAddr).encode⟩

theorem length_announcement (name : String) (localAddr : UInt32) :
    (announcement name localAddr).data.length = 40 := by
  have text : (Packet.Announcement.create name localAddr).name.toList.length = 32 :=
    Vector.length_toList
  simp only [announcement, Packet.Announcement.encode, List.length_append, text,
    LittleEndian.length_encode32]

/-- No announcement is longer than a packet. -/
theorem take_announcement (name : String) (localAddr : UInt32) :
    (announcement name localAddr).data.take maxPayload = (announcement name localAddr).data := by
  apply List.take_of_length_le
  rw [length_announcement]
  decide

/-- A buffer of 56 bytes has room for an announcement. -/
theorem cutTo_announcement (name : String) (localAddr : UInt32) {len : UInt32}
    (roomy : 56 ≤ len.toNat) : (announcement name localAddr).cutTo len = announcement name localAddr := by
  have room : (announcement name localAddr).data.length ≤ min len.toNat maxLen - Header.size := by
    rw [length_announcement]
    exact Nat.le_sub_of_add_le (Nat.le_min.mpr ⟨roomy, by decide⟩)
  exact congrArg (Message.mk _ _) (List.take_of_length_le room)

end Firmware

namespace Station

variable {s s' : Station σ}

/-- The slot that the next channel gets. -/
def freeSlot? (s : Station σ) : Option (Fin maxChannels) :=
  s.mux.channels.findFinIdx? (·.state = .unused)

/-- The station with a channel entered that is not announced yet. -/
def entered (s : Station σ) (slot : Fin maxChannels) (name : String) (handler : Handler σ) :
    Station σ :=
  { s with mux := { s.mux with
      nextAddr := s.mux.nextAddr + 1
      channels := s.mux.channels.set slot { localAddr := s.mux.nextAddr, state := .announced,
                                            name := .ofText name, handler } slot.isLt } }

/-- The packets that a send on a channel amounts to. -/
def sendOn (s : Station σ) (slot : Fin maxChannels) (data : List UInt8) : List Message :=
  let c := s.mux.channels.get slot
  if c.isLive then [⟨c.localAddr, c.remoteAddr, data.take maxPayload⟩] else []

end Station

namespace Firmware

variable {s s' : Station σ} {slot : Fin maxChannels} {name : String} {handler : Handler σ}

theorem createChannel_full (full : s.freeSlot? = none) :
    createChannel name handler s = .ok (.error .resourceExhausted, s) := by
  have none : s.mux.channels.findFinIdx? (·.state = .unused) = .none := full
  have here : (get : Firmware σ (Station σ)) s = .ok (s, s) := rfl
  rw [createChannel, bind_of_ok here]
  dsimp only
  rw [none]
  rfl

/-- A channel is created where its announcement can be sent. -/
theorem createChannel_eq (free : s.freeSlot? = some slot)
    (sent : sendBlocking s.mux.nextAddr Packet.nameServiceAddr
      (announcement name s.mux.nextAddr).data (s.entered slot name handler) = .ok ((), s')) :
    createChannel name handler s = .ok (.ok slot, s') := by
  have found : s.mux.channels.findFinIdx? (·.state = .unused) = some slot := free
  have here : (get : Firmware σ (Station σ)) s = .ok (s, s) := rfl
  rw [createChannel, bind_of_ok here]
  dsimp only
  rw [found]
  exact (bind_of_ok rfl).trans ((bind_of_ok sent).trans rfl)

theorem createChannel_eq_ok {answer : Answer (Fin maxChannels)} (placed : s.cores.Placed)
    (free : s.freeSlot? = some slot) (run : createChannel name handler s = .ok (answer, s')) :
    answer = .ok slot ∧
      Sends (s.entered slot name handler) [announcement name s.mux.nextAddr] s' := by
  have found : s.mux.channels.findFinIdx? (·.state = .unused) = some slot := free
  obtain ⟨s₀, s₁, here, run⟩ := bind_eq_ok.mp run
  cases here
  dsimp only at run
  rw [found] at run
  obtain ⟨u, s₂, put, run⟩ := bind_eq_ok.mp run
  cases put
  obtain ⟨v, s₃, sent, last⟩ := bind_eq_ok.mp run
  cases last
  refine ⟨rfl, ?_⟩
  have sends : Sends (s.entered slot name handler) [⟨s.mux.nextAddr, Packet.nameServiceAddr,
      (announcement name s.mux.nextAddr).data.take maxPayload⟩] s' := sendBlocking_eq_ok placed sent
  rwa [take_announcement] at sends

theorem send_eq_ok {data : List UInt8} (placed : s.cores.Placed)
    (run : send slot data s = .ok ((), s')) : Sends s (s.sendOn slot data) s' := by
  obtain ⟨s₀, s₁, here, run⟩ := bind_eq_ok.mp run
  cases here
  unfold Station.sendOn
  split at run
  case isTrue live =>
    simp only [live, if_true]
    exact sendBlocking_eq_ok placed run
  case isFalse unused =>
    cases run
    simp only [unused]
    exact .refl _

end Firmware

end InterCore.Link
