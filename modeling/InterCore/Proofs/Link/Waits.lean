import InterCore.Proofs.Link.Session

/-!
# Waits

A call that has no buffer for a packet waits for the peer, and it may do so for ever. `Awaits` says
at which states of the station a call waits: those are where the peer can act inside of a call,
whether or not the call ever returns. To the link a call that waits is a path too (`Awaits.path`).
-/

namespace InterCore.Link

open InterCore.Packet (Header maxLen maxPayload)

variable {σ : Type}

/-- The firmware made one attempt to send a message. -/
inductive Attempted (msg : Message) (s : Station σ) (sent : Bool) : Station σ → Prop where
  | mk {tx : Ring.Device} {m : Machine}
      (run : Machine.onBus (trySend s.mux.tx msg.src msg.dst msg.data) s.run.machine =
        .ok ((sent, tx), m)) :
      Attempted msg s sent { s with run.machine := m, mux.tx := tx }

/-- The firmware waited for the peer's next turn. -/
inductive Waited (s : Station σ) : Station σ → Prop where
  | mk {turn : List PeerStep} {rest : List (List PeerStep)} {outcomes : List PeerOutcome}
      {m : Machine} (next : s.run.schedule = turn :: rest)
      (run : wait s.mux.tx turn s.run.machine = .ok (outcomes, m)) :
      Waited s { s with run := ⟨m, rest, outcomes :: s.run.waits⟩ }

/-- To send a message the firmware waits, as no attempt up to now has found a buffer. -/
inductive Waiting (msg : Message) : Station σ → Station σ → Prop where
  | here {s s' : Station σ} (tried : Attempted msg s false s') : Waiting msg s s'
  | later {s s₁ s₂ s' : Station σ} (tried : Attempted msg s false s₁) (waited : Waited s₁ s₂)
      (waits : Waiting msg s₂ s') : Waiting msg s s'

/-- The firmware waits while it sends the messages of a handler back. -/
inductive Answering (ep : Endpoint) : Replies → Station σ → Station σ → Prop where
  | here {data : List UInt8} {rest : Unit → Replies} {s s' : Station σ}
      (waits : Waiting ⟨ep.localAddr, ep.remoteAddr, data.take maxPayload⟩ s s') :
      Answering ep (.next data rest) s s'
  | later {data : List UInt8} {rest : Unit → Replies} {s s₁ s' : Station σ}
      (sent : Firmware.sendBlocking ep.localAddr ep.remoteAddr data s = .ok ((), s₁))
      (waits : Answering ep (rest ()) s₁ s') : Answering ep (.next data rest) s s'

/-- The firmware waits while it handles the packets of the incoming ring. -/
inductive Draining : Station σ → Station σ → Prop where
  | here {s s' : Station σ} {idx : UInt16} {slot : Fin maxChannels} {header : Header}
      {data : List UInt8} {replies : Replies} {app : σ}
      (next : s.mux.rx.next? s.memory = some idx)
      (accepted : s.advanced.Accepts idx slot header data)
      (handled : (s.mux.channels.get slot).handler ⟨header.dst, header.src⟩ data s.app =
        (replies, app))
      (waits : Answering ⟨header.dst, header.src⟩ replies
        ((s.advanced.perform (s.advanced.peekEvents idx)).told slot header.src app) s') :
      Draining s s'
  | later {s s₁ s' : Station σ} {idx : UInt16} {delivery : Option Delivery}
      (next : s.mux.rx.next? s.memory = some idx) (handled : Handled s.advanced idx delivery s₁)
      (waits : Draining (s₁.handBack idx) s') : Draining s s'

/-- A call of the firmware that began at one state of the station waits for the peer at another. -/
inductive Awaits (s s' : Station σ) : Prop where
  | creating {name : String} {handler : Handler σ} {slot : Fin maxChannels}
      (free : s.freeSlot? = some slot)
      (waits : Waiting (Firmware.announcement name s.mux.nextAddr) (s.entered slot name handler) s')
  | sending {slot : Fin maxChannels} {data : List UInt8}
      (live : (s.mux.channels.get slot).isLive)
      (waits : Waiting ⟨(s.mux.channels.get slot).localAddr, (s.mux.channels.get slot).remoteAddr,
        data.take maxPayload⟩ s s')
  | polling {k : KickCounter} (kick : s.run.machine.kicks.rx.take? = some k)
      (waits : Draining (s.woken k) s')

/-! ## A send in steps -/

namespace Firmware

variable {s s' s'' : Station σ} {src dst : UInt32} {data : List UInt8}

/-- An attempt that finds a buffer ends the send. -/
theorem sendBlocking_of_sent (sent : Attempted ⟨src, dst, data.take maxPayload⟩ s true s') :
    sendBlocking src dst data s = .ok ((), s') := by
  obtain ⟨⟨machine, schedule, waits⟩, mux, app⟩ := s
  obtain ⟨run⟩ := sent
  dsimp only at run
  rw [sendBlocking, sendWaiting.eq_def]
  simp only [run]

/-- After a wait the send goes on as if it began anew. -/
theorem sendBlocking_of_waited (tried : Attempted ⟨src, dst, data.take maxPayload⟩ s false s')
    (waited : Waited s' s'') : sendBlocking src dst data s = sendBlocking src dst data s'' := by
  obtain ⟨⟨machine, schedule, waits⟩, mux, app⟩ := s
  obtain ⟨run⟩ := tried
  obtain ⟨next, turned⟩ := waited
  dsimp only at run next turned
  subst next
  rw [sendBlocking, sendWaiting.eq_def]
  simp only [run, turned]
  rfl

end Firmware

/-! ## Waits as paths -/

theorem Attempted.path {msg : Message} {s s' : Station σ} {sent : Bool} (placed : s.cores.Placed)
    (h : Attempted msg s sent s') :
    ∃ acts, Cores.Path s.cores acts s'.cores := by
  cases h with
  | mk run =>
    obtain ⟨acts, path, -⟩ := trySend_path placed run
    exact ⟨acts, path⟩

theorem Waited.path {s s' : Station σ} (placed : s.cores.Placed) (h : Waited s s') :
    ∃ acts, Cores.Path s.cores acts s'.cores := by
  cases h with
  | mk next run =>
    obtain ⟨acts, path, -⟩ := wait_byPeer _ _ _ _ _ _ _ placed run
    exact ⟨acts, path⟩

theorem Waiting.path {msg : Message} {s s' : Station σ} (placed : s.cores.Placed)
    (h : Waiting msg s s') : ∃ acts, Cores.Path s.cores acts s'.cores := by
  induction h with
  | here tried => exact tried.path placed
  | later tried waited waits ih =>
    obtain ⟨acts₁, path₁⟩ := tried.path placed
    have placed₁ := path₁.placed placed
    obtain ⟨acts₂, path₂⟩ := waited.path placed₁
    obtain ⟨acts₃, path₃⟩ := ih (path₂.placed placed₁)
    exact ⟨_, path₁.append (path₂.append path₃)⟩

theorem Answering.path {ep : Endpoint} {replies : Replies} {s s' : Station σ}
    (placed : s.cores.Placed) (h : Answering ep replies s s') :
    ∃ acts, Cores.Path s.cores acts s'.cores := by
  induction h with
  | here waits => exact waits.path placed
  | later sent waits ih =>
    obtain ⟨acts₁, path₁, -⟩ := (Firmware.sendBlocking_eq_ok placed sent).path
    obtain ⟨acts₂, path₂⟩ := ih (path₁.placed placed)
    exact ⟨_, path₁.append path₂⟩

/-- Where a drain waits it has taken a packet, and all that it did since is a path. -/
theorem Draining.path {s s' : Station σ} (placed : s.cores.Placed) (h : Draining s s') :
    ∃ idx acts, s.mux.rx.next? s.memory = some idx ∧
      Cores.Path s.advanced.cores acts s'.cores := by
  induction h with
  | @here s s' idx slot header data replies app next accepted handled waits =>
    have placed₁ := Station.placed_advanced placed
    have start := s.advanced.cores_peek_told idx slot header.src app
    rw [← start] at placed₁
    obtain ⟨acts, path⟩ := waits.path placed₁
    rw [start] at path
    exact ⟨idx, acts, next, path⟩
  | @later s s₁ s' idx delivery next handled waits ih =>
    have placed₁ := Station.placed_advanced placed
    obtain ⟨acts₁, path₁, -⟩ := handled.path_handBack placed₁
    obtain ⟨idx₂, acts₂, next₂, path₂⟩ := ih (path₁.placed placed₁)
    have step₂ : Cores.Step (s₁.handBack idx).cores (.took idx₂) (s₁.handBack idx).advanced.cores :=
      .took next₂
    exact ⟨idx, _, next, (path₁.step step₂).append path₂⟩

/-- All that a call did until it waits is a path. -/
theorem Awaits.path {s s' : Station σ} (placed : s.cores.Placed) (h : Awaits s s') :
    ∃ acts, Cores.Path s.cores acts s'.cores := by
  cases h with
  | @creating name handler slot free waits =>
    have placed₁ : (s.entered slot name handler).cores.Placed := placed
    have path := waits.path placed₁
    exact path
  | sending live waits => exact waits.path placed
  | @polling k kick waits =>
    have woken := s.cores_woken k
    obtain ⟨idx, acts, next, path⟩ := waits.path (Station.placed_woken placed k)
    -- The peer has no turn between the kick and the first packet.
    have first : Cores.Path s.cores [.woke (some idx)] (s.woken k).advanced.cores := by
      have advanced : (s.woken k).advanced.cores =
          { (s.woken k).cores with rx := (s.woken k).cores.rx.advance } := rfl
      have memory : (s.woken k).memory = s.cores.memory := congrArg Cores.memory woken
      rw [advanced, woken]
      rw [memory] at next
      exact .single (.woke kick next)
    exact ⟨_, first.append path⟩

end InterCore.Link
