import InterCore.Proofs.Link.ChannelTable
import InterCore.Proofs.Link.Reports

/-!
# Moments of the firmware

Between its calls, and inside of one wherever the peer can act, the firmware is at a `Moment`: it
may have an incoming packet that it has not handed back, and messages that it has still to send
before the call can go on. `Run` is a sequence of such moments with a `Trace` of what happened. It
goes on with every step of the peer and with every call that returns, and also into the waits of a
call that does not return (`GoesOn`).
-/

namespace InterCore.Link

open InterCore.Packet (Header maxLen maxPayload)

variable {σ : Type}

/-- What was seen of a run. -/
structure Trace where
  acts : List Act := []
  /-- What the peer sent. -/
  letters : List (Option Message) := []
  /-- What the peer received. -/
  mail : List Message := []
  /-- The messages in the packets that the firmware took. -/
  reads : List (Option Message) := []
  /-- The packets that the firmware took, and what became of them. -/
  log : List (UInt16 × Option Delivery) := []

namespace Trace

/-- A trace goes on in all of its lists at once. -/
instance : Append Trace where
  append t t' :=
    ⟨t.acts ++ t'.acts, t.letters ++ t'.letters, t.mail ++ t'.mail, t.reads ++ t'.reads, t.log ++ t'.log⟩

variable (t t' t'' : Trace)

@[simp]
theorem acts_append : (t ++ t').acts = t.acts ++ t'.acts := rfl

@[simp]
theorem letters_append : (t ++ t').letters = t.letters ++ t'.letters := rfl

@[simp]
theorem mail_append : (t ++ t').mail = t.mail ++ t'.mail := rfl

@[simp]
theorem reads_append : (t ++ t').reads = t.reads ++ t'.reads := rfl

@[simp]
theorem log_append : (t ++ t').log = t.log ++ t'.log := rfl

theorem append_nothing : t ++ {} = t := by
  show Trace.mk _ _ _ _ _ = t
  simp only [List.append_nil]

theorem append_assoc : t ++ t' ++ t'' = t ++ (t' ++ t'') := by
  show Trace.mk _ _ _ _ _ = Trace.mk _ _ _ _ _
  simp only [acts_append, letters_append, mail_append, reads_append, log_append, List.append_assoc]

end Trace

/-- Where the firmware is between two things that it does. -/
structure Moment (σ : Type) where
  station : Station σ
  /-- The incoming buffer that the firmware has. -/
  held : Option UInt16 := none
  /-- What it has to send before it does anything else. -/
  due : List Message := []

/-- The firmware took the next packet. -/
structure Takes (s : Station σ) (act : Act) (idx : UInt16) (s' : Station σ) : Prop where
  step : Cores.Step s.cores act s'.cores
  taken : act.taken = some idx
  mux : s'.mux = { s.mux with rx := s'.mux.rx }
  app : s'.app = s.app

theorem Takes.channels {s s' : Station σ} {act : Act} {idx : UInt16} (h : Takes s act idx s') :
    s'.mux.channels = s.mux.channels ∧ s'.mux.nextAddr = s.mux.nextAddr := by
  rw [h.mux]
  exact ⟨rfl, rfl⟩

theorem Takes.sentIn_eq {s s' : Station σ} {act : Act} {idx : UInt16} (h : Takes s act idx s') :
    sentIn [act] = [] := by
  rcases Act.of_taken h.taken with rfl | rfl <;> rfl

/-- The firmware is about to look for packets: what it does first as it goes on from `s'` it does to
the link at `s`. -/
structure About (s s' : Station σ) : Prop where
  takes : ∀ {idx}, s'.mux.rx.next? s'.memory = some idx → ∃ act, Takes s act idx s'.advanced
  inVain : s'.mux.rx.next? s'.memory = none → Sends s [] s'

theorem About.now (s : Station σ) : About s s :=
  ⟨fun next => ⟨_, .took next, rfl, rfl, rfl⟩, fun _ => .refl s⟩

/-- The peer has no turn between a kick and the first look for a packet. -/
theorem About.woken {s : Station σ} {k : KickCounter} (kick : s.run.machine.kicks.rx.take? = some k) :
    About s (s.woken k) := by
  have cores := s.cores_woken k
  have memory : (s.woken k).memory = s.cores.memory := congrArg Cores.memory cores
  refine ⟨?_, ?_⟩
  · intro idx next
    rw [memory] at next
    have advanced : (s.woken k).advanced.cores =
        { (s.woken k).cores with rx := (s.woken k).cores.rx.advance } := rfl
    refine ⟨.woke (some idx), ?_, rfl, rfl, rfl⟩
    rw [advanced, cores]
    exact .woke kick next
  · intro next
    rw [memory] at next
    refine ⟨⟨[.woke none], ?_, rfl, rfl⟩, rfl, rfl⟩
    rw [cores]
    exact .single (.wokeInVain kick next)

/-! ## Waits send nothing -/

section Waits

variable {msg : Message} {s s' : Station σ}

theorem Attempted.sends (placed : s.cores.Placed) (h : Attempted msg s false s') : Sends s [] s' := by
  obtain ⟨run⟩ := h
  obtain ⟨acts, path, sent, quiet, -⟩ := trySend_path placed run
  exact ⟨⟨acts, path, sent, quiet⟩, rfl, rfl⟩

theorem Waited.sends (placed : s.cores.Placed) (h : Waited s s') : Sends s [] s' := by
  obtain ⟨next, run⟩ := h
  obtain ⟨acts, path, peer⟩ := wait_byPeer _ _ _ _ _ _ _ placed run
  exact ⟨⟨acts, path, sentIn_byPeer peer, served_byPeer peer⟩, rfl, rfl⟩

theorem Waiting.sends (placed : s.cores.Placed) (h : Waiting msg s s') : Sends s [] s' := by
  induction h with
  | here tried => exact tried.sends placed
  | later tried waited waits ih =>
    have first := tried.sends placed
    have both := first.trans (waited.sends (first.placed placed))
    exact both.trans (ih (both.placed placed))

end Waits

namespace Moment

/-- From one moment to the next. New channels get handlers that `may` admits, and the application
sends messages of its own only `on` some channels. -/
inductive Step (may : Handler σ → Prop) (on : Fin maxChannels → Prop) :
    Moment σ → Trace → Moment σ → Prop where
  | create {s : Station σ} {slot : Fin maxChannels} {name : String} {handler : Handler σ}
      (allowed : may handler) (free : s.freeSlot? = some slot) :
      Step may on { station := s } {} { station := s.entered slot name handler
                                        due := [Firmware.announcement name s.mux.nextAddr] }
  | say {s : Station σ} {slot : Fin maxChannels} {data : List UInt8} (allowed : on slot) :
      Step may on { station := s } {} { station := s, due := s.sendOn slot data }
  /-- The peer acts, or the firmware sends some of what is due. -/
  | pass {s s' : Station σ} {held : Option UInt16} {acts : List Act}
      {letters : List (Option Message)} {mail messages due : List Message}
      (traffic : Cores.Traffic s.cores acts letters mail s'.cores) (sent : sentIn acts = messages)
      (quiet : served acts = []) (mux : s'.mux = { s.mux with tx := s'.mux.tx })
      (app : s'.app = s.app) :
      Step may on ⟨s, held, messages ++ due⟩ { acts, letters, mail } ⟨s', held, due⟩
  | drop {s s' : Station σ} {act : Act} {idx : UInt16} (takes : Takes s act idx s')
      (refused : ∀ slot header data, ¬ s'.Accepts idx slot header data) :
      Step may on { station := s }
        { acts := [act], reads := [s'.cores.letter? idx], log := [(idx, none)] }
        { station := s'.perform (s'.peekEvents idx), held := some idx }
  | deliver {s s' : Station σ} {act : Act} {idx : UInt16} {slot : Fin maxChannels} {header : Header}
      {data : List UInt8} {replies : Replies} {app : σ} (takes : Takes s act idx s')
      (accepted : s'.Accepts idx slot header data)
      (handled : (s'.mux.channels.get slot).handler ⟨header.dst, header.src⟩ data s'.app =
        (replies, app)) :
      Step may on { station := s }
        { acts := [act], reads := [s'.cores.letter? idx]
          log := [(idx, some ⟨slot, ⟨header.dst, header.src⟩, data, replies.toList⟩)] }
        { station := (s'.perform (s'.peekEvents idx)).told slot header.src app
          held := some idx
          due := Firmware.messagesFrom ⟨header.dst, header.src⟩ replies.toList }
  | finish {s : Station σ} {idx : UInt16} :
      Step may on { station := s, held := some idx } { acts := [.returned idx] }
        { station := s.handBack idx }

/-- One moment after the other, with what was seen. -/
inductive Run (may : Handler σ → Prop) (on : Fin maxChannels → Prop) (start : Moment σ) :
    Trace → Moment σ → Prop where
  | start : Run may on start {} start
  | step {t t' : Trace} {m m' : Moment σ} (before : Run may on start t m) (step : Step may on m t' m') :
      Run may on start (t ++ t') m'

variable {may may' : Handler σ → Prop} {on on' : Fin maxChannels → Prop} {start m m' m'' : Moment σ}
  {t t' : Trace} {s s' : Station σ} {held : Option UInt16} {idx : UInt16} {messages due : List Message}

theorem Step.mono (h : Step may on m t m') (more : ∀ handler, may handler → may' handler)
    (wider : ∀ slot, on slot → on' slot) : Step may' on' m t m' := by
  cases h with
  | create allowed free => exact .create (more _ allowed) free
  | say allowed => exact .say (wider _ allowed)
  | pass traffic sent quiet mux app => exact .pass traffic sent quiet mux app
  | drop takes refused => exact .drop takes refused
  | deliver takes accepted handled => exact .deliver takes accepted handled
  | finish => exact .finish

theorem Step.traffic (h : Step may on m t m') :
    Cores.Traffic m.station.cores t.acts t.letters t.mail m'.station.cores := by
  have took {s s' : Station σ} {act : Act} {idx : UInt16} (takes : Takes s act idx s') :
      Cores.Traffic s.cores [act] [] [] s'.cores := by
    have one := Cores.Traffic.single takes.step
    rcases Act.of_taken takes.taken with rfl | rfl <;> exact one
  cases h with
  | create allowed free => exact .start
  | say allowed => exact .start
  | pass traffic sent quiet mux app => exact traffic
  | drop takes refused =>
    dsimp only
    rw [Station.cores_peek]
    exact took takes
  | deliver takes accepted handled =>
    dsimp only
    rw [Station.cores_peek_told]
    exact took takes
  | @finish s idx => exact .single (s.step_handBack idx)

namespace Run

theorem mono (h : Run may on start t m) (more : ∀ handler, may handler → may' handler)
    (wider : ∀ slot, on slot → on' slot) : Run may' on' start t m := by
  induction h with
  | start => exact .start
  | step before step ih => exact ih.step (step.mono more wider)

theorem append (h : Run may on start t m) (h' : Run may on m t' m') :
    Run may on start (t ++ t') m' := by
  induction h' with
  | start => rwa [Trace.append_nothing]
  | step before step ih =>
    rw [← Trace.append_assoc]
    exact ih.step step

theorem single (step : Step may on m t m') : Run may on m t m' := by
  have one := Run.start.step step
  exact one

theorem traffic (h : Run may on start t m) :
    Cores.Traffic start.station.cores t.acts t.letters t.mail m.station.cores := by
  induction h with
  | start => exact .start
  | step before step ih => exact ih.append step.traffic

theorem placed (h : Run may on start t m) (placed : start.station.cores.Placed) :
    m.station.cores.Placed :=
  h.traffic.path.placed placed

/-! ## What the firmware and the peer do -/

/-- The firmware sends what is due. -/
theorem sends (h : Run may on start t ⟨s, held, messages ++ due⟩) (sends : Sends s messages s') :
    ∃ more, Run may on start (t ++ more) ⟨s', held, due⟩ ∧ more.log = [] := by
  obtain ⟨acts, path, sent, quiet⟩ := sends.path
  obtain ⟨letters, mail, traffic⟩ := path.traffic
  exact ⟨_, h.step (.pass traffic sent quiet sends.mux sends.app), rfl⟩

/-- The peer acts meanwhile. -/
theorem rests (h : Run may on start t ⟨s, held, due⟩) (rests : Sends s [] s') :
    ∃ more, Run may on start (t ++ more) ⟨s', held, due⟩ ∧ more.log = [] := by
  have h : Run may on start t ⟨s, held, [] ++ due⟩ := h
  exact h.sends rests

/-- All that was due is sent. -/
theorem sendsAll (h : Run may on start t ⟨s, held, messages⟩) (sends : Sends s messages s') :
    ∃ more, Run may on start (t ++ more) ⟨s', held, []⟩ ∧ more.log = [] := by
  rw [← List.append_nil messages] at h
  exact h.sends sends

/-- The peer acts, wherever the firmware is. -/
theorem byPeer (h : Run may on start t ⟨s, held, due⟩) {machine : Machine} {acts : List Act}
    {letters : List (Option Message)} {mail : List Message}
    (traffic : Cores.Traffic s.cores acts letters mail (s.withMachine machine).cores)
    (peer : ∀ act ∈ acts, act.byPeer) :
    Run may on start (t ++ { acts, letters, mail }) ⟨s.withMachine machine, held, due⟩ := by
  have h : Run may on start t ⟨s, held, [] ++ due⟩ := h
  exact h.step (.pass traffic (sentIn_byPeer peer) (served_byPeer peer) rfl rfl)

/-- The peer takes a step. -/
theorem stepped (h : Run may on start t m) (placed : start.station.cores.Placed) {step : PeerStep}
    {outcome : PeerOutcome} {machine : Machine}
    (run : step.run m.station.run.machine = .ok (outcome, machine)) :
    ∃ more, Run may on start (t ++ more) { m with station := m.station.withMachine machine } ∧
      more.log = [] ∧ more.mail = step.mail outcome ∧
        more.letters = (step.offered? outcome).toList.map (m.station.withMachine machine).cores.letter? := by
  obtain ⟨s, held, due⟩ := m
  have placed : (s.run.machine.cores s.mux.tx s.mux.rx).Placed := h.placed placed
  obtain ⟨acts, traffic, peer⟩ := step.traffic placed run
  exact ⟨_, h.byPeer traffic peer, rfl, rfl, rfl⟩

/-- The peer can write a packet into a buffer where it fits, and offer the buffer. -/
theorem posts (h : Run may on start t ⟨s, held, due⟩) (order : s.cores.InOrder)
    (readable : s.cores.Readable idx) (q : Message)
    (fits : Header.size + q.data.length ≤ (s.cores.rxBuffer idx).capacity) :
    let addr := (s.cores.rxBuffer idx).addr.toNat
    ∃ machine, Run may on start
      (t ++ { acts := [.wrote addr q.header.encode, .wrote (addr + Header.size) q.data, .offeredRx idx]
              letters := [some q] })
      ⟨s.withMachine machine, held, due⟩ := by
  intro addr
  obtain ⟨covers, coversData⟩ := readable.reachable (by omega)
  have few : q.data.length ≤ maxLen := by
    have capacity : (s.cores.rxBuffer idx).capacity ≤ maxLen := Nat.min_le_right _ _
    omega
  have whole : q.header.len.toNat = q.data.length := by
    have small : maxLen < UInt16.size := by decide
    exact UInt16.toNat_ofNat_of_lt' (Nat.lt_of_le_of_lt few small)
  have headerFits : s.run.machine.bus.memory.Covers addr q.header.encode.length := by
    rw [Header.length_encode]
    exact covers
  obtain ⟨m₁, -, -, step₁⟩ := asPeer_write_eq headerFits s.mux.tx s.mux.rx
  have step₁ : Cores.Step s.cores (.wrote addr q.header.encode) (s.withMachine m₁).cores := step₁
  have dataFits : m₁.bus.memory.Covers (addr + Header.size) q.data.length := by
    refine step₁.sameRings.covers.mpr ?_
    simp only [Memory.Covers] at coversData ⊢
    omega
  obtain ⟨m₂, -, -, step₂⟩ := asPeer_write_eq dataFits s.mux.tx s.mux.rx
  have both := (Cores.Traffic.single step₁).step step₂
  obtain ⟨m₃, -, -, step₃⟩ := Peer.offerRx_eq idx (both.path.placed order.placed)
  have letter : (s.withMachine m₃).cores.letter? idx = some q :=
    Cores.letter?_of_written order readable fits whole step₁ step₂ step₃
  have traffic : Cores.Traffic s.cores _ [(s.withMachine m₃).cores.letter? idx] [] _ := both.step step₃
  rw [letter] at traffic
  exact ⟨m₃, h.byPeer traffic (by simp [Act.byPeer])⟩

/-- The peer is given other turns in the waits to come. -/
theorem planned (h : Run may on start t m) (schedule : List (List PeerStep)) :
    Run may on start t { m with station := m.station.withSchedule schedule } := by
  obtain ⟨s, held, due⟩ := m
  have pass : Step may on ⟨s, held, [] ++ due⟩ {} ⟨s.withSchedule schedule, held, due⟩ :=
    .pass .start rfl rfl rfl rfl
  have next := h.step pass
  rwa [Trace.append_nothing] at next

/-- The firmware handles a packet that it has taken. -/
theorem handled {s₁ : Station σ} {act : Act} {delivery : Option Delivery}
    (h : Run may on start t { station := s }) (takes : Takes s act idx s₁) (placed : s₁.cores.Placed)
    (handled : Handled s₁ idx delivery s') :
    ∃ more, Run may on start (t ++ more) { station := s', held := some idx } ∧
      more.log = [(idx, delivery)] := by
  cases handled with
  | dropped refused => exact ⟨_, h.step (.drop takes refused), rfl⟩
  | @delivered slot header data replies app _ accepted handled answered =>
    have told := h.step (.deliver takes accepted handled)
    rw [← s₁.cores_peek_told idx slot header.src app] at placed
    obtain ⟨more, run, quiet⟩ := told.sendsAll (Firmware.sendBack_eq_ok placed answered)
    rw [Trace.append_assoc] at run
    refine ⟨_, run, ?_⟩
    rw [Trace.log_append, quiet]
    rfl

/-- The firmware handles a packet, and hands its buffer back. -/
theorem served {s₁ : Station σ} {act : Act} {delivery : Option Delivery}
    (h : Run may on start t { station := s }) (takes : Takes s act idx s₁) (placed : s₁.cores.Placed)
    (handled : Handled s₁ idx delivery s') :
    ∃ more, Run may on start (t ++ more) { station := s'.handBack idx } ∧
      more.log = [(idx, delivery)] := by
  obtain ⟨more, run, logged⟩ := h.handled takes placed handled
  have next := run.step .finish
  rw [Trace.append_assoc] at next
  refine ⟨_, next, ?_⟩
  rw [Trace.log_append, logged]
  rfl

/-- The firmware handles the packets that are there. It may be about to do so. -/
theorem drains {log : List (UInt16 × Option Delivery)} {s₀ : Station σ}
    (h : Run may on start t { station := s₀ }) (about : About s₀ s) (placed : s.cores.Placed)
    (drains : Drains s log s') :
    ∃ more, Run may on start (t ++ more) { station := s' } ∧ more.log = log := by
  induction drains generalizing t s₀ with
  | empty next => exact h.sendsAll (about.inVain next)
  | @packet s s₁ s' idx delivery log next handled later ih =>
    obtain ⟨act, takes⟩ := about.takes next
    have placed₁ := Station.placed_advanced placed
    obtain ⟨more, run, logged⟩ := h.served takes placed₁ handled
    obtain ⟨more', run', logged'⟩ := ih run (.now _) (handled.placed_handBack placed₁)
    rw [Trace.append_assoc] at run'
    refine ⟨_, run', ?_⟩
    rw [Trace.log_append, logged, logged']
    rfl

/-- The firmware returns from a poll. -/
theorem polled {log : List (UInt16 × Option Delivery)} {b : Bool}
    (h : Run may on start t { station := s }) (placed : s.cores.Placed) (went : Polled s log b s') :
    ∃ more, Run may on start (t ++ more) { station := s' } ∧ more.log = log := by
  cases went with
  | idle none =>
    refine h.sendsAll ⟨⟨[], ?_, rfl, rfl⟩, rfl, rfl⟩
    rw [Station.cores_afterTxKick]
    exact .start
  | woken kick drains => exact h.drains (.woken kick) (Station.placed_woken placed _) drains

/-- A channel is entered, with any handler. -/
theorem enters (h : Run may on start t { station := s }) {slot : Fin maxChannels}
    (free : s.freeSlot? = some slot) (name : String) (handler : Handler σ) :
    Run (fun _ => True) (fun _ => True) start t
      { station := s.entered slot name handler
        due := [Firmware.announcement name s.mux.nextAddr] } := by
  have entered : Step (fun _ => True) (fun _ => True) { station := s } {}
      { station := s.entered slot name handler
        due := [Firmware.announcement name s.mux.nextAddr] } := .create trivial free
  have next := (h.mono (fun _ _ => trivial) fun _ _ => trivial).step entered
  rwa [Trace.append_nothing] at next

/-- A channel that was entered is announced. -/
theorem announced {slot : Fin maxChannels} {name : String} {handler : Handler σ}
    (placed : s.cores.Placed) (run : Firmware.createChannel name handler s = .ok (.ok slot, s')) :
    s.freeSlot? = some slot ∧ ∃ more, Run may on
      { station := s.entered slot name handler
        due := [Firmware.announcement name s.mux.nextAddr] } more { station := s' } ∧
      more.log = [] := by
  rcases createChannel_cases placed run with ⟨slot', free, same, sends⟩ | ⟨-, refused, -⟩
  · cases same
    obtain ⟨more, next, quiet⟩ := Run.start.sendsAll sends
    exact ⟨free, _, next, quiet⟩
  · cases refused

/-- The firmware creates a channel. -/
theorem created {slot : Fin maxChannels} {name : String} {handler : Handler σ}
    (h : Run may on start t { station := s }) (placed : s.cores.Placed) (allowed : may handler)
    (run : Firmware.createChannel name handler s = .ok (.ok slot, s')) :
    ∃ more, Run may on start (t ++ more) { station := s' } ∧ more.log = [] := by
  obtain ⟨free, more, next, quiet⟩ := announced placed run
  have both := (h.step (.create allowed free)).append next
  rw [Trace.append_nothing] at both
  exact ⟨more, both, quiet⟩

/-- The application sends a message of its own. -/
theorem said {slot : Fin maxChannels} {data : List UInt8}
    (h : Run may on start t { station := s }) (placed : s.cores.Placed) (allowed : on slot)
    (run : Firmware.send slot data s = .ok ((), s')) :
    ∃ more, Run may on start (t ++ more) { station := s' } ∧ more.log = [] := by
  have step : Step may on { station := s } {} { station := s, due := s.sendOn slot data } := .say allowed
  have due := h.step step
  rw [Trace.append_nothing] at due
  exact due.sendsAll (Firmware.send_eq_ok placed run)

/-- The firmware waits while it sends messages back. -/
theorem answering {ep : Endpoint} {replies : Replies} (placed : s.cores.Placed)
    (h : Run may on start t ⟨s, held, Firmware.messagesFrom ep replies.toList⟩)
    (waits : Answering ep replies s s') :
    ∃ more due, Run may on start (t ++ more) ⟨s', held, due⟩ := by
  induction waits generalizing t with
  | here waits =>
    obtain ⟨more, run, -⟩ := h.rests (waits.sends placed)
    exact ⟨more, _, run⟩
  | @later data rest s s₁ s' sent waits ih =>
    have sends := Firmware.sendBlocking_eq_ok placed sent
    have next : Run may on start t ⟨s, held,
      [⟨ep.localAddr, ep.remoteAddr, data.take maxPayload⟩] ++ Firmware.messagesFrom ep (rest ()).toList⟩ := h
    obtain ⟨more, run, -⟩ := next.sends sends
    obtain ⟨more', due, run'⟩ := ih (sends.placed placed) run
    rw [Trace.append_assoc] at run'
    exact ⟨_, due, run'⟩

/-- The firmware waits while it handles the packets that are there. -/
theorem draining {s₀ : Station σ} (h : Run may on start t { station := s₀ }) (about : About s₀ s)
    (placed : s.cores.Placed) (waits : Draining s s') :
    ∃ more held due, Run may on start (t ++ more) ⟨s', held, due⟩ := by
  induction waits generalizing t s₀ with
  | @here s s' idx slot header data replies app next accepted handled waits =>
    obtain ⟨act, takes⟩ := about.takes next
    have placed₁ := Station.placed_advanced placed
    rw [← s.advanced.cores_peek_told idx slot header.src app] at placed₁
    obtain ⟨more, due, run⟩ := answering placed₁ (h.step (.deliver takes accepted handled)) waits
    rw [Trace.append_assoc] at run
    exact ⟨_, _, due, run⟩
  | @later s s₁ s' idx delivery next handled waits ih =>
    obtain ⟨act, takes⟩ := about.takes next
    have placed₁ := Station.placed_advanced placed
    obtain ⟨more, run, -⟩ := h.served takes placed₁ handled
    obtain ⟨more', held, due, run'⟩ := ih run (.now _) (handled.placed_handBack placed₁)
    rw [Trace.append_assoc] at run'
    exact ⟨_, held, due, run'⟩

end Run

/-- Moments follow on one another with whatever the peer and the firmware do: with every step of the
peer, and where no call is in progress, with every call that returns or waits. -/
structure GoesOn (may : Handler σ → Prop) (on : Fin maxChannels → Prop) (m : Moment σ) : Prop where
  stepped : ∀ {step : PeerStep} {outcome machine},
    step.run m.station.run.machine = .ok (outcome, machine) →
      ∃ t, Run may on m t { m with station := m.station.withMachine machine } ∧
        t.mail = step.mail outcome ∧
        t.letters = (step.offered? outcome).toList.map (m.station.withMachine machine).cores.letter?
  planned : ∀ schedule, Run may on m {} { m with station := m.station.withSchedule schedule }
  polled : m.held = none → m.due = [] → ∀ {b s'}, Firmware.poll m.station = .ok (b, s') →
    ∃ t, Polled m.station t.log b s' ∧ Run may on m t { station := s' }
  polling : m.held = none → m.due = [] → ∀ {k s'}, m.station.run.machine.kicks.rx.take? = some k →
    Draining (m.station.woken k) s' → ∃ t held due, Run may on m t ⟨s', held, due⟩
  created : m.held = none → m.due = [] → ∀ {name handler slot s'}, may handler →
    Firmware.createChannel name handler m.station = .ok (.ok slot, s') →
      ∃ t, Run may on m t { station := s' }
  creating : m.held = none → m.due = [] → ∀ {name handler slot s'}, may handler →
    m.station.freeSlot? = some slot →
      Waiting (Firmware.announcement name m.station.mux.nextAddr)
        (m.station.entered slot name handler) s' → ∃ t due, Run may on m t ⟨s', none, due⟩
  said : m.held = none → m.due = [] → ∀ {slot data s'}, on slot →
    Firmware.send slot data m.station = .ok ((), s') → ∃ t, Run may on m t { station := s' }
  saying : m.held = none → m.due = [] → ∀ {slot data msg s'}, on slot →
    m.station.sendOn slot data = [msg] → Waiting msg m.station s' →
      ∃ t due, Run may on m t ⟨s', none, due⟩

theorem goesOn (may : Handler σ → Prop) (on : Fin maxChannels → Prop) {m : Moment σ}
    (placed : m.station.cores.Placed) : GoesOn may on m := by
  obtain ⟨s, held, due⟩ := m
  constructor
  case stepped =>
    intro step outcome machine run
    obtain ⟨more, next, -, said⟩ := Run.start.stepped placed run
    exact ⟨_, next, said⟩
  case planned => exact fun schedule => Run.start.planned schedule
  case polled =>
    rintro rfl rfl b s' run
    obtain ⟨log, went⟩ := Firmware.poll_eq_ok placed run
    obtain ⟨more, next, rfl⟩ := Run.start.polled placed went
    exact ⟨_, went, next⟩
  case polling =>
    rintro rfl rfl k s' kick waits
    obtain ⟨more, held, due, next⟩ := Run.start.draining (.woken kick) (Station.placed_woken placed k) waits
    exact ⟨_, held, due, next⟩
  case created =>
    rintro rfl rfl name handler slot s' allowed run
    obtain ⟨more, next, -⟩ := Run.start.created placed allowed run
    exact ⟨_, next⟩
  case creating =>
    rintro rfl rfl name handler slot s' allowed free waits
    obtain ⟨more, next, -⟩ := (Run.start.step (.create allowed free)).rests (waits.sends placed)
    exact ⟨_, _, next⟩
  case said =>
    rintro rfl rfl slot data s' allowed run
    obtain ⟨more, next, -⟩ := Run.start.said placed allowed run
    exact ⟨_, next⟩
  case saying =>
    rintro rfl rfl slot data msg s' allowed due waits
    have step : Step may on { station := s } {} { station := s, due := s.sendOn slot data } :=
      .say allowed
    obtain ⟨more, next, -⟩ := (Run.start.step step).rests (waits.sends placed)
    exact ⟨_, _, next⟩

/-! ## What a run keeps -/

/-- What the firmware took is what the peer sent, in order, and the rest waits. The account of who
has which buffer is true. -/
structure Tallies (c₀ : Cores) (t : Trace) (m : Moment σ) : Prop where
  accounted : c₀.Accounted t.acts m.held m.station.cores
  letters : t.letters = t.reads ++ m.station.cores.backlog

/-- A packet that was taken is read as it was sent. -/
theorem Tallies.taken {c₀ : Cores} {act : Act} {log : List (UInt16 × Option Delivery)} {s s₁ : Station σ}
    (h : Tallies c₀ t { station := s }) (prepared : c₀.Prepared) (takes : Takes s act idx s₁)
    (cores : s'.cores = s₁.cores) : Tallies c₀
      (t ++ { acts := [act], reads := [s₁.cores.letter? idx], log }) ⟨s', some idx, due⟩ := by
  obtain ⟨accounted, backlog⟩ := h.accounted.backlog_taken prepared takes.step takes.taken
  have known : t.letters = t.reads ++ s.cores.backlog := h.letters
  refine ⟨?_, ?_⟩
  · dsimp only
    rw [cores]
    exact accounted
  · dsimp only [Trace.letters_append, Trace.reads_append]
    rw [cores, List.append_nil, known, backlog, List.append_assoc]
    rfl

theorem Tallies.step {c₀ : Cores} (h : Tallies c₀ t m) (prepared : c₀.Prepared)
    (step : Step may on m t' m') (obeys : Obeys c₀.rule (t ++ t').acts) : Tallies c₀ (t ++ t') m' := by
  cases step with
  | create allowed free =>
    rw [Trace.append_nothing]
    exact ⟨h.accounted, h.letters⟩
  | say allowed =>
    rw [Trace.append_nothing]
    exact ⟨h.accounted, h.letters⟩
  | pass traffic sent quiet mux app =>
    obtain ⟨accounted, backlog⟩ := h.accounted.traffic prepared traffic quiet obeys
    refine ⟨accounted, ?_⟩
    dsimp only [Trace.letters_append, Trace.reads_append]
    rw [h.letters, backlog, List.append_nil, List.append_assoc]
  | drop takes refused => exact h.taken prepared takes (Station.cores_peek _ _)
  | deliver takes accepted handled =>
    exact h.taken prepared takes (Station.cores_peek_told _ _ _ _ _)
  | @finish s idx =>
    obtain ⟨accounted, backlog⟩ := h.accounted.backlog_returned prepared (s.step_handBack idx)
    refine ⟨accounted, ?_⟩
    dsimp only [Trace.letters_append, Trace.reads_append]
    rw [backlog, List.append_nil, List.append_nil]
    exact h.letters

theorem Run.tallies {start : Station σ} (h : Run may on { station := start } t m)
    (prepared : start.cores.Prepared) (obeys : Obeys start.cores.rule t.acts) :
    Tallies start.cores t m := by
  induction h with
  | start => exact ⟨prepared.accounted, (congrArg (List.map _) prepared.incoming_eq).symm⟩
  | step before step ih => exact (ih obeys.init).step prepared step obeys

/-- What waited at some moment and what the peer has sent since is what the firmware took since, and
what waits now. -/
theorem Tallies.since {c₀ : Cores} (h : Tallies c₀ t m) (h' : Tallies c₀ (t ++ t') m') :
    m.station.cores.backlog ++ t'.letters = t'.reads ++ m'.station.cores.backlog := by
  have before := h.letters
  have all : t.letters ++ t'.letters = t.reads ++ t'.reads ++ _ := h'.letters
  rw [before, List.append_assoc, List.append_assoc] at all
  exact List.append_cancel_left all

/-- A poll returns if its waits end, and then no packet waits. -/
theorem Tallies.poll_goes {c₀ : Cores} (h : Tallies c₀ t m) {k : KickCounter} {left : UInt16 → Prop}
    (kick : m.station.run.machine.kicks.rx.take? = some k)
    (supplied : ∀ s', Draining (m.station.woken k) s' → s'.Supplied left) :
    ∃ s', Firmware.poll m.station = .ok (true, s') ∧ s'.cores.incoming = [] := by
  obtain ⟨log, s', run, drains, -⟩ := Firmware.poll_goes h.accounted.usable kick supplied
  exact ⟨s', run, Ring.Device.offered_of_next?_none drains.next?_eq_none⟩

/-- A packet that the peer sends, and that fits into its buffer, is the letter there. -/
theorem Tallies.letter?_of_send {c₀ : Cores} (h : Tallies c₀ t m) (prepared : c₀.Prepared)
    {src dst : UInt32} {data : List UInt8} {len : UInt16} {kick : Bool} {machine : Machine}
    (run : PeerStep.run (.send src dst data len kick) m.station.run.machine = .ok (.index idx, machine))
    (inRing : idx.toNat < c₀.rx.layout.num.toNat)
    (fits : Header.size + data.length ≤ (c₀.rxBuffer idx).capacity) (whole : len.toNat = data.length) :
    (m.station.withMachine machine).cores.letter? idx = some ⟨src, dst, data⟩ := by
  have accounted := h.accounted
  have order := accounted.usable.order
  rw [← accounted.rxBuffers idx inRing] at fits
  obtain ⟨idx?, m₁, sent, rest⟩ := bind_eq_ok.mp run
  have placed : (m.station.run.machine.cores m.station.mux.tx m.station.mux.rx).Placed := order.placed
  have sends := Peer.send_eq_ok placed sent
  cases idx? with
  | none => cases rest
  | some i =>
    cases rest
    exact sends.letter?_eq order (accounted.readable prepared inRing) fits whole

/-- Every buffer that was taken was handed back, but for the one that the firmware has. -/
theorem Run.servings_eq {start : Station σ} (h : Run may on { station := start } t m) :
    servings t.log = Link.served t.acts ++
      m.held.toList.map fun idx => (.publish idx (UInt32.ofNat maxLen) true, .done) := by
  induction h with
  | start => rfl
  | step before step ih =>
    have took {acts : List Act} {act : Act} {log : List (UInt16 × Option Delivery)} {idx : UInt16}
        {delivery : Option Delivery} (taken : act.taken = some idx)
        (known : servings log = Link.served acts ++ []) :
        servings (log ++ [(idx, delivery)]) = Link.served (acts ++ [act]) ++
          [(.publish idx (UInt32.ofNat maxLen) true, .done)] := by
      rw [List.append_nil] at known
      have records : Link.served [act] = [(.take, .index (some idx))] := by
        rcases Act.of_taken taken with rfl | rfl <;> rfl
      rw [servings, List.flatMap_append, ← servings, known, served_append, records, List.append_assoc]
      rfl
    cases step with
    | create allowed free => simpa using ih
    | say allowed => simpa using ih
    | pass traffic sent quiet mux app => simpa [quiet] using ih
    | drop takes refused => exact took takes.taken ih
    | deliver takes accepted handled => exact took takes.taken ih
    | finish => simpa [Link.served] using ih

/-! ## The channel table in a run -/

/-- From one state of the station to another the table goes on with its deeds, and a slot keeps its
handler unless it is one that was given away, with a handler that `may` admits. -/
structure Extends (may : Handler σ → Prop) (deeds : List Deed) (s s' : Station σ) : Prop where
  table : ∃ more, Tabulates (deeds ++ more) s'
  handlers : ∀ i, (s'.channel i).handler = (s.channel i).handler ∨
    (namesIn deeds).length ≤ i.val ∧ may (s'.channel i).handler

variable {deeds : List Deed}

theorem Extends.of_same (table : Tabulates deeds s) (channels : s'.mux.channels = s.mux.channels)
    (nextAddr : s'.mux.nextAddr = s.mux.nextAddr) : Extends may deeds s s' := by
  refine ⟨⟨[], ?_⟩, fun i => .inl ?_⟩
  · rw [List.append_nil]
    exact table.of_same channels nextAddr
  · rw [Station.channel, Station.channel, channels]

theorem Step.extends (step : Step may on m t m') (table : Tabulates deeds m.station) :
    Extends may deeds m.station m'.station := by
  cases step with
  | @create s slot name handler allowed free =>
    refine ⟨⟨_, table.entered free name handler⟩, fun i => ?_⟩
    have channel : (s.entered slot name handler).channel i = _ := Station.channel_set
    rw [channel]
    split
    case isTrue here =>
      rw [← here]
      exact .inr ⟨Nat.le_of_eq (table.freeSlot?_eq_some free).symm, allowed⟩
    case isFalse => exact .inl rfl
  | say allowed => exact .of_same table rfl rfl
  | @pass s s' held acts letters mail messages due traffic sent quiet mux app =>
    refine .of_same table ?_ ?_
    all_goals dsimp only; rw [mux]
  | drop takes refused =>
    obtain ⟨channels, nextAddr⟩ := takes.channels
    exact .of_same table channels nextAddr
  | @deliver s s' act idx slot header data replies app takes accepted handled =>
    let peeked := s'.perform (s'.peekEvents idx)
    let d : Delivery := ⟨slot, ⟨header.dst, header.src⟩, data, replies.toList⟩
    obtain ⟨channels, nextAddr⟩ := takes.channels
    have still : Tabulates deeds peeked := table.of_same channels nextAddr
    have live : (peeked.channel d.slot).isLive := accepted.live
    refine ⟨⟨[.delivered d], still.told live app⟩, fun i => .inl ?_⟩
    have channel : (peeked.told slot header.src app).channel i = _ := Station.channel_set
    have same : peeked.channel i = s.channel i := congrArg (·.get i) channels
    rw [channel, ← same]
    split
    case isTrue here => rw [← here]; rfl
    case isFalse => rfl
  | @finish s idx =>
    have same : (s.handBack idx).mux = s.mux := rfl
    exact .of_same table (congrArg Multiplexer.channels same) (congrArg Multiplexer.nextAddr same)

/-- What waits first can be taken, and given to the channel that it is for. -/
theorem Step.delivers (may : Handler σ → Prop) (on : Fin maxChannels → Prop)
    (table : Tabulates deeds s) {q : Message} {rest : List (Option Message)}
    (waits : s.cores.backlog = some q :: rest) {slot : Fin maxChannels}
    (live : slot.val < (namesIn deeds).length) (dst : q.dst = slotAddr slot) :
    ∃ idx s' replies, Step may on { station := s }
      { acts := [.took idx], reads := [some q]
        log := [(idx, some ⟨slot, ⟨q.dst, q.src⟩, q.data, replies⟩)] }
      ⟨s', some idx, Firmware.messagesFrom ⟨q.dst, q.src⟩ replies⟩ := by
  obtain ⟨idx, others, incoming, letter, -⟩ := List.map_eq_cons_iff.mp waits
  have next : s.mux.rx.next? s.memory = some idx := by
    show s.cores.incoming.head? = some idx
    rw [incoming]
    rfl
  have takes : Takes s (.took idx) idx s.advanced := ⟨.took next, rfl, rfl, rfl⟩
  have letter : s.advanced.cores.letter? idx = some q := letter
  obtain ⟨packet, read, rfl⟩ := Option.map_eq_some_iff.mp ((s.advanced.letter?_cores idx).symm.trans letter)
  obtain ⟨header, data⟩ := packet
  have still : Tabulates deeds s.advanced := table.of_same rfl rfl
  have accepted : s.advanced.Accepts idx slot header data :=
    Station.accepts_iff.mpr ⟨read, still.recipient?_eq_some.mpr ⟨live, dst⟩⟩
  have step : Step may on { station := s } _ _ := .deliver takes accepted rfl
  rw [letter] at step
  exact ⟨idx, _, _, step⟩

/-- Where the next outgoing buffer is roomy a channel is announced at once. -/
theorem Step.announces (may : Handler σ → Prop) (on : Fin maxChannels → Prop)
    {slot : Fin maxChannels} (name : String) (handler : Handler σ) (usable : s.cores.Usable)
    (free : s.freeSlot? = some slot)
    (next : s.cores.tx.next? s.cores.memory = some idx)
    (roomy : Header.size ≤ (s.cores.txBuffer idx).len.toNat) :
    ∃ s', Firmware.createChannel name handler s = .ok (.ok slot, s') ∧
      Step may on { station := s.entered slot name handler
                    due := [Firmware.announcement name s.mux.nextAddr] }
        { acts := [.sent idx (Firmware.announcement name s.mux.nextAddr)] } { station := s' } ∧
      s'.mux = { (s.entered slot name handler).mux with tx := s'.mux.tx } ∧ s'.app = s.app := by
  obtain ⟨s', created, sent⟩ := Firmware.createChannel_goes name handler usable free next roomy
  obtain ⟨-, sends⟩ := Firmware.createChannel_eq_ok usable.order.placed free created
  have pass : Step may on
      ⟨s.entered slot name handler, none, [Firmware.announcement name s.mux.nextAddr] ++ []⟩ _
      { station := s' } := .pass (.single sent) rfl rfl sends.mux sends.app
  exact ⟨s', created, pass, sends.mux, sends.app⟩

theorem src_of_sendOn (table : Tabulates deeds s) {i : Fin maxChannels} {data : List UInt8}
    {msg : Message} (mem : msg ∈ s.sendOn i data) :
    i.val < (namesIn deeds).length ∧ msg.src = slotAddr i := by
  rw [Station.sendOn] at mem
  split at mem
  case isTrue live =>
    have used := table.isLive_iff.mp live
    rw [List.mem_singleton.mp mem]
    exact ⟨used, table.localAddr used⟩
  case isFalse => cases mem

theorem src_of_messagesFrom {ep : Endpoint} {payloads : List (List UInt8)} {msg : Message}
    (mem : msg ∈ Firmware.messagesFrom ep payloads) : msg.src = ep.localAddr := by
  obtain ⟨data, -, rfl⟩ := List.mem_map.mp mem
  rfl

/-- The messages come from channels that were created. -/
structure Sourced (deeds : List Deed) (t : Trace) (m : Moment σ) : Prop where
  table : Tabulates deeds m.station
  sources : ∀ msg ∈ sentIn t.acts ++ m.due,
    ∃ i : Fin maxChannels, i.val < (namesIn deeds).length ∧ msg.src = slotAddr i

/-- Messages that newly come up are from channels in use. -/
theorem Sourced.more {more : List Deed} (h : Sourced deeds t m)
    (later : Tabulates (deeds ++ more) m'.station) (news : List Message)
    (said : sentIn t'.acts ++ m'.due = m.due ++ news)
    (known : ∀ msg ∈ news, ∃ i : Fin maxChannels, i.val < (namesIn (deeds ++ more)).length ∧
      msg.src = slotAddr i) : Sourced (deeds ++ more) (t ++ t') m' := by
  refine ⟨later, ?_⟩
  rw [Trace.acts_append, sentIn_append, List.append_assoc, said, ← List.append_assoc]
  intro msg mem
  rcases List.mem_append.mp mem with old | new
  · obtain ⟨i, used, src⟩ := h.sources msg old
    refine ⟨i, ?_, src⟩
    rw [namesIn_append, List.length_append]
    omega
  · exact known msg new

theorem Sourced.step (h : Sourced deeds t m) (step : Step may on m t' m') :
    ∃ more, Sourced (deeds ++ more) (t ++ t') m' := by
  have table := h.table
  obtain ⟨more, later⟩ := (step.extends table).table
  have still {i : Fin maxChannels} (used : i.val < (namesIn deeds).length) :
      i.val < (namesIn (deeds ++ more)).length := by
    rw [namesIn_append, List.length_append]
    omega
  cases step with
  | @create s slot name handler allowed free =>
    refine ⟨more, h.more later _ (List.nil_append _).symm fun msg mem => ⟨slot, ?_, ?_⟩⟩
    · have live : ((s.entered slot name handler).channel slot).isLive := by
        have channel : (s.entered slot name handler).channel slot = _ := Station.channel_set
        rw [channel, if_pos rfl]
        rfl
      exact later.isLive_iff.mp live
    · rw [List.mem_singleton.mp mem, table.freeSlot?_eq_some free]
      exact table.nextAddr
  | say allowed =>
    refine ⟨more, h.more later _ (List.nil_append _).symm fun msg mem => ?_⟩
    obtain ⟨used, src⟩ := src_of_sendOn table mem
    exact ⟨_, still used, src⟩
  | pass traffic sent quiet mux app =>
    refine ⟨more, h.more later [] ?_ nofun⟩
    rw [sent, List.append_nil]
  | drop takes refused =>
    refine ⟨more, h.more later [] ?_ nofun⟩
    rw [takes.sentIn_eq]
  | @deliver s s' act idx slot header data replies app takes accepted handled =>
    refine ⟨more, h.more later (Firmware.messagesFrom ⟨header.dst, header.src⟩ replies.toList)
      ?_ fun msg mem => ?_⟩
    · rw [takes.sentIn_eq]
    · obtain ⟨channels, nextAddr⟩ := takes.channels
      have same : Tabulates deeds s' := table.of_same channels nextAddr
      obtain ⟨used, dst⟩ := same.recipient?_eq_some.mp (Station.accepts_iff.mp accepted).2
      exact ⟨slot, still used, (src_of_messagesFrom mem).trans dst⟩
  | finish => exact ⟨more, h.more later [] rfl nofun⟩

/-- In every run that starts with a fresh table the messages come from channels that were
created. -/
theorem Run.sourced {start : Station σ} (h : Run may on { station := start } t m)
    (unused : start.mux.Fresh) : ∃ deeds, Sourced deeds t m := by
  induction h with
  | start => exact ⟨[], unused.tabulates, nofun⟩
  | step before step ih =>
    obtain ⟨deeds, sourced⟩ := ih
    obtain ⟨more, later⟩ := sourced.step step
    exact ⟨_, later⟩

/-- Every handler is one that was admitted. -/
theorem Run.handlers {start : Station σ} (h : Run may on { station := start } t m)
    (unused : start.mux.Fresh) (default : may fun _ _ app => (.done, app)) (i : Fin maxChannels) :
    may (m.station.channel i).handler := by
  induction h with
  | start =>
    have first : start.channel i = {} := by
      rw [Station.channel, unused.channels]
      exact Vector.getElem_replicate i.isLt
    rw [first]
    exact default
  | step before step ih =>
    obtain ⟨deeds, sourced⟩ := before.sourced unused
    rcases (step.extends sourced.table).handlers i with same | ⟨-, allowed⟩
    · rw [same]
      exact ih
    · exact allowed

end Moment

end InterCore.Link
