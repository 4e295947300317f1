import InterCore.Proofs.Link.Deliveries

/-!
# Sessions

A session is any sequence of the firmware's calls that return, with any turns of the peer between
them and in their waits. `Session` keeps the history of both cores and the messages that the calls
were to send; `Session.path` says that the history is one of the link and that just these messages
were sent in it. Every call that returns goes on with the session, and so does every step of the
peer (`Session.GoesOn`).
-/

namespace InterCore.Link

open InterCore.Ring (Device Driver UsedElem)

variable {σ : Type}

/-- A call of the firmware that returned, with the messages that it was to send. -/
inductive Called (s : Station σ) : List Message → Station σ → Prop where
  | created {name : String} {handler : Handler σ} {slot : Fin maxChannels} {s' : Station σ}
      (run : Firmware.createChannel name handler s = .ok (.ok slot, s')) :
      Called s [Firmware.announcement name s.mux.nextAddr] s'
  | refused {name : String} {handler : Handler σ} {e : Error} {s' : Station σ}
      (run : Firmware.createChannel name handler s = .ok (.error e, s')) : Called s [] s'
  | sent {slot : Fin maxChannels} {data : List UInt8} {s' : Station σ}
      (run : Firmware.send slot data s = .ok ((), s')) : Called s (s.sendOn slot data) s'
  | polled {log : List (UInt16 × Option Delivery)} {b : Bool} {s' : Station σ}
      (run : Firmware.poll s = .ok (b, s')) (went : Polled s log b s') : Called s (messagesIn log) s'

/-- Some call of the firmware returned. -/
def Returns (s s' : Station σ) : Prop :=
  (∃ name handler answer, Firmware.createChannel name handler s = .ok (answer, s')) ∨
    (∃ slot data, Firmware.send slot data s = .ok ((), s')) ∨ ∃ b, Firmware.poll s = .ok (b, s')

theorem Returns.called {s s' : Station σ} (placed : s.cores.Placed) (h : Returns s s') :
    ∃ messages, Called s messages s' := by
  rcases h with ⟨name, handler, answer, run⟩ | ⟨slot, data, run⟩ | ⟨b, run⟩
  · cases answer with
    | error e => exact ⟨_, .refused run⟩
    | ok slot => exact ⟨_, .created run⟩
  · exact ⟨_, .sent run⟩
  · obtain ⟨log, went⟩ := Firmware.poll_eq_ok placed run
    exact ⟨_, .polled run went⟩

/-- To the link a call is a path on which its messages are sent. -/
theorem Called.path {s s' : Station σ} {messages : List Message} (placed : s.cores.Placed)
    (h : Called s messages s') :
    ∃ acts, Cores.Path s.cores acts s'.cores ∧ sentIn acts = messages := by
  cases h with
  | @created name handler slot _ run =>
    cases free : s.freeSlot? with
    | none =>
      rw [Firmware.createChannel_full free] at run
      cases run
    | some slot' => exact (Firmware.createChannel_eq_ok placed free run).2.sent
  | @refused name handler e _ run =>
    cases free : s.freeSlot? with
    | none =>
      rw [Firmware.createChannel_full free] at run
      cases run
      exact ⟨[], .start, rfl⟩
    | some slot' => cases (Firmware.createChannel_eq_ok placed free run).1
  | sent run => exact (Firmware.send_eq_ok placed run).sent
  | polled run went => exact went.path placed

/-- The station with another machine. -/
def Station.withMachine (s : Station σ) (m : Machine) : Station σ :=
  { s with run.machine := m }

/-- The station with other turns of the peer in the waits to come. -/
def Station.withSchedule (s : Station σ) (schedule : List (List PeerStep)) : Station σ :=
  { s with run.schedule := schedule }

/-- Calls of the firmware and steps of the peer one after the other, with what happened and the
messages that the calls were to send. -/
inductive Session (start : Station σ) : List Act → List Message → Station σ → Prop where
  | start : Session start [] [] start
  | call {acts more : List Act} {said messages : List Message} {s s' : Station σ}
      (before : Session start acts said s) (called : Called s messages s')
      (path : Cores.Path s.cores more s'.cores) (sends : sentIn more = messages) :
      Session start (acts ++ more) (said ++ messages) s'
  | peer {acts more : List Act} {said : List Message} {s : Station σ} {step : PeerStep}
      {outcome : PeerOutcome} {m : Machine} (before : Session start acts said s)
      (run : step.run s.run.machine = .ok (outcome, m))
      (path : Cores.Path s.cores more (s.withMachine m).cores) (own : ∀ act ∈ more, act.byPeer) :
      Session start (acts ++ more) said (s.withMachine m)
  | plan {acts : List Act} {said : List Message} {s : Station σ}
      (before : Session start acts said s) (schedule : List (List PeerStep)) :
      Session start acts said (s.withSchedule schedule)

namespace Session

variable {start s s' : Station σ} {acts : List Act} {said : List Message}

theorem path (h : Session start acts said s) :
    Cores.Path start.cores acts s.cores ∧ sentIn acts = said := by
  induction h with
  | start => exact ⟨.start, rfl⟩
  | call before called path sends ih => exact ⟨ih.1.append path, by rw [sentIn_append, ih.2, sends]⟩
  | peer before run path own ih =>
    exact ⟨ih.1.append path, by rw [sentIn_append, ih.2, sentIn_byPeer own, List.append_nil]⟩
  | plan before schedule ih => exact ih

/-- A session goes on with a session that starts where it ended. -/
theorem append {later : List Act} {said' : List Message} (h : Session start acts said s)
    (h' : Session s later said' s') : Session start (acts ++ later) (said ++ said') s' := by
  induction h' with
  | start => rwa [List.append_nil, List.append_nil]
  | call before called path sends ih =>
    rw [← List.append_assoc, ← List.append_assoc]
    exact ih.call called path sends
  | peer before run path own ih =>
    rw [← List.append_assoc]
    exact ih.peer run path own
  | plan before schedule ih => exact ih.plan schedule

/-- How a session goes on: with every call of the firmware that returns, and with every step of the
peer. -/
structure GoesOn (start : Station σ) (acts : List Act) (said : List Message) (s : Station σ) :
    Prop where
  returned : ∀ s', Returns s s' → ∃ more messages,
    Called s messages s' ∧ Session start (acts ++ more) (said ++ messages) s'
  stepped : ∀ step outcome m, PeerStep.run step s.run.machine = .ok (outcome, m) →
    ∃ more, Session start (acts ++ more) said (s.withMachine m)

theorem goesOn (h : Session start acts said s) (placed : start.cores.Placed) :
    GoesOn start acts said s := by
  have placedNow := h.path.1.placed placed
  constructor
  case returned =>
    intro s' call
    obtain ⟨messages, called⟩ := call.called placedNow
    obtain ⟨more, path, sends⟩ := called.path placedNow
    exact ⟨more, messages, called, h.call called path sends⟩
  case stepped =>
    intro step outcome m run
    obtain ⟨more, path, own⟩ :=
      step.byPeer_run s.mux.tx s.mux.rx s.run.machine outcome m placedNow run
    exact ⟨more, h.peer run path own⟩

end Session

/-! ## What the peer does first -/

/-- The peer has taken some steps before the firmware does anything. -/
structure Prelude (start : Station σ) (steps : List PeerStep) (acts : List Act) (m : Machine) :
    Prop where
  run : ∃ outcomes, PeerStep.runAll steps start.run.machine = .ok (outcomes, m)
  session : Session start acts [] (start.withMachine m)

namespace Prelude

variable {start : Station σ} {steps : List PeerStep} {acts : List Act} {m : Machine}

theorem nothing (start : Station σ) : Prelude start [] [] start.run.machine :=
  ⟨⟨[], rfl⟩, .start⟩

theorem next {step : PeerStep} {outcome : PeerOutcome} {act : Act} {m' : Machine}
    (h : Prelude start steps acts m) (run : step.run m = .ok (outcome, m'))
    (taken : Cores.Step (start.withMachine m).cores act (start.withMachine m').cores)
    (own : act.byPeer) : Prelude start (steps ++ [step]) (acts ++ [act]) m' := by
  obtain ⟨⟨outcomes, before⟩, session⟩ := h
  refine ⟨⟨_, PeerStep.runAll_concat before run⟩, ?_⟩
  have now : Session start acts [] (start.withMachine m) := session
  exact now.peer run (.single taken) (by simpa using own)

/-- The peer offers an outgoing buffer. -/
theorem offerTx (h : Prelude start steps acts m) (placed : start.cores.Placed) (idx : UInt16) :
    ∃ m', Prelude start (steps ++ [.offerTx idx]) (acts ++ [.offeredTx idx]) m' ∧
      m'.kicks = m.kicks ∧
      Cores.Step (start.withMachine m).cores (.offeredTx idx) (start.withMachine m').cores := by
  obtain ⟨m', offered, kicks, step⟩ := Peer.offerTx_eq idx (h.session.path.1.placed placed)
  exact ⟨m', h.next (bind_of_ok offered) step rfl, kicks, step⟩

/-- The peer offers an incoming buffer. -/
theorem offerRx (h : Prelude start steps acts m) (placed : start.cores.Placed) (idx : UInt16) :
    ∃ m', Prelude start (steps ++ [.offerRx idx]) (acts ++ [.offeredRx idx]) m' ∧
      m'.kicks = m.kicks ∧
      Cores.Step (start.withMachine m).cores (.offeredRx idx) (start.withMachine m').cores := by
  obtain ⟨m', offered, kicks, step⟩ := Peer.offerRx_eq idx (h.session.path.1.placed placed)
  exact ⟨m', h.next (bind_of_ok offered) step rfl, kicks, step⟩

/-- The peer writes where there is memory. -/
theorem write (h : Prelude start steps acts m) {addr : Nat} {bytes : List UInt8}
    (covers : start.cores.memory.Covers addr bytes.length) :
    ∃ m', Prelude start (steps ++ [.write addr bytes]) (acts ++ [.wrote addr bytes]) m' ∧
      m'.kicks = m.kicks ∧
      Cores.Step (start.withMachine m).cores (.wrote addr bytes) (start.withMachine m').cores := by
  have now := h.session.path.1.sameRings.covers.mpr covers
  obtain ⟨m', wrote, kicks, step⟩ := asPeer_write_eq now start.mux.tx start.mux.rx
  exact ⟨m', h.next (bind_of_ok wrote) step rfl, kicks, step⟩

theorem kickRx (h : Prelude start steps acts m) :
    Prelude start (steps ++ [.kickRx]) (acts ++ [.kickedRx]) { m with kicks := m.kicks.onRx } :=
  h.next rfl .kickedRx rfl

end Prelude

end InterCore.Link
