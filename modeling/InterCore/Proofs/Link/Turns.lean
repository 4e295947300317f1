import InterCore.Proofs.Link.Sending

/-!
# The peer's turns as steps

Whatever the peer does in a turn is a path of its own steps (`ByPeer`). `Does` says of one piece of
work which acts there are on such a path, and is kept by putting pieces one after the other, so that
it is proved for each step of the peer by following its text.
-/

namespace InterCore.Link

open InterCore.Packet (Header)
open InterCore.Ring (Device Driver UsedElem)

/-- Both cores as the machine and the firmware's ends of the rings show them. -/
def Machine.cores (m : Machine) (tx rx : Device) : Cores :=
  ⟨m.bus.memory, m.kicks.rx, m.peer.tx, m.peer.rx, tx, rx⟩

/-- Work that, where it succeeds, is a path of acts that are admitted. -/
def Does (may : Act → Prop) (work : OnMachine α) : Prop :=
  ∀ tx rx m a m', (m.cores tx rx).Placed → work m = .ok (a, m') →
    ∃ acts, Cores.Path (m.cores tx rx) acts (m'.cores tx rx) ∧ ∀ act ∈ acts, may act

/-- Work that, where it succeeds, is a path of steps of the peer. -/
def ByPeer (work : OnMachine α) : Prop :=
  Does (fun act => act.byPeer) work

variable {may : Act → Prop}

namespace Does

variable {work : OnMachine α} {next : α → OnMachine β}

theorem bind (first : Does may work) (second : ∀ a, Does may (next a)) : Does may (work >>= next) := by
  intro tx rx m b m' placed run
  obtain ⟨a, m₁, run₁, run₂⟩ := bind_eq_ok.mp run
  obtain ⟨acts₁, path₁, may₁⟩ := first tx rx m a m₁ placed run₁
  obtain ⟨acts₂, path₂, may₂⟩ := second a tx rx m₁ b m' (path₁.placed placed) run₂
  refine ⟨acts₁ ++ acts₂, path₁.append path₂, ?_⟩
  intro act mem
  rcases List.mem_append.mp mem with mem | mem
  · exact may₁ act mem
  · exact may₂ act mem

/-- Work after which both cores are as they were. -/
theorem of_same (same : ∀ tx rx m a m', work m = .ok (a, m') → m'.cores tx rx = m.cores tx rx) :
    Does may work := by
  intro tx rx m a m' placed run
  rw [same tx rx m a m' run]
  exact ⟨[], .start, by simp⟩

/-- Work that is one step. -/
theorem of_step (act : Act) (allowed : may act)
    (step : ∀ tx rx m a m', (m.cores tx rx).Placed → work m = .ok (a, m') →
      Cores.Step (m.cores tx rx) act (m'.cores tx rx)) : Does may work := by
  intro tx rx m a m' placed run
  exact ⟨[act], .single (step tx rx m a m' placed run), by simpa using allowed⟩

theorem pure (a : α) : Does may (Pure.pure a : OnMachine α) := by
  apply of_same
  intro tx rx m b m' run
  cases run
  rfl

theorem get : Does may (MonadState.get : OnMachine Machine) := by
  apply of_same
  intro tx rx m b m' run
  cases run
  rfl

theorem livelock : Does may (throw .livelock : OnMachine α) := by
  intro tx rx m a m' placed run
  cases run

theorem ifThen {b : Bool} {first : OnMachine PUnit} {later : PUnit → OnMachine β}
    (h : Does may first) (h' : ∀ u, Does may (later u)) :
    Does may (if b then first >>= later else later ()) := by
  cases b with
  | true => exact h.bind h'
  | false => exact h' ()

end Does

/-! ## The pieces of the peer's work -/

/-- The bus as the peer works on it. -/
def Machine.peerBus (m : Machine) : Bus :=
  ⟨m.bus.memory, [], m.bus.notifications⟩

theorem asPeer_eq_ok {work : OnBus α} {m m' : Machine} {a : α}
    (run : Machine.asPeer work m = .ok (a, m')) :
    ∃ bus, work m.peerBus = .ok (a, bus) ∧
      m' = { m with bus := ⟨bus.memory, m.bus.journal, bus.notifications⟩ } := by
  obtain ⟨⟨memory, journal, sent⟩, kicks, peer⟩ := m
  cases worked : work ⟨memory, [], sent⟩ with
  | error fault =>
    simp only [Machine.asPeer, Machine.onBus, Bus.unrecorded, worked] at run
    cases run
  | ok r =>
    simp only [Machine.asPeer, Machine.onBus, Bus.unrecorded, worked] at run
    cases run
    exact ⟨_, worked, rfl⟩

theorem asPeer_of_ok {work : OnBus α} {m : Machine} {a : α} {bus : Bus}
    (worked : work m.peerBus = .ok (a, bus)) : Machine.asPeer work m =
      .ok (a, { m with bus := ⟨bus.memory, m.bus.journal, bus.notifications⟩ }) := by
  obtain ⟨⟨memory, journal, sent⟩, kicks, peer⟩ := m
  have worked : work ⟨memory, [], sent⟩ = .ok (a, bus) := worked
  simp only [Machine.asPeer, Machine.onBus, Bus.unrecorded, worked]

theorem asPeer_eq {work : OnBus α} {m : Machine} {a : α}
    (reads : work m.peerBus = .ok (a, m.peerBus)) : Machine.asPeer work m = .ok (a, m) := by
  have run := asPeer_of_ok reads
  exact run

/-- The peer reads a descriptor, and changes nothing. -/
theorem asPeer_descriptor_eq_ok {d : Driver} {idx : UInt16} {m m' : Machine} {desc : Ring.Descriptor}
    (run : Machine.asPeer (d.descriptor idx) m = .ok (desc, m')) :
    m' = m ∧ d.layout.buffer m.bus.memory idx = ⟨desc.addr, desc.len⟩ := by
  obtain ⟨bus, worked, rfl⟩ := asPeer_eq_ok run
  obtain ⟨rfl, buffer⟩ := Ring.Layout.readDescriptor_eq_ok worked
  exact ⟨rfl, buffer⟩

theorem asPeer_readBytes_eq_ok {addr len : Nat} {m m' : Machine} {bytes : List UInt8}
    (run : Machine.asPeer (Bus.readBytes addr len) m = .ok (bytes, m')) :
    m' = m ∧ bytes = m.bus.memory.slice addr len := by
  obtain ⟨bus, worked, rfl⟩ := asPeer_eq_ok run
  obtain ⟨-, rfl, rfl⟩ := OnBus.readBytes_eq_ok worked
  exact ⟨rfl, rfl⟩

theorem does_descriptor (d : Driver) (idx : UInt16) :
    Does may (Machine.asPeer (d.descriptor idx)) := by
  apply Does.of_same
  intro tx rx m a m' run
  rw [(asPeer_descriptor_eq_ok run).1]

theorem does_readBytes (addr len : Nat) : Does may (Machine.asPeer (Bus.readBytes addr len)) := by
  apply Does.of_same
  intro tx rx m a m' run
  rw [(asPeer_readBytes_eq_ok run).1]

/-- A write within the memory is one step. -/
theorem asPeer_write_eq {addr : Nat} {bytes : List UInt8} {m : Machine}
    (covers : m.bus.memory.Covers addr bytes.length) (tx rx : Device) :
    ∃ m', Machine.asPeer (Bus.writeBytes addr bytes) m = .ok ((), m') ∧ m'.kicks = m.kicks ∧
      Cores.Step (m.cores tx rx) (.wrote addr bytes) (m'.cores tx rx) := by
  have inMemory : m.peerBus.memory.Covers addr bytes.length := covers
  exact ⟨_, asPeer_of_ok (Bus.writeBytes_eq inMemory), rfl, .wrote covers⟩

theorem does_write (addr : Nat) (bytes : List UInt8) (allowed : may (.wrote addr bytes)) :
    Does may (Machine.asPeer (Bus.writeBytes addr bytes)) := by
  refine Does.of_step (.wrote addr bytes) allowed ?_
  intro tx rx m a m' placed run
  obtain ⟨bus, worked, rfl⟩ := asPeer_eq_ok run
  obtain ⟨fits, rfl⟩ := OnBus.writeBytes_eq_ok worked
  exact .wrote fits

/-- Two writes, one after the other, are two steps. -/
theorem asPeer_writes_eq_ok {addr addr' : Nat} {bytes bytes' : List UInt8} {m m' : Machine} {u : Unit}
    (run : Machine.asPeer (do Bus.writeBytes addr bytes; Bus.writeBytes addr' bytes') m = .ok (u, m'))
    (tx rx : Device) : ∃ c, Cores.Step (m.cores tx rx) (.wrote addr bytes) c ∧
      Cores.Step c (.wrote addr' bytes') (m'.cores tx rx) := by
  obtain ⟨bus, worked, rfl⟩ := asPeer_eq_ok run
  obtain ⟨u, bus₁, first, second⟩ := bind_eq_ok.mp worked
  obtain ⟨fits, rfl⟩ := OnBus.writeBytes_eq_ok first
  obtain ⟨fits', rfl⟩ := OnBus.writeBytes_eq_ok second
  have step : Cores.Step (m.cores tx rx) (.wrote addr bytes) _ := .wrote fits
  exact ⟨_, step, .wrote fits'⟩

theorem does_writes (addr addr' : Nat) (bytes bytes' : List UInt8)
    (allowed : ∀ addr bytes, may (.wrote addr bytes)) :
    Does may (Machine.asPeer do Bus.writeBytes addr bytes; Bus.writeBytes addr' bytes') := by
  intro tx rx m a m' placed run
  obtain ⟨c, step, step'⟩ := asPeer_writes_eq_ok run tx rx
  exact ⟨_, (Cores.Path.single step).step step', by simp [allowed]⟩

theorem does_kickTx : Does may (Machine.onKicks (·.onTx)) := by
  apply Does.of_same
  intro tx rx m a m' run
  cases run
  rfl

theorem does_kickRx (allowed : may .kickedRx) : Does may (Machine.onKicks (·.onRx)) := by
  refine Does.of_step .kickedRx allowed ?_
  intro tx rx m a m' placed run
  cases run
  exact .kickedRx

/-- The peer's stack of free buffers is its own. -/
theorem does_free (f : Peer → List UInt16) :
    Does may (Machine.onPeer fun p => { p with free := f p }) := by
  apply Does.of_same
  intro tx rx m a m' run
  cases run
  rfl

namespace Peer

/-- An offer of an outgoing buffer is one step. -/
theorem offerTx_eq (idx : UInt16) {m : Machine} {tx rx : Device} (placed : (m.cores tx rx).Placed) :
    ∃ m', offerTx idx m = .ok ((), m') ∧ m'.kicks = m.kicks ∧
      Cores.Step (m.cores tx rx) (.offeredTx idx) (m'.cores tx rx) := by
  have within : m.peer.tx.layout.Within m.peerBus.memory := placed.txDriver_within
  have offered := asPeer_of_ok (Driver.offer_eq within idx)
  have step : Cores.Step (m.cores tx rx) (.offeredTx idx) _ := .offeredTx idx
  refine ⟨_, (bind_of_ok rfl).trans ((bind_of_ok offered).trans rfl), rfl, ?_⟩
  simpa [Machine.cores, Machine.peerBus, Driver.offering] using step

/-- An offer of an incoming buffer is one step. -/
theorem offerRx_eq (idx : UInt16) {m : Machine} {tx rx : Device} (placed : (m.cores tx rx).Placed) :
    ∃ m', offerRx idx m = .ok ((), m') ∧ m'.kicks = m.kicks ∧
      Cores.Step (m.cores tx rx) (.offeredRx idx) (m'.cores tx rx) := by
  have within : m.peer.rx.layout.Within m.peerBus.memory := placed.rxDriver_within
  have offered := asPeer_of_ok (Driver.offer_eq within idx)
  have step : Cores.Step (m.cores tx rx) (.offeredRx idx) _ := .offeredRx idx
  refine ⟨_, (bind_of_ok rfl).trans ((bind_of_ok offered).trans rfl), rfl, ?_⟩
  simpa [Machine.cores, Machine.peerBus, Driver.offering] using step

theorem does_offerTx (idx : UInt16) (allowed : may (.offeredTx idx)) : Does may (offerTx idx) := by
  refine Does.of_step (.offeredTx idx) allowed ?_
  intro tx rx m a m' placed run
  obtain ⟨m₁, offered, -, step⟩ := offerTx_eq idx placed
  cases offered.symm.trans run
  exact step

theorem does_offerRx (idx : UInt16) (allowed : may (.offeredRx idx)) : Does may (offerRx idx) := by
  refine Does.of_step (.offeredRx idx) allowed ?_
  intro tx rx m a m' placed run
  obtain ⟨m₁, offered, -, step⟩ := offerRx_eq idx placed
  cases offered.symm.trans run
  exact step

/-- Taking the next used element of the outgoing ring is one step. -/
theorem takeTxUsed?_eq {x : UsedElem} {m : Machine} {tx rx : Device}
    (placed : (m.cores tx rx).Placed) (next : m.peer.tx.nextUsed? m.bus.memory = some x) :
    ∃ m', takeTxUsed? m = .ok (some x, m') ∧
      m'.cores tx rx = { m.cores tx rx with txDriver := m.peer.tx.collecting } ∧
        Cores.Step (m.cores tx rx) (.collectedTx x) (m'.cores tx rx) := by
  have within : m.peer.tx.layout.Within m.peerBus.memory := placed.txDriver_within
  have next' : m.peer.tx.nextUsed? m.peerBus.memory = some x := next
  have took := asPeer_of_ok (Driver.takeUsed?_of_next within next')
  have step : Cores.Step (m.cores tx rx) (.collectedTx x) _ := .collectedTx next
  exact ⟨_, (bind_of_ok rfl).trans ((bind_of_ok took).trans rfl), rfl, step⟩

theorem takeTxUsed?_eq_none {m : Machine} {tx rx : Device} (placed : (m.cores tx rx).Placed)
    (next : m.peer.tx.nextUsed? m.bus.memory = none) : takeTxUsed? m = .ok (none, m) := by
  have within : m.peer.tx.layout.Within m.peerBus.memory := placed.txDriver_within
  have next' : m.peer.tx.nextUsed? m.peerBus.memory = none := next
  have took := asPeer_eq (Driver.takeUsed?_of_none within next')
  exact (bind_of_ok rfl).trans ((bind_of_ok took).trans rfl)

theorem does_takeTxUsed? (allowed : ∀ x, may (.collectedTx x)) : Does may takeTxUsed? := by
  intro tx rx m a m' placed run
  cases next : m.peer.tx.nextUsed? m.bus.memory with
  | none =>
    cases (takeTxUsed?_eq_none placed next).symm.trans run
    exact ⟨[], .start, by simp⟩
  | some x =>
    obtain ⟨m₁, took, -, step⟩ := takeTxUsed?_eq placed next
    cases took.symm.trans run
    exact ⟨_, .single step, by simp [allowed]⟩

theorem does_takeRxUsed? (allowed : ∀ x, may (.collectedRx x)) : Does may takeRxUsed? := by
  intro tx rx m a m' placed run
  obtain ⟨m₀, m₁, here, run⟩ := bind_eq_ok.mp run
  cases here
  obtain ⟨⟨x?, d⟩, m₂, took, put⟩ := bind_eq_ok.mp run
  obtain ⟨bus, worked, rfl⟩ := asPeer_eq_ok took
  have within : m.peer.rx.layout.Within m.peerBus.memory := placed.rxDriver_within
  cases next : m.peer.rx.nextUsed? m.peerBus.memory with
  | none =>
    rw [Driver.takeUsed?_of_none within next] at worked
    cases worked
    cases put
    exact ⟨[], .start, by simp⟩
  | some x =>
    rw [Driver.takeUsed?_of_next within next] at worked
    cases worked
    cases put
    have step : Cores.Step (m.cores tx rx) (.collectedRx x) _ := .collectedRx next
    exact ⟨_, .single step, by simp [allowed]⟩

theorem does_collect (allowed : ∀ x, may (.collectedRx x)) (fuel : Nat) : Does may (collect fuel) := by
  induction fuel with
  | zero => exact .livelock
  | succ fuel ih =>
    refine (does_takeRxUsed? allowed).bind fun x? => ?_
    cases x? with
    | none => exact .pure ()
    | some x => exact (does_free fun p => x.id.toUInt16 :: p.free).bind fun _ => ih

theorem byPeer_send (src dst : UInt32) (data : List UInt8) (len : UInt16) (kick : Bool) :
    ByPeer (send src dst data len kick) := by
  refine (does_collect (fun _ => rfl) _).bind fun _ => Does.get.bind fun m => ?_
  cases m.peer.free with
  | nil => exact .pure none
  | cons idx free =>
    refine (does_free fun _ => free).bind fun _ => Does.get.bind fun m => ?_
    refine (does_descriptor _ idx).bind fun d => (does_writes _ _ _ _ fun _ _ => rfl).bind fun _ => ?_
    refine (does_offerRx idx (by rfl)).bind fun _ => ?_
    exact (does_kickRx (by rfl)).ifThen fun _ => .pure (some idx)

theorem does_contents (x : UsedElem) : Does may (contents x) := by
  refine Does.get.bind fun m => (does_descriptor _ _).bind fun d => ?_
  split
  · exact .pure _
  · exact (does_readBytes _ _).bind fun _ => (does_readBytes _ _).bind fun _ => .pure _

/-- What the peer does with a buffer after it has read what is in it. -/
theorem does_return {a : α} {idx : UInt16} (offer kick : Bool) (allowed : may (.offeredTx idx)) :
    Does may (do
      if offer then
        offerTx idx
      if kick then
        Machine.onKicks (·.onTx)
      return a) :=
  (does_offerTx idx allowed).ifThen fun _ => does_kickTx.ifThen fun _ => .pure a

theorem byPeer_receive? (offer kick : Bool) : ByPeer (receive? offer kick) := by
  refine (does_takeTxUsed? fun _ => rfl).bind fun x? => ?_
  cases x? with
  | none => exact .pure none
  | some x => exact (does_contents x).bind fun received => does_return offer kick (by rfl)

theorem byPeer_receiveAll (offer kick : Bool) (fuel : Nat) :
    ByPeer (receiveAll offer kick fuel) := by
  induction fuel with
  | zero => exact .livelock
  | succ fuel ih =>
    refine (byPeer_receive? offer kick).bind fun received? => ?_
    cases received? with
    | none => exact .pure []
    | some received => exact ih.bind fun _ => .pure _

end Peer

theorem PeerStep.byPeer_run (step : PeerStep) : ByPeer step.run := by
  cases step with
  | send src dst data len kick =>
    refine (Peer.byPeer_send src dst data len kick).bind fun idx? => ?_
    cases idx? <;> exact .pure _
  | offerRx idx => exact (Peer.does_offerRx idx (by rfl)).bind fun _ => .pure _
  | offerTx idx => exact (Peer.does_offerTx idx (by rfl)).bind fun _ => .pure _
  | receive offer kick =>
    refine (Peer.byPeer_receive? offer kick).bind fun received? => ?_
    cases received? <;> exact .pure _
  | receiveAll offer kick => exact (Peer.byPeer_receiveAll offer kick _).bind fun _ => .pure _
  | rxUsed =>
    refine (Peer.does_takeRxUsed? fun _ => rfl).bind fun x? => ?_
    cases x? <;> exact .pure _
  | collect => exact (Peer.does_collect (fun _ => rfl) _).bind fun _ => Does.get.bind fun _ => .pure _
  | kickTx => exact does_kickTx.bind fun _ => .pure _
  | kickRx => exact (does_kickRx (by rfl)).bind fun _ => .pure _
  | write addr bytes => exact (does_write addr bytes (by rfl)).bind fun _ => .pure _
  | read addr len => exact (does_readBytes addr len).bind fun _ => .pure _

/-- A turn goes on with one step more. -/
theorem PeerStep.runAll_concat {steps : List PeerStep} {step : PeerStep} {m m' m'' : Machine}
    {outcome : PeerOutcome} {outcomes : List PeerOutcome} (first : runAll steps m = .ok (outcomes, m'))
    (last : step.run m' = .ok (outcome, m'')) :
    runAll (steps ++ [step]) m = .ok (outcomes ++ [outcome], m'') := by
  induction steps generalizing m outcomes with
  | nil =>
    cases first
    rw [List.nil_append, runAll, bind_of_ok last]
    rfl
  | cons head rest ih =>
    obtain ⟨outcome', m₁, run, first⟩ := bind_eq_ok.mp first
    obtain ⟨outcomes', m₂, later, done⟩ := bind_eq_ok.mp first
    cases done
    rw [List.cons_append, runAll, bind_of_ok run, bind_of_ok (ih later)]
    rfl

theorem PeerStep.byPeer_runAll (turn : List PeerStep) : ByPeer (runAll turn) := by
  induction turn with
  | nil => exact Does.pure []
  | cons step rest ih => exact step.byPeer_run.bind fun _ => ih.bind fun _ => .pure _

end InterCore.Link
