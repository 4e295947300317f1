import InterCore.Proofs.Link.Traffic

/-!
# What the peer says of its steps

Every step of the peer has an outcome. The messages that the peer received in a step are those that
the outcome reports, and it sent what then stands in the buffer that it offered, if it offered one
(`PeerStep.traffic`). Where it sends a packet that fits into a buffer that it can use, this is the
message that it was to send (`Peer.Sends.letter?_eq`).
-/

namespace InterCore.Link

open InterCore.Packet (Header maxLen)
open InterCore.Ring

/-- The peer did it, and neither sent nor received anything in it. -/
def Act.Quiet (act : Act) : Prop :=
  act.byPeer ∧ act.offered = none ∧ act.collected = none

/-- The message in a packet that the peer received. -/
def Received.message? (r : Received) : Option Message :=
  r.packet.map .ofPacket

/-- The messages that the peer received in a step, as its outcome says. -/
def PeerStep.mail : PeerStep → PeerOutcome → List Message
  | .receive .., .received r => r.message?.toList
  | .receiveAll .., .receivedAll rs => rs.filterMap Received.message?
  | _, _ => []

/-- The incoming buffer that the peer offered in a step, as its outcome says. -/
def PeerStep.offered? : PeerStep → PeerOutcome → Option UInt16
  | .send .., .index idx => some idx
  | .offerRx idx, _ => some idx
  | _, _ => none

namespace Cores

variable {c c' : Cores} {acts : List Act} {idx : UInt16}

theorem Path.quietTraffic (h : Path c acts c') (quiet : ∀ act ∈ acts, act.Quiet) :
    Traffic c acts [] [] c' := by
  induction h with
  | start => exact .start
  | @step acts act c₁ c₂ before last ih =>
    have earlier := ih fun act mem => quiet act (List.mem_append_left _ mem)
    obtain ⟨-, noOffer, nothing⟩ := quiet act (by simp)
    have next := earlier.step last
    rw [noOffer, nothing] at next
    exact next

end Cores

namespace Peer

variable {m m' : Machine} {tx rx : Device} {x : UsedElem}

/-! ## What it receives -/

/-- The peer reads the message in a used buffer, and changes nothing. -/
theorem contents_eq_ok {r : Received} (run : contents x m = .ok (r, m')) (tx rx : Device) :
    m' = m ∧ r.message? = (m.cores tx rx).mail? x := by
  obtain ⟨m₀, m₁, here, run₁⟩ := bind_eq_ok.mp run
  cases here
  obtain ⟨d, m₁, read, run₂⟩ := bind_eq_ok.mp run₁
  obtain ⟨rfl, buffer⟩ := asPeer_descriptor_eq_ok read
  have buffer : (m₁.cores tx rx).txDriver.layout.buffer (m₁.cores tx rx).memory x.id.toUInt16 =
      ⟨d.addr, d.len⟩ := buffer
  rw [Cores.mail?, buffer]
  dsimp only
  split at run₂
  case isTrue short =>
    cases run₂
    exact ⟨rfl, (if_pos short).symm⟩
  case isFalse roomy =>
    obtain ⟨bytes, m₂, readHeader, run₃⟩ := bind_eq_ok.mp run₂
    obtain ⟨rfl, rfl⟩ := asPeer_readBytes_eq_ok readHeader
    obtain ⟨data, m₃, readData, run₄⟩ := bind_eq_ok.mp run₃
    obtain ⟨rfl, rfl⟩ := asPeer_readBytes_eq_ok readData
    cases run₄
    exact ⟨rfl, (if_neg roomy).symm⟩

/-- What the peer does with the buffer then does not change what it has read. -/
theorem return_eq_ok {α : Type} {a b : α} {idx : UInt16} {offer kick : Bool}
    (run : (do
      if offer then
        offerTx idx
      if kick then
        Machine.onKicks (·.onTx)
      return a : OnMachine α) m = .ok (b, m')) : b = a := by
  have last {m : Machine} (run : (do
      if kick then
        Machine.onKicks (·.onTx)
      return a : OnMachine α) m = .ok (b, m')) : b = a := by
    cases kick <;> cases run <;> rfl
  cases offer with
  | false => exact last run
  | true =>
    obtain ⟨u, m₁, -, rest⟩ := bind_eq_ok.mp run
    exact last rest

theorem receive?_traffic {offer kick : Bool} {r? : Option Received} (placed : (m.cores tx rx).Placed)
    (run : receive? offer kick m = .ok (r?, m')) :
    ∃ acts, Cores.Traffic (m.cores tx rx) acts [] (r?.bind Received.message?).toList
      (m'.cores tx rx) ∧ ∀ act ∈ acts, act.byPeer := by
  obtain ⟨x?, m₁, took, run⟩ := bind_eq_ok.mp run
  cases next : m.peer.tx.nextUsed? m.bus.memory with
  | none =>
    cases (takeTxUsed?_eq_none placed next).symm.trans took
    cases run
    exact ⟨[], .start, nofun⟩
  | some x =>
    obtain ⟨m₂, took₂, -, step⟩ := takeTxUsed?_eq placed next
    cases took₂.symm.trans took
    obtain ⟨r, m₃, read, rest⟩ := bind_eq_ok.mp run
    obtain ⟨rfl, message⟩ := contents_eq_ok read tx rx
    obtain rfl : r? = some r := return_eq_ok rest
    have collected := Cores.Traffic.single step
    have quiet : Act.Quiet (.offeredTx x.id.toUInt16) := ⟨rfl, rfl, rfl⟩
    obtain ⟨acts, path, again⟩ :=
      does_return offer kick quiet tx rx _ _ _ (collected.path.placed placed) rest
    have whole := collected.append (path.quietTraffic again)
    rw [List.append_nil, List.append_nil] at whole
    refine ⟨[.collectedTx x] ++ acts, ?_, ?_⟩
    · have mail : [x].filterMap (m₃.cores tx rx).mail? = r.message?.toList := by
        rw [message, List.filterMap_cons]
        cases (m₃.cores tx rx).mail? x <;> rfl
      rw [Option.bind_some, ← mail]
      exact whole
    · rintro act (_ | ⟨_, mem⟩)
      · rfl
      · exact (again act mem).1

theorem receiveAll_traffic {offer kick : Bool} {fuel : Nat} {rs : List Received}
    (placed : (m.cores tx rx).Placed) (run : receiveAll offer kick fuel m = .ok (rs, m')) :
    ∃ acts, Cores.Traffic (m.cores tx rx) acts [] (rs.filterMap Received.message?)
      (m'.cores tx rx) ∧ ∀ act ∈ acts, act.byPeer := by
  induction fuel generalizing m rs with
  | zero => cases run
  | succ fuel ih =>
    obtain ⟨r?, m₁, received, rest⟩ := bind_eq_ok.mp run
    obtain ⟨acts, traffic, mine⟩ := receive?_traffic placed received
    cases r? with
    | none =>
      cases rest
      exact ⟨acts, traffic, mine⟩
    | some r =>
      obtain ⟨rs, m₂, later, rest⟩ := bind_eq_ok.mp rest
      cases rest
      obtain ⟨acts', traffic', mine'⟩ := ih (traffic.path.placed placed) later
      refine ⟨acts ++ acts', ?_, ?_⟩
      · have whole := traffic.append traffic'
        have mail : (r :: rs).filterMap Received.message? =
            (r.message?).toList ++ rs.filterMap Received.message? := by
          rw [List.filterMap_cons]
          cases r.message? <;> rfl
        rw [mail]
        exact whole
      · intro act mem
        rcases List.mem_append.mp mem with mem | mem
        · exact mine act mem
        · exact mine' act mem

/-! ## What it sends -/

/-- A packet that the peer sends: it collects its buffers, writes header and payload into one of
them and offers it. -/
structure Sends (src dst : UInt32) (data : List UInt8) (len : UInt16) (idx : UInt16) (c c' : Cores) :
    Prop where
  steps : ∃ collects c₁ c₂ c₃ c₄, Cores.Path c collects c₁ ∧
    (∀ act ∈ collects, ∃ x, act = .collectedRx x) ∧
    let addr := (c₁.rxDriver.layout.buffer c₁.memory idx).addr.toNat
    Cores.Step c₁ (.wrote addr (Header.encode { src, dst, len })) c₂ ∧
    Cores.Step c₂ (.wrote (addr + Header.size) data) c₃ ∧ Cores.Step c₃ (.offeredRx idx) c₄ ∧
      (c' = c₄ ∨ Cores.Step c₄ .kickedRx c')

theorem send_eq_ok {src dst : UInt32} {data : List UInt8} {len : UInt16} {kick : Bool}
    {idx? : Option UInt16} (placed : (m.cores tx rx).Placed)
    (run : send src dst data len kick m = .ok (idx?, m')) :
    match idx? with
    | none => ∃ acts, Cores.Path (m.cores tx rx) acts (m'.cores tx rx) ∧ ∀ act ∈ acts, act.Quiet
    | some idx => Sends src dst data len idx (m.cores tx rx) (m'.cores tx rx) := by
  obtain ⟨u, m₁, collected, run₁⟩ := bind_eq_ok.mp run
  have collecting : Does (fun act => ∃ x, act = .collectedRx x) (collect indexSpan) :=
    does_collect (fun x => ⟨x, rfl⟩) indexSpan
  obtain ⟨collects, path, only⟩ := collecting tx rx _ _ _ placed collected
  obtain ⟨m₂, m₃, here, run₂⟩ := bind_eq_ok.mp run₁
  cases here
  cases free : m₁.peer.free with
  | nil =>
    rw [free] at run₂
    cases run₂
    refine ⟨collects, path, fun act mem => ?_⟩
    obtain ⟨x, rfl⟩ := only act mem
    exact ⟨rfl, rfl, rfl⟩
  | cons idx rest =>
    rw [free] at run₂
    obtain ⟨u, m₂, put, run₃⟩ := bind_eq_ok.mp run₂
    have same : m₂.cores tx rx = m₁.cores tx rx := by
      cases put
      rfl
    rw [← same] at path
    obtain ⟨m₃, m₄, here, run₄⟩ := bind_eq_ok.mp run₃
    cases here
    obtain ⟨d, m₃, read, run₅⟩ := bind_eq_ok.mp run₄
    obtain ⟨rfl, buffer⟩ := asPeer_descriptor_eq_ok read
    have addr : ((m₃.cores tx rx).rxDriver.layout.buffer (m₃.cores tx rx).memory idx).addr = d.addr :=
      congrArg Buffer.addr buffer
    obtain ⟨u, m₄, wrote, run₆⟩ := bind_eq_ok.mp run₅
    obtain ⟨c₂, step₁, step₂⟩ := asPeer_writes_eq_ok wrote tx rx
    have placed₃ := ((path.step step₁).step step₂).placed placed
    obtain ⟨u, m₅, offered, run₇⟩ := bind_eq_ok.mp run₆
    obtain ⟨m₆, offered', -, step₃⟩ := offerRx_eq idx placed₃
    cases offered'.symm.trans offered
    rw [← addr] at step₁ step₂
    cases kick with
    | false =>
      cases run₇
      exact ⟨collects, _, _, _, _, path, only, step₁, step₂, step₃, .inl rfl⟩
    | true =>
      cases run₇
      exact ⟨collects, _, _, _, _, path, only, step₁, step₂, step₃, .inr .kickedRx⟩

end Peer

namespace Cores

variable {c c' c₁ c₂ c₃ c₄ : Cores} {acts : List Act} {idx : UInt16} {src dst : UInt32} {len : UInt16}
  {header : Header} {data : List UInt8}

theorem letter?_eq_some (fits : Header.size + data.length ≤ (c.rxBuffer idx).capacity)
    (len : header.len.toNat = data.length)
    (first : c.memory.slice (c.rxBuffer idx).addr.toNat Header.size = header.encode)
    (second : c.memory.slice ((c.rxBuffer idx).addr.toNat + Header.size) data.length = data) :
    c.letter? idx = some ⟨header.src, header.dst, data⟩ := by
  rw [letter?]
  dsimp only
  rw [if_neg (by omega), first, Header.decode_encode, len, if_neg (by omega), second]

/-- Where the peer only collects its buffers, the memory and the firmware's ends stay as they
are. -/
theorem Path.of_collects (h : Path c acts c') (order : c.InOrder)
    (only : ∀ act ∈ acts, ∃ x, act = .collectedRx x) :
    c'.memory = c.memory ∧ c'.tx = c.tx ∧ c'.rx = c.rx ∧ c'.InOrder := by
  induction h with
  | start => exact ⟨rfl, rfl, rfl, order⟩
  | @step acts act c₁ c₂ before last ih =>
    obtain ⟨memory, tx, rx, order⟩ := ih fun act mem => only act (List.mem_append_left _ mem)
    obtain ⟨x, rfl⟩ := only act (by simp)
    have order' := last.inOrder order trivial
    cases last with
    | collectedRx next => exact ⟨memory, tx, rx, order'⟩

theorem Readable.of_same (h : c.Readable idx) (memory : c'.memory = c.memory) (tx : c'.tx = c.tx)
    (rx : c'.rx = c.rx) : c'.Readable idx := by
  have buffer : c'.rxBuffer idx = c.rxBuffer idx := by
    rw [rxBuffer, rxBuffer, memory, rx]
  have buffers : c'.txBuffer = c.txBuffer := by
    funext i
    rw [txBuffer, txBuffer, memory, tx]
  obtain ⟨inRing, reachable, fromTx, fromRx, fromBuffers⟩ := h
  rw [← rx] at inRing fromRx
  rw [← memory] at reachable
  rw [← tx] at fromTx fromBuffers
  rw [← buffers] at fromBuffers
  rw [← buffer] at reachable fromTx fromRx fromBuffers
  exact ⟨inRing, reachable, fromTx, fromRx, fromBuffers⟩

/-- A packet that is written into a readable buffer and fits there is the letter in it. -/
theorem letter?_of_written (order : c.InOrder) (readable : c.Readable idx)
    (fits : Header.size + data.length ≤ (c.rxBuffer idx).capacity)
    (whole : header.len.toNat = data.length)
    (step₁ : Step c (.wrote (c.rxBuffer idx).addr.toNat header.encode) c₁)
    (step₂ : Step c₁ (.wrote ((c.rxBuffer idx).addr.toNat + Header.size) data) c₂)
    (step₃ : Step c₂ (.offeredRx idx) c₃) :
    c₃.letter? idx = some ⟨header.src, header.dst, data⟩ := by
  have length : header.encode.length = Header.size := Header.length_encode _
  obtain ⟨inRing, -, fromTx, fromRx, -⟩ := id readable
  simp only [Span.Apart, Buffer.span] at fromTx fromRx
  -- The writes leave the rings alone.
  have orderly₁ : c.Orderly (.wrote (c.rxBuffer idx).addr.toNat header.encode) := by
    simp only [Orderly, Event.Misses]
    omega
  have order₁ := step₁.inOrder order orderly₁
  have buffer₁ := step₁.rxBuffer_eq order orderly₁ inRing
  have same₁ := step₁.sameRings
  have orderly₂ : c₁.Orderly (.wrote ((c.rxBuffer idx).addr.toNat + Header.size) data) := by
    simp only [Orderly, Event.Misses, same₁.tx, same₁.rx]
    omega
  have inRing₁ : idx.toNat < c₁.rx.layout.num.toNat := by
    rw [same₁.rx]
    exact inRing
  have order₂ := step₂.inOrder order₁ orderly₂
  have buffer₂ := step₂.rxBuffer_eq order₁ orderly₂ inRing₁
  have same₂ := same₁.trans step₂.sameRings
  have inRing₂ : idx.toNat < c₂.rx.layout.num.toNat := by
    rw [same₂.rx]
    exact inRing
  have buffer₃ := step₃.rxBuffer_eq order₂ trivial inRing₂
  have buffer : c₃.rxBuffer idx = c.rxBuffer idx := buffer₃.trans (buffer₂.trans buffer₁)
  -- The offer leaves the packet alone.
  have spares : (Act.offeredRx idx).Spares c₂ (c.rxBuffer idx).span := by
    show (c.rxBuffer idx).span.Apart c₂.rxDriver.layout.span
    rw [← order₂.placed.rxOne, same₂.rx]
    exact readable.fromRx
  have agree : c₂.memory.AgreeOn c₃.memory (c.rxBuffer idx).addr.toNat
      ((c.rxBuffer idx).addr.toNat + (c.rxBuffer idx).capacity) := step₃.agreeOn order₂.placed spares
  obtain ⟨covers₁, memory₁⟩ := step₁.memory_wrote
  obtain ⟨covers₂, memory₂⟩ := step₂.memory_wrote
  have apart : c₁.memory.AgreeOn c₂.memory (c.rxBuffer idx).addr.toNat
      ((c.rxBuffer idx).addr.toNat + Header.size) := by
    rw [memory₂]
    exact Memory.agreeOn_patch covers₂ (.inr (Nat.le_refl _))
  refine letter?_eq_some (by rw [buffer]; exact fits) whole ?_ ?_
  · rw [buffer, agree.slice (Nat.le_refl _) (by omega),
      apart.slice (Nat.le_refl _) (Nat.le_refl _), memory₁, ← length]
    exact Memory.slice_patch_self covers₁
  · rw [buffer, agree.slice (by omega) (by omega), memory₂]
    exact Memory.slice_patch_self covers₂

end Cores

namespace Peer

variable {c c' : Cores} {src dst : UInt32} {data : List UInt8} {len idx : UInt16}

theorem Sends.traffic (h : Sends src dst data len idx c c') :
    ∃ acts, Cores.Traffic c acts [c'.letter? idx] [] c' ∧ ∀ act ∈ acts, act.byPeer := by
  obtain ⟨collects, c₁, c₂, c₃, c₄, path, only, step₁, step₂, step₃, kick⟩ := h.steps
  have quiet : ∀ act ∈ collects, act.Quiet := by
    intro act mem
    obtain ⟨x, rfl⟩ := only act mem
    exact ⟨rfl, rfl, rfl⟩
  have peer : ∀ act ∈ collects, act.byPeer := fun act mem => (quiet act mem).1
  have offered := (((path.quietTraffic quiet).step step₁).step step₂).step step₃
  rcases kick with rfl | kicked
  · refine ⟨_, offered, ?_⟩
    simp only [List.forall_mem_append, List.forall_mem_singleton]
    exact ⟨⟨⟨peer, rfl⟩, rfl⟩, rfl⟩
  · have same : c'.letter? idx = c₄.letter? idx := by
      cases kicked
      rfl
    rw [same]
    refine ⟨_, offered.step kicked, ?_⟩
    simp only [List.forall_mem_append, List.forall_mem_singleton]
    exact ⟨⟨⟨⟨peer, rfl⟩, rfl⟩, rfl⟩, rfl⟩

/-- Where the peer sends a packet in a buffer that it can use, and in which the packet fits, this is
the letter that it sends. -/
theorem Sends.letter?_eq (h : Sends src dst data len idx c c') (order : c.InOrder)
    (readable : c.Readable idx) (fits : Header.size + data.length ≤ (c.rxBuffer idx).capacity)
    (whole : len.toNat = data.length) : c'.letter? idx = some ⟨src, dst, data⟩ := by
  obtain ⟨collects, c₁, c₂, c₃, c₄, path, only, step₁, step₂, step₃, kick⟩ := h.steps
  obtain ⟨memory, tx, rx, order₁⟩ := path.of_collects order only
  have buffer : c₁.rxBuffer idx = c.rxBuffer idx := by
    rw [Cores.rxBuffer, Cores.rxBuffer, memory, rx]
  have placed : c₁.rx.layout = c₁.rxDriver.layout := order₁.placed.rxOne
  rw [← placed] at step₁ step₂
  have letter : c₄.letter? idx = some ⟨src, dst, data⟩ :=
    Cores.letter?_of_written order₁ (readable.of_same memory tx rx) (by rw [buffer]; exact fits) whole
      step₁ step₂ step₃
  rcases kick with rfl | kicked
  · exact letter
  · cases kicked
    exact letter

end Peer

theorem Does.quiet {α : Type} {work : OnMachine α} (h : Does Act.Quiet work) {m m' : Machine} {a : α}
    {tx rx : Device} (placed : (m.cores tx rx).Placed) (run : work m = .ok (a, m')) :
    ∃ acts, Cores.Traffic (m.cores tx rx) acts [] [] (m'.cores tx rx) ∧ ∀ act ∈ acts, act.byPeer := by
  obtain ⟨acts, path, quiet⟩ := h tx rx m a m' placed run
  exact ⟨acts, path.quietTraffic quiet, fun act mem => (quiet act mem).1⟩

/-- What the peer sent and received in a step is what the outcome says. -/
theorem PeerStep.traffic (step : PeerStep) {outcome : PeerOutcome} {m m' : Machine} {tx rx : Device}
    (placed : (m.cores tx rx).Placed) (run : step.run m = .ok (outcome, m')) :
    ∃ acts, Cores.Traffic (m.cores tx rx) acts
      ((step.offered? outcome).toList.map (m'.cores tx rx).letter?) (step.mail outcome)
      (m'.cores tx rx) ∧ ∀ act ∈ acts, act.byPeer := by
  have quiet {act : Act} (mine : act.byPeer = true) (noOffer : act.offered = none)
      (nothing : act.collected = none) : act.Quiet := ⟨mine, noOffer, nothing⟩
  cases step with
  | send src dst data len kick =>
    obtain ⟨idx?, m₁, sent, rest⟩ := bind_eq_ok.mp run
    have sends := Peer.send_eq_ok placed sent
    cases idx? with
    | none =>
      cases rest
      obtain ⟨acts, path, quiet⟩ := sends
      exact ⟨acts, path.quietTraffic quiet, fun act mem => (quiet act mem).1⟩
    | some idx =>
      cases rest
      exact sends.traffic
  | offerRx idx =>
    obtain ⟨u, m₁, offered, rest⟩ := bind_eq_ok.mp run
    cases rest
    obtain ⟨m₂, offered', -, step⟩ := Peer.offerRx_eq idx placed
    cases offered'.symm.trans offered
    exact ⟨_, .single step, by simp [Act.byPeer]⟩
  | receive offer kick =>
    obtain ⟨r?, m₁, received, rest⟩ := bind_eq_ok.mp run
    have traffic := Peer.receive?_traffic placed received
    cases r? <;> cases rest <;> exact traffic
  | receiveAll offer kick =>
    obtain ⟨rs, m₁, received, rest⟩ := bind_eq_ok.mp run
    cases rest
    exact Peer.receiveAll_traffic placed received
  | offerTx idx =>
    exact Does.quiet ((Peer.does_offerTx idx (quiet rfl rfl rfl)).bind fun _ => .pure _) placed run
  | rxUsed =>
    refine Does.quiet ?_ placed run
    refine (Peer.does_takeRxUsed? fun _ => quiet rfl rfl rfl).bind fun x? => ?_
    cases x? <;> exact .pure _
  | collect =>
    refine Does.quiet ?_ placed run
    exact (Peer.does_collect (fun _ => quiet rfl rfl rfl) _).bind fun _ => Does.get.bind fun _ => .pure _
  | kickTx => exact Does.quiet (does_kickTx.bind fun _ => .pure _) placed run
  | kickRx => exact Does.quiet ((does_kickRx (quiet rfl rfl rfl)).bind fun _ => .pure _) placed run
  | write addr bytes =>
    exact Does.quiet ((does_write addr bytes (quiet rfl rfl rfl)).bind fun _ => .pure _) placed run
  | read addr len => exact Does.quiet ((does_readBytes addr len).bind fun _ => .pure _) placed run

end InterCore.Link
