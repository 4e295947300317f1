import InterCore.Proofs.Link.Completion

/-!
# Polls that come to an end

On a usable link a poll handles all packets that are there and returns, if each wait of its handlers
ends. A packet asks for a call of a handler (`Station.call?`), and what it asks for does not change
until its turn comes. So what a poll does to the packets that wait when it begins is known
beforehand (`Station.Foretells`).
-/

namespace InterCore.Link

open InterCore.Packet (Header maxLen maxPayload)
open InterCore.Ring (Device)

variable {σ : Type} {left : UInt16 → Prop} {s s' : Station σ} {idx : UInt16}

/-! ## One packet -/

/-- A call of a handler, as a packet asks for it. -/
abbrev Call := Fin maxChannels × Endpoint × List UInt8

/-- The call that a packet asks for: there is none if it is not well formed, or if no channel has
the address that it is sent to. -/
def Station.call? (s : Station σ) (idx : UInt16) : Option Call :=
  (s.packet? idx).bind fun (header, data) =>
    (s.recipient? header.dst).map fun slot => (slot, ⟨header.dst, header.src⟩, data)

/-- A packet asks for a call where a channel accepts it. -/
theorem Station.accepts_of_call? {slot : Fin maxChannels} {ends : Endpoint} {data : List UInt8}
    (h : s.call? idx = some (slot, ends, data)) :
    ∃ header : Header, s.Accepts idx slot header data ∧ ends = ⟨header.dst, header.src⟩ := by
  rw [call?, Option.bind_eq_some_iff] at h
  obtain ⟨⟨header, data'⟩, packet, found⟩ := h
  rw [Option.map_eq_some_iff] at found
  obtain ⟨slot', found, same⟩ := found
  cases same
  exact ⟨header, accepts_iff.mpr ⟨packet, found⟩, rfl⟩

/-- What the handler of a channel was called with. -/
def Delivery.call (d : Delivery) : Call :=
  (d.slot, d.ends, d.data)

/-- What becomes of a packet is what it asks for. -/
theorem Handled.call_eq {delivery : Option Delivery} (h : Handled s idx delivery s') :
    delivery.map Delivery.call = s.call? idx := by
  cases h with
  | dropped refused =>
    symm
    rw [Option.map_none, Station.call?, Option.bind_eq_none_iff]
    rintro ⟨header, data⟩ packet
    rw [Option.map_eq_none_iff]
    by_contra found
    obtain ⟨slot, found⟩ := Option.ne_none_iff_exists'.mp found
    exact refused slot header data (Station.accepts_iff.mpr ⟨packet, found⟩)
  | delivered accepted handled answered =>
    obtain ⟨packet, found⟩ := Station.accepts_iff.mp accepted
    rw [Station.call?, packet, Option.bind_some]
    dsimp only
    rw [found]
    rfl

theorem Station.packet?_eq (buffer : s'.rxBuffer idx = s.rxBuffer idx)
    (bytes : s.memory.AgreeOn s'.memory (s.rxBuffer idx).span.start (s.rxBuffer idx).span.stop) :
    s'.packet? idx = s.packet? idx := by
  unfold packet?
  rw [buffer]
  dsimp only [Ring.Buffer.span] at bytes ⊢
  split
  · rfl
  · rw [bytes.slice (Nat.le_refl _) (by omega)]
    split
    · rfl
    · rw [bytes.slice (by omega) (by omega)]

/-- A packet that stands in a buffer is the one that the firmware reads. -/
theorem Station.packet?_eq_some {header : Header} {data : List UInt8}
    (fits : Header.size + data.length ≤ (s.rxBuffer idx).capacity)
    (len : header.len.toNat = data.length)
    (bytes : s.memory.slice (s.rxBuffer idx).addr.toNat (header.encode ++ data).length =
      header.encode ++ data) : s.packet? idx = some (header, data) := by
  rw [List.length_append, Header.length_encode, Memory.slice_add] at bytes
  obtain ⟨first, second⟩ := List.append_inj bytes (by simp)
  unfold packet?
  dsimp only
  rw [first, Header.decode_encode, len, second, if_neg (by omega), if_neg (by omega)]

/-- What a packet that waits in a buffer that is left alone asks for does not change. -/
theorem Goes.call?_eq {added : List UInt16} (h : Goes left s added s') (waits : idx ∈ s.cores.incoming)
    (alone : left idx) : s'.call? idx = s.call? idx := by
  obtain ⟨buffer, bytes⟩ := h.keeps.packets idx waits alone
  rw [Station.call?, Station.call?, Station.packet?_eq buffer bytes]
  simp only [h.addresses]

theorem findFinIdx?_set {α : Type} {n : Nat} {xs : Vector α n} {p : α → Bool} {i : Fin n} {x : α}
    (same : p x = p (xs.get i)) : (xs.set i x).findFinIdx? p = xs.findFinIdx? p := by
  have tested (j : Fin n) : p ((xs.set i x).get j) = p (xs.get j) := by
    show p (xs.set i x)[j.val] = p xs[j.val]
    by_cases here : i = j
    · subst here
      rw [Vector.getElem_set_self]
      exact same
    · rw [Vector.getElem_set_ne _ _ (Fin.val_ne_of_ne here)]
  apply Option.ext
  intro j
  rw [findFinIdx?_eq_some_iff, findFinIdx?_eq_some_iff]
  simp only [tested]

/-- A channel that comes up keeps its address. -/
theorem Station.goes_told {slot : Fin maxChannels} (usable : s.cores.Usable)
    (live : (s.mux.channels.get slot).isLive) (remote : UInt32) (app : σ) :
    Goes left s [] (s.told slot remote app) := by
  refine ⟨.refl usable, rfl, fun dst => findFinIdx?_set ?_, .inl ⟨rfl, rfl⟩⟩
  rw [live]
  rfl

/-- Events on the bus that keep the packets. -/
theorem Station.goes_perform {es : List Event}
    (keeps : Cores.Keeps left s.cores [] (s.perform es).cores) : Goes left s [] (s.perform es) :=
  ⟨keeps, rfl, s.recipient?_perform es, .inl ⟨rfl, rfl⟩⟩

theorem Station.goes_peek (usable : s.cores.Usable) (idx : UInt16) :
    Goes left s [] (s.perform (s.peekEvents idx)) := by
  apply goes_perform
  rw [cores_peek]
  exact .refl usable

theorem Station.goes_handBack (usable : s.cores.Usable) (idx : UInt16) :
    Goes left s [] (s.handBack idx) := by
  have step : Cores.Step s.cores (.returned idx) (s.handBack idx).cores := by
    rw [cores_handBack]
    exact .returned idx
  exact goes_perform (step.keeps usable rfl rfl)

namespace Firmware

theorem readPacket_of_described (described : s.mux.rx.layout.DescribedIn s.memory idx)
    (reachable : (s.rxBuffer idx).Reachable s.memory) :
    readPacket idx s = .ok (s.packet? idx, s.perform (s.peekEvents idx)) := by
  suffices ∃ packet s', readPacket idx s = .ok (packet, s') by
    obtain ⟨packet, s', run⟩ := this
    obtain ⟨rfl, rfl⟩ := readPacket_eq_ok run
    exact run
  obtain ⟨d, read, buffer⟩ := Ring.Layout.readDescriptor_of_described described
  have read : onBus (s.mux.rx.descriptor idx) s = .ok (d, s) := onBus_read read
  have here : s.rxBuffer idx = ⟨d.addr, d.len⟩ := buffer
  rw [here] at reachable
  rw [readPacket, bind_of_ok (get_eq s), bind_of_ok read]
  dsimp only
  split
  case isTrue => exact ⟨_, _, rfl⟩
  case isFalse enough =>
    obtain ⟨header, payload⟩ := reachable (Nat.not_lt.mp enough)
    let looked := s.perform [.flush d.addr.toNat (Ring.Buffer.capacity ⟨d.addr, d.len⟩)]
    have flushed : onBus (Bus.flush d.addr.toNat (min d.len.toNat maxLen)) s = .ok ((), looked) :=
      onBus_eq (Bus.flush_eq _ _ _)
    have readHeader : onBus (Bus.readBytes d.addr.toNat Header.size) looked = .ok (_, looked) :=
      onBus_read (Bus.readBytes_eq header)
    rw [bind_of_ok flushed, bind_of_ok readHeader]
    split
    case isTrue => exact ⟨_, _, rfl⟩
    case isFalse whole =>
      rw [bind_of_ok (onBus_read (Bus.readBytes_eq ?_))]
      · exact ⟨_, _, rfl⟩
      · obtain ⟨below, above, fits⟩ := payload
        refine ⟨below, above, Nat.le_trans (Nat.add_le_add_left ?_ _) fits⟩
        show _ ≤ min d.len.toNat maxLen - Header.size
        omega

theorem readPacket_eq (within : s.mux.rx.layout.Within s.memory) (readable : s.cores.Readable idx) :
    readPacket idx s = .ok (s.packet? idx, s.perform (s.peekEvents idx)) :=
  readPacket_of_described (within.describedIn readable.inRing) readable.reachable

/-- A packet without a recipient is dropped. -/
theorem dispatch_nobody {header : Header} (data : List UInt8)
    (nobody : s.recipient? header.dst = none) : dispatch header data s = .ok ((), s) := by
  rw [Station.recipient?] at nobody
  rw [dispatch, bind_of_ok (get_eq s)]
  dsimp only
  rw [nobody]
  rfl

/-- The recipient of a packet comes up, its handler is called, and what that says is sent back. -/
theorem dispatch_recipient {header : Header} {data : List UInt8} {slot : Fin maxChannels}
    {replies : Replies} {app : σ} (found : s.recipient? header.dst = some slot)
    (handled : (s.mux.channels.get slot).handler ⟨header.dst, header.src⟩ data s.app =
      (replies, app)) :
    dispatch header data s =
      sendBack ⟨header.dst, header.src⟩ replies (s.told slot header.src app) := by
  rw [Station.recipient?] at found
  rw [dispatch, bind_of_ok (get_eq s)]
  dsimp only
  rw [found]
  obtain ⟨run, mux, app₀⟩ := s
  dsimp only at handled ⊢
  calc _ = sendBack ⟨header.dst, header.src⟩
        ((mux.channels.get slot).handler ⟨header.dst, header.src⟩ data app₀).1
        (Station.told ⟨run, mux, app₀⟩ slot header.src
          ((mux.channels.get slot).handler ⟨header.dst, header.src⟩ data app₀).2) := rfl
    _ = _ := by rw [handled]

/-- A packet that asks for no call leaves the firmware as it is. -/
theorem receive_of_no_call (read : readPacket idx s = .ok (s.packet? idx, s.perform (s.peekEvents idx)))
    (none : s.call? idx = .none) : receive idx s = .ok ((), s.perform (s.peekEvents idx)) := by
  rw [receive, bind_of_ok read]
  cases packet : s.packet? idx with
  | none => rfl
  | some inBuffer =>
    obtain ⟨header, data⟩ := inBuffer
    rw [Station.call?, packet, Option.bind_some, Option.map_eq_none_iff] at none
    have nobody : (s.perform (s.peekEvents idx)).recipient? header.dst = .none := by
      rw [Station.recipient?_perform]
      exact none
    show dispatch header data _ = _
    rw [dispatch_nobody data nobody]

/-- A packet that asks for a call is given to that handler, and the answers are sent back. -/
theorem receive_of_call {slot : Fin maxChannels} {ends : Endpoint} {data : List UInt8}
    {replies : Replies} {app : σ}
    (read : readPacket idx s = .ok (s.packet? idx, s.perform (s.peekEvents idx)))
    (call : s.call? idx = some (slot, ends, data))
    (handled : (s.mux.channels.get slot).handler ends data s.app = (replies, app)) :
    receive idx s = sendBack ends replies
      ((s.perform (s.peekEvents idx)).told slot ends.remoteAddr app) := by
  obtain ⟨header, accepted, rfl⟩ := Station.accepts_of_call? call
  obtain ⟨packet, found⟩ := Station.accepts_iff.mp accepted
  have found' : (s.perform (s.peekEvents idx)).recipient? header.dst = some slot := by
    rw [Station.recipient?_perform]
    exact found
  have handled' : ((s.perform (s.peekEvents idx)).mux.channels.get slot).handler
      ⟨header.dst, header.src⟩ data (s.perform (s.peekEvents idx)).app = (replies, app) := by
    rw [Station.mux_perform, Station.app_perform]
    exact handled
  rw [receive, bind_of_ok read, packet]
  show dispatch header data _ = _
  rw [dispatch_recipient found' handled']

/-- A packet is handled if the waits of its handler end. -/
theorem receive_goes (usable : s.cores.Usable) (readable : s.cores.Readable idx)
    (supplied : ∀ slot header data replies app s', s.Accepts idx slot header data →
      (s.mux.channels.get slot).handler ⟨header.dst, header.src⟩ data s.app = (replies, app) →
        Answering ⟨header.dst, header.src⟩ replies
          ((s.perform (s.peekEvents idx)).told slot header.src app) s' → s'.Supplied left) :
    ∃ delivery added s', receive idx s = .ok ((), s') ∧ Handled s idx delivery s' ∧
      Goes left s added s' := by
  suffices ∃ added s', receive idx s = .ok ((), s') ∧ Goes left s added s' by
    obtain ⟨added, s', run, goes⟩ := this
    obtain ⟨delivery, handled⟩ := receive_eq_ok run
    exact ⟨delivery, added, s', run, handled, goes⟩
  have peek : Goes left s [] _ := s.goes_peek usable idx
  have read := readPacket_eq usable.order.placed.rxWithin readable
  cases call : s.call? idx with
  | none => exact ⟨[], _, receive_of_no_call read call, peek⟩
  | some wanted =>
    obtain ⟨slot, ends, data⟩ := wanted
    obtain ⟨header, accepted, rfl⟩ := Station.accepts_of_call? call
    cases handled : (s.mux.channels.get slot).handler ⟨header.dst, header.src⟩ data s.app with
    | mk replies app =>
      have told : Goes left _ [] _ := Station.goes_told peek.usable accepted.live header.src app
      obtain ⟨added, s', answered, goes⟩ := sendBack_goes told.usable
        fun s' waits => supplied slot header data replies app s' accepted handled waits
      exact ⟨_, s', (receive_of_call read call handled).trans answered, (peek.trans told).trans goes⟩

end Firmware

/-! ## All packets -/

/-- What becomes of the packets that wait: the log begins with them, in order, and those in buffers
that are left alone meet with what they ask for now. -/
def Station.Foretells (s : Station σ) (left : UInt16 → Prop)
    (log : List (UInt16 × Option Delivery)) : Prop :=
  ∀ (i : Nat) idx, s.cores.incoming[i]? = some idx → ∃ delivery : Option Delivery,
    log[i]? = some (idx, delivery) ∧ (left idx → delivery.map Delivery.call = s.call? idx)

/-- Taking a packet leaves what the others ask for. -/
theorem Station.call?_advanced (s : Station σ) (idx : UInt16) :
    s.advanced.call? idx = s.call? idx := rfl

/-- Taking a kick leaves what the packets ask for. -/
theorem Station.call?_woken (s : Station σ) (k : KickCounter) (idx : UInt16) :
    (s.woken k).call? idx = s.call? idx := by
  have memory : (s.woken k).memory = s.memory := congrArg Cores.memory (s.cores_woken k)
  have packet : (s.woken k).packet? idx = s.packet? idx := by
    unfold packet? rxBuffer
    rw [memory]
    rfl
  rw [call?, call?, packet]
  rfl

/-- Where no packet waits there is nothing to foretell. -/
theorem Station.Foretells.of_empty (empty : s.cores.incoming = []) : s.Foretells left [] := by
  intro i idx waits
  rw [empty] at waits
  cases waits

/-- What becomes of the first packet, and of those behind it, which still ask for the same when it
is done with. -/
theorem Station.Foretells.cons {log : List (UInt16 × Option Delivery)} {delivery : Option Delivery}
    {added : List UInt16} (queue : s.cores.incoming = idx :: s.advanced.cores.incoming)
    (asked : delivery.map Delivery.call = s.call? idx) (goes : Goes left s.advanced added s')
    (rest : s'.Foretells left log) : s.Foretells left ((idx, delivery) :: log) := by
  intro i idx' waits
  rw [queue] at waits
  cases i with
  | zero =>
    cases waits
    exact ⟨delivery, rfl, fun _ => asked⟩
  | succ i =>
    have waits : s.advanced.cores.incoming[i]? = some idx' := waits
    have still : s'.cores.incoming[i]? = some idx' := by
      rw [goes.keeps.incoming, List.getElem?_append_left, waits]
      exact (List.getElem?_eq_some_iff.mp waits).1
    obtain ⟨delivery', logged, asks⟩ := rest i idx' still
    refine ⟨delivery', logged, fun alone => ?_⟩
    rw [asks alone, goes.call?_eq (List.mem_of_getElem? waits) alone, s.call?_advanced]

/-- The packets that a poll can meet with: those that are there, and in each turn of the peer that
is still to come at most as many as the ring has indices. -/
def Station.work (s : Station σ) : Nat :=
  s.cores.incoming.length + indexSpan * s.run.schedule.length

theorem Station.work_advanced (queue : s.cores.incoming = idx :: s.advanced.cores.incoming) :
    s.work = s.advanced.work + 1 := by
  show s.cores.incoming.length + indexSpan * s.run.schedule.length =
    s.advanced.cores.incoming.length + indexSpan * s.run.schedule.length + 1
  rw [queue, List.length_cons]
  omega

theorem Goes.turns_le {added : List UInt16} (h : Goes left s added s') :
    s'.run.schedule.length ≤ s.run.schedule.length := by
  rcases h.turns with ⟨same, -⟩ | fewer
  · exact Nat.le_of_eq (congrArg List.length same)
  · exact Nat.le_of_lt fewer

/-- What a turn of the peer adds is within the work that the turn stood for. -/
theorem Goes.work_le {added : List UInt16} (h : Goes left s added s') : s'.work ≤ s.work := by
  have few := s'.cores.length_incoming_lt
  rw [Station.work, Station.work]
  rcases h.turns with ⟨same, rfl⟩ | fewer
  · rw [h.keeps.incoming, List.append_nil, same]
  · simp only [indexSpan, UInt16.size] at few ⊢
    omega

/-- While the peer has no turn, no packet comes in. -/
theorem Goes.incoming_of_same {added : List UInt16} (h : Goes left s added s')
    (same : s'.run.schedule = s.run.schedule) : s'.cores.incoming = s.cores.incoming := by
  rcases h.turns with ⟨-, rfl⟩ | fewer
  · rw [h.keeps.incoming, List.append_nil]
  · exact absurd (congrArg List.length same) (Nat.ne_of_lt fewer)

namespace Firmware

/-- The ring runs empty if the waits end: each packet is handled in its turn. -/
theorem drain_goes {fuel : Nat} (usable : s.cores.Usable) (enough : s.work < fuel)
    (supplied : ∀ s', Draining s s' → s'.Supplied left) :
    ∃ log s', drain fuel s = .ok ((), s') ∧ Drains s log s' ∧ s.Foretells left log ∧
      s'.run.schedule.length ≤ s.run.schedule.length ∧
        (s'.run.schedule = s.run.schedule → log.length = s.cores.incoming.length) := by
  induction fuel generalizing s with
  | zero => omega
  | succ fuel ih =>
    have placed := usable.order.placed
    cases next : s.mux.rx.next? s.memory with
    | none =>
      have empty : s.cores.incoming = [] := Device.offered_of_next?_none next
      exact ⟨[], s, drain_of_none fuel placed next, .empty next, .of_empty empty, Nat.le_refl _,
        fun _ => by rw [empty]; rfl⟩
    | some idx =>
      obtain ⟨usable₁, readable, queue⟩ := usable.took next
      have queue : s.cores.incoming = idx :: s.advanced.cores.incoming := queue
      have readable₁ : s.advanced.cores.Readable idx :=
        ⟨readable.inRing, readable.reachable, readable.fromTx, readable.fromRx, readable.fromBuffers⟩
      obtain ⟨delivery, added, s₁, received, handled, goes₁⟩ := receive_goes usable₁ readable₁
        fun slot header data replies app s' accepted answer waits =>
          supplied s' (.here next accepted answer waits)
      have goes : Goes left s.advanced (added ++ []) (s₁.handBack idx) :=
        goes₁.trans (s₁.goes_handBack goes₁.usable idx)
      have measured : (s₁.handBack idx).work < fuel := by
        have less := goes.work_le
        rw [s.work_advanced queue] at enough
        omega
      obtain ⟨log, s', run, drains, foretold, turns, quiet⟩ := ih goes.usable measured
        fun s' waits => supplied s' (.later next handled waits)
      have fewer : (s₁.handBack idx).run.schedule.length ≤ s.run.schedule.length := goes.turns_le
      refine ⟨(idx, delivery) :: log, s', ?_, .packet next handled drains,
        .cons queue (handled.call_eq.trans (s.call?_advanced idx)) goes foretold,
        Nat.le_trans turns fewer, ?_⟩
      · exact (drain_of_received fuel placed next received).trans run
      · intro same
        -- The schedule gets no longer, so it is the same after this packet already.
        have same₁ : (s₁.handBack idx).run.schedule = s.run.schedule := by
          rcases goes.turns with ⟨same₁, -⟩ | fewer₁
          · exact same₁
          · rw [same] at turns
            exact absurd turns (Nat.not_le_of_lt fewer₁)
        rw [queue, List.length_cons, List.length_cons, quiet (same.trans same₁.symm),
          goes.incoming_of_same same₁]

/-- A poll has the patience for its work. -/
theorem work_lt_patience (s : Station σ) : s.work < patience s.run.schedule := by
  have few := s.cores.length_incoming_lt
  have wide : UInt16.size ≤ UInt64.size := by decide
  rw [patience, Station.work]
  omega

theorem poll_goes {k : KickCounter} (usable : s.cores.Usable)
    (kick : s.run.machine.kicks.rx.take? = some k)
    (supplied : ∀ s', Draining (s.woken k) s' → s'.Supplied left) :
    ∃ log s', poll s = .ok (true, s') ∧ Drains (s.woken k) log s' ∧ s.Foretells left log ∧
      s'.run.schedule.length ≤ s.run.schedule.length ∧
        (s'.run.schedule = s.run.schedule → log.length = s.cores.incoming.length) := by
  have woken := s.cores_woken k
  have usable₁ : (s.woken k).cores.Usable := by
    rw [woken]
    exact usable.withKicks k
  have waiting : (s.woken k).cores.incoming = s.cores.incoming := by
    rw [woken]
    rfl
  obtain ⟨log, s', run, drains, foretold, turns, quiet⟩ :=
    drain_goes usable₁ (work_lt_patience _) supplied
  refine ⟨log, s', ?_, drains, ?_, turns, ?_⟩
  · rw [poll_eq, kick]
    exact (bind_of_ok run).trans rfl
  · intro i idx waits
    rw [← waiting] at waits
    obtain ⟨delivery, logged, asks⟩ := foretold i idx waits
    exact ⟨delivery, logged, fun alone => (asks alone).trans (s.call?_woken k idx)⟩
  · rw [← waiting]
    exact quiet

end Firmware

/-! ## Without waits -/

/-- No handler sends anything back. -/
def Station.Silent (s : Station σ) : Prop :=
  ∀ slot ep data app, ((s.mux.channels.get slot).handler ep data app).1 = .done

theorem Station.Silent.perform (h : s.Silent) (es : List Event) : (s.perform es).Silent := h

theorem Station.Silent.woken (h : s.Silent) (k : KickCounter) : (s.woken k).Silent := h

theorem Station.Silent.told (h : s.Silent) (slot : Fin maxChannels) (remote : UInt32) (app : σ) :
    (s.told slot remote app).Silent := by
  intro slot' ep data app'
  have handler : ((s.told slot remote app).mux.channels.get slot').handler =
      (s.mux.channels.get slot').handler := by
    show ((s.mux.channels.set slot _)[slot'.val]).handler = (s.mux.channels[slot'.val]).handler
    by_cases here : slot = slot'
    · subst here
      rw [Vector.getElem_set_self]
      rfl
    · rw [Vector.getElem_set_ne _ _ (Fin.val_ne_of_ne here)]
  rw [handler]
  exact h slot' ep data app'

theorem Station.Silent.done (h : s.Silent) {slot : Fin maxChannels} {ep : Endpoint}
    {data : List UInt8} {app app' : σ} {replies : Replies}
    (handled : (s.mux.channels.get slot).handler ep data app = (replies, app')) :
    replies = .done := by
  have done := h slot ep data app
  rwa [handled] at done

/-- What a handler that sends nothing back leaves of a packet is a look at it. -/
theorem Station.Silent.handled (silent : s.Silent) {delivery : Option Delivery}
    (h : Handled s idx delivery s') : s'.cores = s.cores ∧ s'.Silent := by
  cases h with
  | dropped refused => exact ⟨s.cores_peek idx, silent.perform _⟩
  | @delivered slot header data replies app _ accepted handled answered =>
    cases silent.done handled
    obtain ⟨-, rfl⟩ := pure_eq_ok.mp answered
    exact ⟨s.cores_peek_told idx slot header.src app, (silent.perform _).told _ _ _⟩

/-- Where no handler sends anything back, the firmware handles packets without a wait. -/
theorem Station.Silent.not_draining (h : s.Silent) : ¬ Draining s s' := by
  intro waits
  induction waits with
  | here next accepted handled waits =>
    cases h.done handled
    cases waits
  | @later s s₁ s' idx delivery next handled waits ih =>
    have advanced : s.advanced.Silent := h
    exact ih ((advanced.handled handled).2.perform _)

/-! ## The whole poll -/

/-- A poll of a usable link with a kick to take ends if its waits do. It takes a kick and says that
there was work. It handles each packet in its turn (`Drains`), those that waited first and in order,
until no packet waits, and takes and hands back nothing else in the incoming ring. Packets in
buffers that the peer leaves alone meet with what they ask for at the start; where no wait was
needed, only those that waited are handled. -/
theorem poll_handles_backlog {left : UInt16 → Prop} {s : Station σ} (usable : s.cores.Usable)
    (kick : s.run.machine.kicks.rx.pending ≠ 0)
    (supplied : ∀ k s', s.run.machine.kicks.rx.take? = some k → Draining (s.woken k) s' →
      s'.Supplied left) :
    ∃ k log s' acts, s.run.machine.kicks.rx.take? = some k ∧ Firmware.poll s = .ok (true, s') ∧
      Drains (s.woken k) log s' ∧ s'.cores.incoming = [] ∧ s.Foretells left log ∧
        (s'.run.schedule.length ≤ s.run.schedule.length ∧
          (s'.run.schedule = s.run.schedule → log.length = s.cores.incoming.length)) ∧
        Cores.Path s.cores acts s'.cores ∧ served acts = servings log ∧
          sentIn acts = messagesIn log := by
  have taken : s.run.machine.kicks.rx.take? = some ⟨s.run.machine.kicks.rx.pending - 1⟩ :=
    if_neg kick
  obtain ⟨log, s', run, drains, foretold, turns⟩ :=
    Firmware.poll_goes usable taken fun s' waits => supplied _ s' taken waits
  obtain ⟨more, path, messages, order⟩ :=
    drains.path_woken taken (s.cores_woken _) usable.order.placed
  refine ⟨_, log, s', _, taken, run, drains, Device.offered_of_next?_none drains.next?_eq_none,
    foretold, turns, path, order, ?_⟩
  exact messages

/-- The first channel as it is announced, with a handler that does nothing. -/
def Channel.first : Channel σ :=
  { localAddr := firstLocalAddr, state := .announced }

/-- The station with only the first channel. -/
def Station.listening (s : Station σ) : Station σ :=
  { s with mux.channels := (Vector.replicate maxChannels {}).set 0 Channel.first (by decide) }

theorem Station.silent_of_unused (s : Station σ)
    (unused : s.mux.channels = Vector.replicate maxChannels {}) : s.Silent := by
  intro slot ep data app
  have handler : (s.mux.channels.get slot).handler = fun _ _ app => (.done, app) := by
    rw [unused]
    show ((Vector.replicate maxChannels ({} : Channel σ))[slot.val]).handler = _
    rw [Vector.getElem_replicate]
  rw [handler]

theorem Station.silent_listening (s : Station σ) : s.listening.Silent := by
  intro slot ep data app
  have handler : (s.listening.mux.channels.get slot).handler = fun _ _ app => (.done, app) := by
    show (((Vector.replicate maxChannels ({} : Channel σ)).set 0 Channel.first (by decide))[slot.val]).handler = _
    rw [Vector.getElem_set]
    split
    · rfl
    · rw [Vector.getElem_replicate]
  rw [handler]

theorem Station.recipient?_listening (s : Station σ) :
    s.listening.recipient? firstLocalAddr = some ⟨0, by decide⟩ := by
  rw [recipient?, findFinIdx?_eq_some_iff]
  exact ⟨rfl, fun slot before => absurd (Fin.lt_def.mp before) (Nat.not_lt_zero slot)⟩

/-- The bytes of a packet for the first channel. -/
def firstPacket : List UInt8 :=
  Header.encode { src := 7, dst := firstLocalAddr, len := 3 } ++ [1, 2, 3]

/-- The packet waits in the first buffer with its kick raised, and the peer has no turns in the
waits to come. -/
structure FirstPacketWaits (s : Station Unit) : Prop where
  usable : s.cores.Usable
  kicked : s.run.machine.kicks.rx.pending ≠ 0
  waits : s.cores.incoming = [0]
  asks : s.call? 0 = some (⟨0, by decide⟩, ⟨firstLocalAddr, 7⟩, [1, 2, 3])
  noTurns : s.run.schedule = []

/-- The peer can write the packet into a buffer that it has offered, on a link that was set up. -/
theorem exists_firstPacketWaits :
    ∃ (start : Station Unit) (bus : Bus) (outcomes : List PeerOutcome) (m : Machine),
      twoBuffers.setUp () threePages = .ok (.ok start, bus) ∧
        PeerStep.runAll [.offerRx 0, .write 0x3200 firstPacket, .kickRx] start.run.machine =
          .ok (outcomes, m) ∧
        FirstPacketWaits (start.withMachine m).listening := by
  obtain ⟨start, bus, run, starts⟩ := fits_threePages.setUp ()
  have fresh := starts.fresh
  have order := fresh.usable.order
  obtain ⟨buffer, readable⟩ := fresh.readable 0 (by decide)
  have fits : start.cores.memory.Covers 0x3200 firstPacket.length := by
    rw [starts.covers, Memory.Covers, size_threePages]
    decide
  obtain ⟨m₁, offers, kicks₁, step₁⟩ := (Prelude.nothing start).offerRx order.placed 0
  have keeps₁ : Cores.Keeps (fun _ => False) start.cores [0] (start.withMachine m₁).cores :=
    fresh.keeps_offeredRx (by decide) step₁
  have same := offers.session.path.1.sameRings
  obtain ⟨m₂, writes, kicks₂, step₂⟩ := offers.write fits
  have apart : (start.withMachine m₁).cores.Orderly (.wrote 0x3200 firstPacket) := by
    refine ⟨.inr ?_, .inr ?_⟩
    · rw [same.tx, starts.cores]
      decide
    · rw [same.rx, starts.cores]
      decide
  have keeps := keeps₁.trans
    (step₂.keeps_peer keeps₁.usable rfl ⟨apart, fun _ _ => False.elim⟩)
  obtain ⟨outcomes, turn⟩ := writes.kickRx.run
  let s := (start.withMachine { m₂ with kicks := m₂.kicks.onRx }).listening
  refine ⟨start, bus, outcomes, _, run, turn, ?_⟩
  show FirstPacketWaits s
  refine {
    usable := keeps.usable.withKicks _, kicked := ?kicked, waits := ?waits, asks := ?asks
    noTurns := starts.noTurns }
  case kicked =>
    have none : m₂.kicks = {} := (kicks₂.trans kicks₁).trans starts.kicks
    show m₂.kicks.rx.signal.pending ≠ 0
    rw [none]
    decide
  case waits =>
    have queue : (start.withMachine m₂).cores.incoming = [0] := by
      rw [keeps.incoming, fresh.incoming]
      rfl
    exact queue
  case asks =>
    have buffer₁ := (step₁.rxBuffer_eq order trivial readable.inRing).trans buffer
    have inRing : (0 : UInt16).toNat < (start.withMachine m₁).cores.rx.layout.num.toNat :=
      Ring.Layout.num_pos _
    have buffer₂ : s.rxBuffer 0 = twoBuffers.buffer twoBuffers.rxBuffers 0 :=
      (step₂.rxBuffer_eq keeps₁.usable.order apart inRing).trans buffer₁
    have bytes : s.memory.slice (s.rxBuffer 0).addr.toNat firstPacket.length = firstPacket := by
      have memory : s.memory = _ := step₂.memory_wrote.2
      rw [buffer₂, memory]
      exact Memory.slice_patch_self (same.covers.mpr fits)
    have packet : s.packet? 0 = some ({ src := 7, dst := firstLocalAddr, len := 3 }, [1, 2, 3]) := by
      refine Station.packet?_eq_some ?_ rfl bytes
      rw [buffer₂]
      decide
    rw [Station.call?, packet, Option.bind_some]
    dsimp only
    rw [Station.recipient?_listening]
    rfl

/-- The peer writes a packet for a channel into a buffer that it has offered, on a link that was set
up. -/
theorem poll_handles_backlog_of_one :
    ∃ (start : Station Unit) (bus : Bus) (outcomes : List PeerOutcome) (m : Machine)
      (k : KickCounter) (s' : Station Unit) (d : Delivery),
      twoBuffers.setUp () threePages = .ok (.ok start, bus) ∧
        PeerStep.runAll [.offerRx 0, .write 0x3200 firstPacket, .kickRx] start.run.machine =
          .ok (outcomes, m) ∧
        Firmware.poll (start.withMachine m).listening = .ok (true, s') ∧
        Drains ((start.withMachine m).listening.woken k) [(0, some d)] s' ∧
        d.call = (⟨0, by decide⟩, ⟨firstLocalAddr, 7⟩, [1, 2, 3]) := by
  obtain ⟨start, bus, outcomes, m, run, turn, waiting⟩ := exists_firstPacketWaits
  let s := (start.withMachine m).listening
  have supplied : ∀ k s', s.run.machine.kicks.rx.take? = some k → Draining (s.woken k) s' →
      s'.Supplied fun _ => True := fun k s' _ waits =>
    absurd waits ((Station.silent_listening _).woken k).not_draining
  obtain ⟨k, log, s', acts, taken, polled, drains, -, foretold, ⟨turns, quiet⟩, -⟩ :=
    poll_handles_backlog waiting.usable waiting.kicked supplied
  obtain ⟨delivery, first, asked⟩ := foretold 0 0 (by rw [waiting.waits]; rfl)
  have still : s'.run.schedule = s.run.schedule := by
    have none : s.run.schedule = [] := waiting.noTurns
    rw [none] at turns ⊢
    exact List.length_eq_zero_iff.mp (Nat.le_zero.mp turns)
  have alone : log.length = 1 := by rw [quiet still, waiting.waits]; rfl
  have only : log = [(0, delivery)] := by
    obtain ⟨entry, rfl⟩ := List.length_eq_one_iff.mp alone
    rw [Option.some.inj first]
  have met := (asked trivial).trans waiting.asks
  cases delivery with
  | none => cases met
  | some d =>
    rw [only] at drains
    exact ⟨start, bus, _, _, k, s', d, run, turn, polled, drains, Option.some.inj met⟩

end InterCore.Link
