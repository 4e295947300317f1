import InterCore.Link.ConfigService
import InterCore.Proofs.Config.Codec
import InterCore.Proofs.Link.Moments
import InterCore.Variable.Table

/-!
# The configuration channel

A server that is given one message after the other answers each request with one response
(`responses`). A channel with such a server does the same over the rings, however long the peer lets
it wait for buffers: what the peer receives from the channel are these responses, in order.
-/

namespace InterCore.Link

open InterCore.Packet (Header maxLen maxPayload)

variable {σ S : Type}

/-- A handler leaves the store alone. -/
def Spares (view : σ → S) (handler : Handler σ) : Prop :=
  ∀ ep data app, view (handler ep data app).2 = view app

theorem Spares.eq {view : σ → S} {handler : Handler σ} (h : Spares view handler) {ep : Endpoint}
    {data : List UInt8} {app app' : σ} {replies : Replies}
    (handled : handler ep data app = (replies, app')) : view app' = view app := by
  have same := h ep data app
  rwa [handled] at same

variable [VarStore S]

/-! ## A server that is given messages -/

/-- The responses of a server at an address to messages that it is given one after the other. One
that is too short for a request has none. -/
def responses (a : UInt32) : S → List Message → List Message
  | _, [] => []
  | store, q :: rest =>
    match Config.Message.decode q.data with
    | .error _ => responses a store rest
    | .ok req =>
      ⟨a, q.src, (Config.Server.handle store req).1.encode⟩ ::
        responses a (Config.Server.handle store req).2 rest

/-- The store after messages that the server was given one after the other. -/
def storeAfter : S → List Message → S
  | store, [] => store
  | store, q :: rest =>
    match Config.Message.decode q.data with
    | .error _ => storeAfter store rest
    | .ok req => storeAfter (Config.Server.handle store req).2 rest

/-- The messages to an address. -/
def addressedTo (a : UInt32) (letters : List (Option Message)) : List Message :=
  (letters.filterMap id).filter (·.dst == a)

section Specification

variable {a : UInt32} {store : S} {q : Message} {qs qs' : List Message}

theorem responses_append :
    responses a store (qs ++ qs') = responses a store qs ++ responses a (storeAfter store qs) qs' := by
  induction qs generalizing store with
  | nil => rfl
  | cons q rest ih =>
    rw [List.cons_append, responses, responses, storeAfter]
    split
    · exact ih
    · rw [ih]
      rfl

theorem storeAfter_append : storeAfter store (qs ++ qs') = storeAfter (storeAfter store qs) qs' := by
  induction qs generalizing store with
  | nil => rfl
  | cons q rest ih =>
    rw [List.cons_append, storeAfter, storeAfter]
    split
    · exact ih
    · exact ih

/-- There is one response for each message that is long enough for a request. -/
theorem length_responses : (responses a store qs).length =
    (qs.filter fun q => Config.headerSize ≤ q.data.length).length := by
  induction qs generalizing store with
  | nil => rfl
  | cons q rest ih =>
    rw [responses]
    by_cases short : q.data.length < Config.headerSize
    · rw [Config.Message.decode_of_short short, List.filter_cons_of_neg (by simpa using short)]
      exact ih
    · rw [Config.Message.decode_of_long (Nat.le_of_not_lt short),
        List.filter_cons_of_pos (by simpa using short)]
      exact congrArg Nat.succ ih

/-- A response comes from the server, and has the size of a message. -/
theorem of_mem_responses {r : Message} (mem : r ∈ responses a store qs) :
    r.src = a ∧ r.data.length = Config.messageSize := by
  induction qs generalizing store with
  | nil => cases mem
  | cons q rest ih =>
    rw [responses] at mem
    split at mem
    · exact ih mem
    · rcases List.mem_cons.mp mem with rfl | mem
      · exact ⟨rfl, Config.Message.length_encode _⟩
      · exact ih mem

/-- What a server says is never longer than a message. -/
theorem length_le_of_said {name : String} {r : Message}
    (mem : r ∈ Firmware.announcement name a :: responses a store qs) :
    r.data.length ≤ Config.messageSize := by
  rcases List.mem_cons.mp mem with rfl | mem
  · rw [Firmware.length_announcement]
    decide
  · rw [(of_mem_responses mem).2]

theorem sentBy_responses : sentBy a (responses a store qs) = responses a store qs := by
  rw [sentBy, List.filter_eq_self]
  intro r mem
  simpa using (of_mem_responses mem).1

@[simp]
theorem addressedTo_append (letters letters' : List (Option Message)) :
    addressedTo a (letters ++ letters') = addressedTo a letters ++ addressedTo a letters' := by
  rw [addressedTo, List.filterMap_append, List.filter_append]
  rfl

theorem addressedTo_some (msg : Message) :
    addressedTo a [some msg] = if msg.dst = a then [msg] else [] := by
  by_cases mine : msg.dst = a <;> simp [addressedTo, mine]

end Specification

/-! ## Handlers -/

/-- A handler answers as the server of a store that is a part of the application's state. -/
structure Serves (view : σ → S) (handler : Handler σ) : Prop where
  replies : ∀ ep data app, (handler ep data app).1 = (configService ep data (view app)).1
  store : ∀ ep data app, view (handler ep data app).2 = (configService ep data (view app)).2

theorem serves_configService : Serves id (configService : Handler S) :=
  ⟨fun _ _ _ => rfl, fun _ _ _ => rfl⟩

/-- What a server sends back for a message, and the store after it. -/
theorem Serves.answers {view : σ → S} {handler : Handler σ} (h : Serves view handler) {ep : Endpoint}
    {data : List UInt8} {app app' : σ} {replies : Replies}
    (handled : handler ep data app = (replies, app')) :
    Firmware.messagesFrom ep replies.toList =
        responses ep.localAddr (view app) [⟨ep.remoteAddr, ep.localAddr, data⟩] ∧
      view app' = storeAfter (view app) [⟨ep.remoteAddr, ep.localAddr, data⟩] := by
  have replied := h.replies ep data app
  have stored := h.store ep data app
  rw [handled] at replied stored
  dsimp only at replied stored
  rw [replied, stored, configService, responses, storeAfter]
  dsimp only
  rw [Replies.toList_ofList, Config.Server.receive]
  cases decoded : Config.Message.decode data with
  | error e => exact ⟨rfl, rfl⟩
  | ok req =>
    have whole : (Config.Server.handle (view app) req).1.encode.take maxPayload =
        (Config.Server.handle (view app) req).1.encode := by
      apply List.take_of_length_le
      rw [Config.Message.length_encode]
      decide
    exact ⟨congrArg (fun data => [Message.mk ep.localAddr ep.remoteAddr data]) whole, rfl⟩

/-! ## A channel with a server -/

/-- What a channel was given, as it was sent. -/
def Delivery.message (d : Delivery) : Message :=
  ⟨d.ends.remoteAddr, d.ends.localAddr, d.data⟩

/-- The messages that were given to the channel in a slot. -/
def heardOn (slot : Fin maxChannels) (log : List (UInt16 × Option Delivery)) : List Message :=
  log.filterMap fun entry => entry.2.bind fun d => if d.slot = slot then some d.message else none

theorem heardOn_append (slot : Fin maxChannels) (log log' : List (UInt16 × Option Delivery)) :
    heardOn slot (log ++ log') = heardOn slot log ++ heardOn slot log' :=
  List.filterMap_append

/-- The channel in a slot has a server, and the handlers of the others leave the store alone. -/
structure Equipped (view : σ → S) (slot : Fin maxChannels) (s : Station σ) : Prop where
  table : ∃ deeds, Tabulates deeds s ∧ slot.val < (namesIn deeds).length
  serves : Serves view (s.channel slot).handler
  others : ∀ i, i ≠ slot → Spares view (s.channel i).handler

/-- The messages to a channel were each answered once, in order, and the store is what they made of
it. -/
structure Answered (view : σ → S) (slot : Fin maxChannels) (first : Message) (store : S) (t : Trace)
    (m : Moment σ) : Prop where
  stored : view m.station.app = storeAfter store (addressedTo (slotAddr slot) t.reads)
  said : sentBy (slotAddr slot) (sentIn t.acts ++ m.due) =
    first :: responses (slotAddr slot) store (addressedTo (slotAddr slot) t.reads)
  heard : heardOn slot t.log = addressedTo (slotAddr slot) t.reads

section Channel

variable {view : σ → S} {slot : Fin maxChannels} {first : Message} {store : S} {t t' : Trace}
  {m m' : Moment σ} {s s' : Station σ} {deeds : List Deed}

theorem Equipped.step (h : Equipped view slot m.station)
    (step : Moment.Step (Spares view) (· ≠ slot) m t m') : Equipped view slot m'.station := by
  obtain ⟨deeds, table, live⟩ := h.table
  obtain ⟨⟨more, later⟩, handlers⟩ := step.extends table
  refine ⟨⟨_, later, ?_⟩, ?_, ?_⟩
  · rw [namesIn_append, List.length_append]
    omega
  · rcases handlers slot with same | ⟨beyond, -⟩
    · rw [same]
      exact h.serves
    · omega
  · intro i other
    rcases handlers i with same | ⟨-, spares⟩
    · rw [same]
      exact h.others i other
    · exact spares

theorem sentBy_eq_nil {a : UInt32} {messages : List Message} (h : ∀ msg ∈ messages, msg.src ≠ a) :
    sentBy a messages = [] := by
  rw [sentBy, List.filter_eq_nil_iff]
  intro msg mem
  simpa using h msg mem

/-- The messages from another slot are not from this one. -/
theorem sentBy_other {i : Fin maxChannels} {messages : List Message} (other : i ≠ slot)
    (h : ∀ msg ∈ messages, msg.src = slotAddr i) : sentBy (slotAddr slot) messages = [] := by
  apply sentBy_eq_nil
  intro msg mem same
  exact other (slotAddr_inj ((h msg mem).symm.trans same))

/-- Messages that are given to the channel and answered, from the store that the ones before them
left. -/
theorem Answered.told (h : Answered view slot first store t m) (qs : List Message)
    (stored : view m'.station.app = storeAfter (view m.station.app) qs)
    (said : sentBy (slotAddr slot) (sentIn t'.acts ++ m'.due) =
      sentBy (slotAddr slot) m.due ++ responses (slotAddr slot) (view m.station.app) qs)
    (reads : addressedTo (slotAddr slot) t'.reads = qs) (heard : heardOn slot t'.log = qs) :
    Answered view slot first store (t ++ t') m' := by
  have all : addressedTo (slotAddr slot) (t ++ t').reads =
      addressedTo (slotAddr slot) t.reads ++ qs := by
    rw [Trace.reads_append, addressedTo_append, reads]
  refine ⟨?_, ?_, ?_⟩
  · rw [all, storeAfter_append, ← h.stored]
    exact stored
  · rw [all, responses_append, ← h.stored, ← List.cons_append, ← h.said, Trace.acts_append,
      sentIn_append, List.append_assoc, sentBy_append, said, sentBy_append, List.append_assoc]
  · rw [all, Trace.log_append, heardOn_append, h.heard, heard]

/-- What has nothing to do with the channel. -/
theorem Answered.elsewhere (h : Answered view slot first store t m)
    (same : view m'.station.app = view m.station.app)
    (said : sentBy (slotAddr slot) (sentIn t'.acts ++ m'.due) = sentBy (slotAddr slot) m.due)
    (reads : addressedTo (slotAddr slot) t'.reads = []) (heard : heardOn slot t'.log = []) :
    Answered view slot first store (t ++ t') m' :=
  h.told [] same (said.trans (List.append_nil _).symm) reads heard

/-- A packet that no channel accepts is not for a channel of the table. -/
theorem addressedTo_letter_of_refused (table : Tabulates deeds s)
    (live : slot.val < (namesIn deeds).length) {idx : UInt16}
    (refused : ∀ slot header data, ¬ s.Accepts idx slot header data) :
    addressedTo (slotAddr slot) [s.cores.letter? idx] = [] := by
  rw [Station.letter?_cores]
  cases packet : s.packet? idx with
  | none => rfl
  | some packet' =>
    obtain ⟨header, data⟩ := packet'
    have other : header.dst ≠ slotAddr slot := fun dst => refused slot header data
      (Station.accepts_iff.mpr ⟨packet, table.recipient?_eq_some.mpr ⟨live, dst⟩⟩)
    rw [Option.map_some, addressedTo_some]
    exact if_neg other

/-- A packet that a channel accepts is for that channel alone. -/
theorem addressedTo_letter_of_accepts (table : Tabulates deeds s) {idx : UInt16} {i : Fin maxChannels}
    {header : Header} {data : List UInt8} (accepted : s.Accepts idx i header data) :
    addressedTo (slotAddr slot) [s.cores.letter? idx] =
      if i = slot then [⟨header.src, slotAddr slot, data⟩] else [] := by
  obtain ⟨packet, recipient⟩ := Station.accepts_iff.mp accepted
  obtain ⟨-, dst⟩ := table.recipient?_eq_some.mp recipient
  rw [Station.letter?_cores, packet, Option.map_some, addressedTo_some]
  show (if header.dst = slotAddr slot then [Message.mk header.src header.dst data] else []) = _
  rw [dst]
  by_cases mine : i = slot
  · rw [mine, if_pos rfl, if_pos rfl]
  · rw [if_neg mine, if_neg fun same => mine (slotAddr_inj same)]

theorem Answered.step (h : Answered view slot first store t m) (equipped : Equipped view slot m.station)
    (step : Moment.Step (Spares view) (· ≠ slot) m t' m') :
    Answered view slot first store (t ++ t') m' := by
  obtain ⟨deeds, table, live⟩ := equipped.table
  cases step with
  | @create s slot' name handler allowed free =>
    have here := table.freeSlot?_eq_some free
    have other : slot' ≠ slot := by
      rintro rfl
      omega
    refine h.elsewhere rfl (sentBy_other other ?_) rfl rfl
    intro msg mem
    rw [List.mem_singleton.mp mem, here]
    exact table.nextAddr
  | say allowed =>
    refine h.elsewhere rfl (sentBy_other allowed ?_) rfl rfl
    intro msg mem
    exact (Moment.src_of_sendOn table mem).2
  | pass traffic sent quiet mux app =>
    refine h.elsewhere (congrArg view app) ?_ rfl rfl
    rw [sent]
  | @drop s s' act idx takes refused =>
    obtain ⟨channels, nextAddr⟩ := takes.channels
    have same : (s'.perform (s'.peekEvents idx)).app = s.app :=
      (s'.app_perform _).trans takes.app
    refine h.elsewhere (congrArg view same) ?_
      (addressedTo_letter_of_refused (table.of_same channels nextAddr) live refused) rfl
    show sentBy _ (sentIn [act] ++ []) = _
    rw [takes.sentIn_eq]
    rfl
  | @deliver s s' act idx slot' header data replies app takes accepted handled =>
    obtain ⟨channels, nextAddr⟩ := takes.channels
    have still : Tabulates deeds s' := table.of_same channels nextAddr
    obtain ⟨-, recipient⟩ := Station.accepts_iff.mp accepted
    obtain ⟨-, dst⟩ := still.recipient?_eq_some.mp recipient
    have read : addressedTo (slotAddr slot) [s'.cores.letter? idx] = _ :=
      addressedTo_letter_of_accepts still accepted
    have handler : s'.mux.channels.get slot' = s.channel slot' := congrArg (·.get slot') channels
    rw [handler, takes.app] at handled
    by_cases mine : slot' = slot
    · subst mine
      rw [dst] at handled
      obtain ⟨replied, stored⟩ := equipped.serves.answers handled
      refine h.told [⟨header.src, slotAddr slot', data⟩] stored ?_ (read.trans (if_pos rfl)) ?_
      · show sentBy _ (sentIn [act] ++ Firmware.messagesFrom ⟨header.dst, header.src⟩ _) = _
        rw [takes.sentIn_eq, dst, replied]
        exact sentBy_responses
      · simp [heardOn, Delivery.message, dst]
    · refine h.elsewhere ((equipped.others slot' mine).eq handled) ?_ (read.trans (if_neg mine)) ?_
      · show sentBy _ (sentIn [act] ++ _) = _
        rw [takes.sentIn_eq]
        refine sentBy_other mine fun msg mem => ?_
        rw [Moment.src_of_messagesFrom mem]
        exact dst
      · simp [heardOn, mine]
  | finish => exact h.elsewhere rfl rfl rfl rfl

/-- A new channel has the server that it is given. -/
theorem Equipped.entered {name : String} {handler : Handler σ} (table : Tabulates deeds s)
    (free : s.freeSlot? = some slot) (serves : Serves view handler)
    (spares : ∀ i, Spares view (s.channel i).handler) :
    Equipped view slot (s.entered slot name handler) := by
  have channel (i : Fin maxChannels) : (s.entered slot name handler).channel i = _ := Station.channel_set
  refine ⟨⟨_, table.entered free name handler, ?_⟩, ?_, ?_⟩
  · rw [table.freeSlot?_eq_some free, namesIn_append, List.length_append]
    exact Nat.lt_succ_self _
  · rw [channel, if_pos rfl]
    exact serves
  · intro i other
    rw [channel, if_neg (Ne.symm other)]
    exact spares i

/-- A new channel was given nothing yet, and has only to be announced. -/
theorem Answered.entered (name : String) (handler : Handler σ) (addr : s.mux.nextAddr = slotAddr slot) :
    Answered view slot (Firmware.announcement name (slotAddr slot)) (view s.app) {}
      { station := s.entered slot name handler
        due := [Firmware.announcement name s.mux.nextAddr] } := by
  refine ⟨rfl, ?_, rfl⟩
  rw [addr]
  show sentBy _ [Firmware.announcement name (slotAddr slot)] = [Firmware.announcement name (slotAddr slot)]
  rw [sentBy, List.filter_cons_of_pos (by simp [Firmware.announcement]), List.filter_nil]

theorem Answered.run (h : Answered view slot first store {} m) (equipped : Equipped view slot m.station)
    (run : Moment.Run (Spares view) (· ≠ slot) m t m') :
    Equipped view slot m'.station ∧ Answered view slot first store t m' := by
  induction run with
  | start => exact ⟨equipped, h⟩
  | step before step ih =>
    obtain ⟨equipped, answered⟩ := ih
    exact ⟨equipped.step step, answered.step equipped step⟩

/-- Nothing came from a slot that is not in use yet. -/
theorem sentBy_of_sourced (h : Moment.Sourced deeds t m) (beyond : (namesIn deeds).length ≤ slot.val) :
    sentBy (slotAddr slot) (sentIn t.acts) = [] := by
  refine sentBy_eq_nil fun msg mem src => ?_
  obtain ⟨i, used, from'⟩ := h.sources msg (List.mem_append_left _ mem)
  rw [slotAddr_inj (from'.symm.trans src)] at used
  omega

end Channel

/-! ## What the peer receives -/

/-- What a new channel with a server says as it is given messages: that it is there, and then the
responses. -/
def saidOn (slot : Fin maxChannels) (name : String) (store : S) (qs : List Message) : List Message :=
  Firmware.announcement name (slotAddr slot) :: responses (slotAddr slot) store qs

/-- How far the requests to a channel have come at a moment `m`, and the peer's mail with them,
where `t` was seen since the channel was created over a store. -/
structure ChannelServes (view : σ → S) (slot : Fin maxChannels) (name : String) (store : S)
    (requests mail : List Message) (t : Trace) (m : Moment σ) : Prop where
  /-- The channel was given those that were sent first, each once and in order. -/
  given : addressedTo (slotAddr slot) t.reads <+: requests
  heard : heardOn slot t.log = addressedTo (slotAddr slot) t.reads
  stored : view m.station.app = storeAfter store (addressedTo (slotAddr slot) t.reads)
  /-- The peer received the first of what the channel said. -/
  received : sentBy (slotAddr slot) mail <+:
    saidOn slot name store (addressedTo (slotAddr slot) t.reads)
  expected : sentBy (slotAddr slot) mail <+: saidOn slot name store requests
  /-- All are served once no packet waits, nothing is due and the used ring is empty. -/
  complete : m.station.cores.incoming = [] → m.due = [] →
    m.station.cores.txDriver.nextUsed? m.station.cores.memory = none →
      addressedTo (slotAddr slot) t.reads = requests ∧
        sentBy (slotAddr slot) mail = saidOn slot name store requests
  /-- There is a response for each request that is long enough. -/
  count : (responses (slotAddr slot) store requests).length =
    (requests.filter fun q => Config.headerSize ≤ q.data.length).length
  shape : ∀ r ∈ responses (slotAddr slot) store requests,
    r.src = slotAddr slot ∧ r.data.length = Config.messageSize

/-- What holds of the incoming direction at a moment `m`, after `t` was seen. -/
structure Attended (start : Station σ) (t : Trace) (m : Moment σ) : Prop where
  /-- Every packet that was taken was handed back, but for one that the firmware still has. -/
  handedBack : servings t.log = served t.acts ++
    m.held.toList.map (fun idx => (.publish idx (UInt32.ofNat maxLen) true, .done))
  /-- A poll ends if its waits do, and then no packet waits. -/
  polls : ∀ k left, m.station.run.machine.kicks.rx.take? = some k →
    (∀ s', Draining (m.station.woken k) s' → s'.Supplied left) →
      ∃ s', Firmware.poll m.station = .ok (true, s') ∧ s'.cores.incoming = []
  /-- What the peer sends next is the letter in the buffer that it has chosen. -/
  letter : ∀ src dst data len kick idx machine,
    PeerStep.run (.send src dst data len kick) m.station.run.machine = .ok (.index idx, machine) →
      idx.toNat < start.cores.rx.layout.num.toNat →
      Header.size + data.length ≤ (start.cores.rxBuffer idx).capacity → len.toNat = data.length →
        (m.station.withMachine machine).cores.letter? idx = some ⟨src, dst, data⟩

theorem saidOn_append {slot : Fin maxChannels} {name : String} {store : S} {qs qs' : List Message} :
    saidOn slot name store (qs ++ qs') = saidOn slot name store qs ++
      responses (slotAddr slot) (storeAfter store qs) qs' := by
  rw [saidOn, responses_append]
  rfl

/-- It is told by what waits on either side: the letters that were not read yet, and the messages
that are due or under way. -/
theorem ChannelServes.of_sent {view : σ → S} {slot : Fin maxChannels} {name : String} {store : S}
    {letters : List (Option Message)} {mail underway : List Message} {t : Trace} {m : Moment σ}
    (waits : letters = t.reads ++ m.station.cores.backlog)
    (heard : heardOn slot t.log = addressedTo (slotAddr slot) t.reads)
    (stored : view m.station.app = storeAfter store (addressedTo (slotAddr slot) t.reads))
    (sent : sentBy (slotAddr slot) mail ++
        (sentBy (slotAddr slot) underway ++ sentBy (slotAddr slot) m.due) =
      saidOn slot name store (addressedTo (slotAddr slot) t.reads))
    (collected : m.station.cores.txDriver.nextUsed? m.station.cores.memory = none → underway = []) :
    ChannelServes view slot name store (addressedTo (slotAddr slot) letters) mail t m := by
  have all : addressedTo (slotAddr slot) letters = addressedTo (slotAddr slot) t.reads ++
      addressedTo (slotAddr slot) m.station.cores.backlog := by
    rw [waits, addressedTo_append]
  have received : sentBy (slotAddr slot) mail <+:
      saidOn slot name store (addressedTo (slotAddr slot) t.reads) := ⟨_, sent⟩
  refine {
    given := ⟨_, all.symm⟩, heard, stored, received, expected := ?expected, complete := ?complete
    count := length_responses, shape := fun _ => of_mem_responses }
  case expected =>
    rw [all, saidOn_append]
    exact received.trans (List.prefix_append _ _)
  case complete =>
    intro noPacket nothing drained
    have none : addressedTo (slotAddr slot) m.station.cores.backlog = [] := by
      rw [Cores.backlog, noPacket]
      rfl
    rw [none, List.append_nil] at all
    rw [collected drained, nothing] at sent
    refine ⟨all.symm, ?_⟩
    rw [all, ← sent]
    simp [sentBy]

/-- On a link on which the peer keeps to its rule, a channel is created with a server for a handler.
The other handlers leave the store alone, and the application sends nothing of its own on the
channel. The requests are the messages to the channel that waited when it was created, and those
that the peer has sent since. At every moment, also where the server waits for a buffer, the channel
was given some of them, the store is what these made of it, and the peer received the announcement
and the first of the responses (`ChannelServes`); every packet that was taken was handed back
(`Attended`). Moments follow on one another with every call and every step of the peer. -/
theorem config_channel_answers {view : σ → S} {start s₀ : Station σ} {slot : Fin maxChannels}
    {name : String} {handler : Handler σ} {t₀ t : Trace} {m : Moment σ}
    (prepared : start.cores.Prepared) (unused : start.mux.Fresh)
    (roomy : ∀ i : UInt16, i.toNat < start.cores.tx.layout.num.toNat →
      Header.size + Config.messageSize ≤ (start.cores.txBuffer i).len.toNat)
    (before : Moment.Run (Spares view) (fun _ => True) { station := start } t₀ { station := s₀ })
    (free : s₀.freeSlot? = some slot) (serves : Serves view handler)
    (after : Moment.Run (Spares view) (· ≠ slot)
      { station := s₀.entered slot name handler
        due := [Firmware.announcement name s₀.mux.nextAddr] } t m)
    (obeys : Obeys start.cores.rule (t₀ ++ t).acts) :
    ChannelServes view slot name (view s₀.app)
        (addressedTo (slotAddr slot) (s₀.cores.backlog ++ t.letters)) (t₀ ++ t).mail t m ∧
      Attended start (t₀ ++ t) m ∧
      Moment.GoesOn (Spares view) (· ≠ slot) m ∧
      ∀ s', Firmware.createChannel name handler s₀ = .ok (.ok slot, s') →
        ∃ t', Moment.Run (Spares view) (· ≠ slot)
          { station := s₀.entered slot name handler
            due := [Firmware.announcement name s₀.mux.nextAddr] } t' { station := s' } := by
  -- The run from the start of the link.
  have whole := (before.enters free name handler).append
    (after.mono (fun _ _ => trivial) fun _ _ => trivial)
  have earlier : Obeys start.cores.rule t₀.acts := obeys.init
  have tallies₀ := before.tallies prepared earlier
  have tallies := whole.tallies prepared obeys
  refine ⟨?serving, ?attended, Moment.goesOn _ _ (whole.placed prepared.ready.placed), ?created⟩
  case serving =>
    -- What the channel was given.
    have waits : s₀.cores.backlog ++ t.letters = t.reads ++ m.station.cores.backlog :=
      tallies₀.since tallies
    -- What the channel made of it.
    obtain ⟨deeds, sourced⟩ := before.sourced unused
    have here := sourced.table.freeSlot?_eq_some free
    have addr : s₀.mux.nextAddr = slotAddr slot := by
      rw [sourced.table.nextAddr, ← here]
    obtain ⟨-, stored, spoken, heard⟩ := (Answered.entered name handler addr).run
      (.entered sourced.table free serves (before.handlers unused fun _ _ _ => rfl)) after
    -- What the peer received.
    have sent : sentBy (slotAddr slot) (sentIn (t₀ ++ t).acts) ++ sentBy (slotAddr slot) m.due =
        saidOn slot name (view s₀.app) (addressedTo (slotAddr slot) t.reads) := by
      rw [Trace.acts_append, sentIn_append, sentBy_append,
        sentBy_of_sourced sourced (Nat.le_of_eq here.symm), List.nil_append, ← sentBy_append]
      exact spoken
    have short : ∀ msg ∈ sentIn (t₀ ++ t).acts, msg.src = slotAddr slot →
        msg.data.length ≤ Config.messageSize := by
      intro msg mem src
      have mine : msg ∈ sentBy (slotAddr slot) (sentIn (t₀ ++ t).acts) :=
        List.mem_filter.mpr ⟨mem, by simpa using src⟩
      have said := List.mem_append_left (sentBy (slotAddr slot) m.due) mine
      rw [sent] at said
      exact length_le_of_said said
    have received := whole.traffic.sentBy_mail prepared.ready prepared.disjoint
      (obeys.mono fun _ _ => And.left) roomy (by decide) short
    rw [received, List.append_assoc] at sent
    refine .of_sent waits heard stored sent fun drained => ?_
    rw [tallies.accounted.tx.waiting_eq_nil drained]
    rfl
  case attended =>
    exact ⟨whole.servings_eq, fun k left => tallies.poll_goes,
      fun _ _ _ _ _ _ _ run => tallies.letter?_of_send prepared run⟩
  case created =>
    intro s' run
    obtain ⟨-, t', next, -⟩ := Moment.Run.announced (before.placed prepared.ready.placed) run
    exact ⟨t', next⟩

/-- A link with two buffers in each direction that have room for a configuration message. -/
def roomyBuffers : Site :=
  { twoBuffers with rxBuffers := 0x3600, bufSize := 512 }

theorem fits_roomyBuffers : roomyBuffers.Fits threePages.memory :=
  Site.fits_of_thirdPage rfl rfl rfl (by decide) (by decide) (by decide)

/-- A table with one variable, which is 5 and at most 10. -/
def oneVariable : VarTable where
  vars := [⟨1, "speed", "", 5, 0, 10, none, none⟩]

/-- A request to set the variable to 100. -/
def tooFast : Message :=
  ⟨7, firstLocalAddr, (Config.Message.request 0 .write 0 100).encode⟩

/-- The peer has offered the first buffer of each direction, and has written the request into
one. -/
def requested : Trace where
  acts := [.offeredTx 0, .wrote 0x3600 tooFast.header.encode, .wrote 0x3610 tooFast.data, .offeredRx 0]
  letters := [some tooFast]

/-- On a link that was set up the peer can do so. -/
theorem request_waits : ∃ (start s : Station VarTable) (bus : Bus),
    roomyBuffers.setUp oneVariable threePages = .ok (.ok start, bus) ∧
    start.cores.Prepared ∧ start.mux.Fresh ∧
    (∀ i : UInt16, i.toNat < start.cores.tx.layout.num.toNat →
      (start.cores.txBuffer i).len = roomyBuffers.bufSize) ∧
    Moment.Run (Spares id) (fun _ => True) { station := start } requested { station := s } ∧
    Obeys start.cores.rule requested.acts ∧ s.mux = start.mux ∧ s.app = oneVariable := by
  obtain ⟨start, bus, setUp, starts⟩ := fits_roomyBuffers.setUp oneVariable
  have fresh := starts.fresh
  have prepared := Cores.Prepared.of_fits fits_roomyBuffers
  rw [← starts.cores] at prepared
  have numTx : start.cores.tx.layout.num.toNat = 2 := by rw [fresh.num.1]; rfl
  have numRx : start.cores.rx.layout.num.toNat = 2 := by rw [fresh.num.2]; rfl
  obtain ⟨rxBuffer, -⟩ := fresh.readable 0 (by decide)
  -- The outgoing buffer.
  obtain ⟨m₁, -, -, step₁⟩ := Peer.offerTx_eq 0 prepared.ready.placed
  have run₁ : Moment.Run (Spares id) (fun _ => True) { station := start } { acts := [.offeredTx 0] }
      { station := start.withMachine m₁ } :=
    Moment.Run.start.byPeer (.single step₁) (by simp [Act.byPeer])
  have obeys₁ : Obeys start.cores.rule [.offeredTx 0] := by
    refine Obeys.nil.concat ⟨?_, trivial⟩
    rw [Cores.txRule, numTx]
    decide
  -- The request.
  have accounted := (run₁.tallies prepared obeys₁).accounted
  have inRing : (0 : UInt16).toNat < start.cores.rx.layout.num.toNat := Ring.Layout.num_pos _
  have fits : Header.size + tooFast.data.length ≤ (start.cores.rxBuffer 0).capacity := by
    rw [rxBuffer, show tooFast.data.length = Config.messageSize from Config.Message.length_encode _]
    decide
  have custody : (rxCustody start.cores.rx.layout.num.toNat [.offeredTx 0]).driver = [0, 1] := by
    rw [numRx]
    rfl
  have obeys₂ := prepared.obeys_posts obeys₁ inRing (by rw [custody]; decide) (by
    intro i inRing away
    rw [numRx] at inRing
    rw [custody] at away
    simp only [List.mem_cons, List.not_mem_nil, or_false, not_or] at away
    omega) fits
  have same := accounted.rxBuffers 0 inRing
  obtain ⟨m₂, run₂⟩ := run₁.posts accounted.usable.order (accounted.readable prepared inRing) tooFast
    (by rw [same]; exact fits)
  rw [same, rxBuffer] at run₂
  rw [rxBuffer] at obeys₂
  have app : start.app = oneVariable := Site.setUp_app setUp
  refine ⟨start, _, bus, setUp, prepared, starts.mux, ?_, run₂, obeys₂, rfl, app⟩
  intro i inRing
  rw [fresh.num.1] at inRing
  rw [(fresh.writable i inRing).1]
  rfl

/-- On a link that was set up, the peer offers a buffer and sends a request. Then a channel with a
server is created, and is given the request. -/
theorem config_channel_answers_write :
    ∃ (start s₀ s : Station VarTable) (bus : Bus) (t : Trace) (m : Moment VarTable),
      roomyBuffers.setUp oneVariable threePages = .ok (.ok start, bus) ∧
      Moment.Run (Spares id) (fun _ => True) { station := start } requested { station := s₀ } ∧
      Firmware.createChannel Config.channelName configService s₀ = .ok (.ok ⟨0, by decide⟩, s) ∧
      Moment.Run (Spares id) (· ≠ ⟨0, by decide⟩) { station := s } t m ∧
      heardOn ⟨0, by decide⟩ t.log = [tooFast] ∧ m.station.app.vars.map (·.value) = [10] := by
  obtain ⟨start, s₀, bus, setUp, prepared, unused, size, before, obeys, mux, app⟩ := request_waits
  have tallies := before.tallies prepared obeys
  have usable : s₀.cores.Usable := tallies.accounted.usable
  have kept : start.cores.TxKept requested.acts s₀.cores := tallies.accounted.tx
  have num : (0 : UInt16).toNat < start.cores.tx.layout.num.toNat := Ring.Layout.num_pos _
  have fresh : s₀.mux.Fresh := mux ▸ unused
  -- The channel is announced in the first buffer.
  have free : s₀.freeSlot? = some ⟨0, by decide⟩ := Station.freeSlot?_of_unused fresh.channels
  have next : s₀.cores.tx.next? s₀.cores.memory = some 0 := by
    have queue : s₀.cores.txEnds.queues.offered = [0] := kept.holds.offered.symm
    rw [kept.next?_eq, queue]
    rfl
  have roomy : Header.size ≤ (s₀.cores.txBuffer 0).len.toNat := by
    rw [kept.buffers 0 num, size 0 num]
    decide
  obtain ⟨s, created, announced, same, -⟩ := Moment.Step.announces (Spares id)
    (· ≠ ⟨0, by decide⟩) Config.channelName (configService : Handler VarTable) usable free next roomy
  let spoke : Act := .sent 0 (Firmware.announcement Config.channelName s₀.mux.nextAddr)
  have obeys₁ : Obeys start.cores.rule (requested.acts ++ [spoke]) := obeys.concat ⟨trivial, trivial⟩
  have waits : s.cores.backlog = [some tooFast] := by
    have said := (before.enters free Config.channelName configService).append
      ((Moment.Run.single announced).mono (fun _ _ => trivial) fun _ _ => trivial)
    exact (said.tallies prepared obeys₁).letters.symm
  -- The request is taken.
  have table : Tabulates [.created Config.channelName] s := by
    refine (fresh.tabulates.entered free Config.channelName (configService : Handler VarTable)).of_same ?_ ?_
    all_goals rw [same]
  have dst : tooFast.dst = slotAddr (⟨0, by decide⟩ : Fin maxChannels) := rfl
  obtain ⟨idx, s', replies, delivered⟩ :=
    Moment.Step.delivers (Spares id) (· ≠ ⟨0, by decide⟩) table waits Nat.zero_lt_one dst
  have obeys₂ : Obeys start.cores.rule (requested.acts ++ [spoke] ++ [.took idx]) :=
    obeys₁.concat ⟨trivial, trivial⟩
  rw [List.append_assoc] at obeys₂
  obtain ⟨serving, -⟩ := config_channel_answers prepared unused (fun i inRing => by
    rw [size i inRing]
    decide) before free serves_configService ((Moment.Run.single announced).step delivered) obeys₂
  have given : addressedTo (slotAddr (⟨0, by decide⟩ : Fin maxChannels)) [some tooFast] = [tooFast] := by
    rw [addressedTo_some, if_pos dst]
  have stored : s'.app = storeAfter s₀.app (addressedTo _ [some tooFast]) := serving.stored
  have heard : _ = addressedTo _ [some tooFast] := serving.heard
  rw [given] at heard stored
  rw [app] at stored
  have decoded : Config.Message.decode tooFast.data = .ok (Config.Message.request 0 .write 0 100) :=
    Config.Message.decode_encode _
  have value : s'.app.vars.map (·.value) = [10] := by
    rw [stored, storeAfter, decoded]
    rfl
  exact ⟨start, s₀, s, bus, _, _, setUp, before, created, .single delivered, heard, value⟩

end InterCore.Link
