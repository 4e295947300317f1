import InterCore.Proofs.Link.Incoming
import InterCore.Proofs.Link.Polling

/-!
# Traffic

What the peer sends is what stands in a buffer when it offers it, and what it receives is what it
reads in a buffer when it collects it. `Traffic` is a path with both. What the firmware then reads
in an incoming buffer is what was sent (`Accounted.traffic`), and what the peer receives from an
address is what was sent from there, in order (`Traffic.sentBy_mail`).
-/

namespace InterCore.Link

open InterCore.Packet (Header maxLen)
open InterCore.Ring

namespace Message

/-- The message of a packet. -/
def ofPacket (packet : Header × List UInt8) : Message :=
  ⟨packet.1.src, packet.1.dst, packet.2⟩

end Message

/-- The messages from an address. -/
def sentBy (a : UInt32) (messages : List Message) : List Message :=
  messages.filter (·.src == a)

@[simp]
theorem sentBy_append (a : UInt32) (messages messages' : List Message) :
    sentBy a (messages ++ messages') = sentBy a messages ++ sentBy a messages' :=
  List.filter_append _ _

/-- The used element that the peer collected. -/
def Act.collected : Act → Option UsedElem
  | collectedTx x => some x
  | _ => none

namespace Cores

variable {c₀ c c' c'' : Cores} {acts acts' before : List Act} {act : Act} {idx : UInt16} {x : UsedElem}
  {msg : Message} {held : Option UInt16} {letters letters' : List (Option Message)}
  {mail mail' : List Message}

/-- The message in an incoming buffer, if what stands there is a packet that fits into the
buffer. -/
def letter? (c : Cores) (idx : UInt16) : Option Message :=
  let b := c.rxBuffer idx
  if b.capacity < Header.size then none
  else
    let header := Header.decode (c.memory.slice b.addr.toNat Header.size)
    if b.capacity < Header.size + header.len.toNat then none
    else some ⟨header.src, header.dst, c.memory.slice (b.addr.toNat + Header.size) header.len.toNat⟩

/-- The message in an outgoing buffer that was used, if the buffer has room for a header. -/
def mail? (c : Cores) (x : UsedElem) : Option Message :=
  let b := c.txDriver.layout.buffer c.memory x.id.toUInt16
  if b.len.toNat < Header.size then none
  else
    let header := Header.decode (c.memory.slice b.addr.toNat Header.size)
    some ⟨header.src, header.dst, c.memory.slice (b.addr.toNat + Header.size) header.len.toNat⟩

/-- The messages in the packets that wait. -/
def backlog (c : Cores) : List (Option Message) :=
  c.incoming.map c.letter?

/-- A path with what the peer sent and what it received on it. -/
inductive Traffic (start : Cores) :
    List Act → (letters : List (Option Message)) → (mail : List Message) → Cores → Prop where
  | start : Traffic start [] [] [] start
  | step {acts : List Act} {letters : List (Option Message)} {mail : List Message} {act : Act}
      {c c' : Cores} (before : Traffic start acts letters mail c) (step : Step c act c') :
      Traffic start (acts ++ [act]) (letters ++ act.offered.toList.map c'.letter?)
        (mail ++ act.collected.toList.filterMap c'.mail?) c'

namespace Traffic

theorem path (h : Traffic c acts letters mail c') : Path c acts c' := by
  induction h with
  | start => exact .start
  | step before step ih => exact ih.step step

theorem append (h : Traffic c acts letters mail c') (h' : Traffic c' acts' letters' mail' c'') :
    Traffic c (acts ++ acts') (letters ++ letters') (mail ++ mail') c'' := by
  induction h' with
  | start => simpa only [List.append_nil] using h
  | step before step ih =>
    rw [← List.append_assoc, ← List.append_assoc, ← List.append_assoc]
    exact ih.step step

theorem single (step : Step c act c') :
    Traffic c [act] (act.offered.toList.map c'.letter?) (act.collected.toList.filterMap c'.mail?) c' :=
  Traffic.step .start step

end Traffic

/-- Whatever happens, there is something that is sent and received in it. -/
theorem Path.traffic (h : Path c acts c') : ∃ letters mail, Traffic c acts letters mail c' := by
  induction h with
  | start => exact ⟨_, _, .start⟩
  | step before step ih =>
    obtain ⟨letters, mail, traffic⟩ := ih
    exact ⟨_, _, traffic.step step⟩

/-! ## What the firmware reads -/

theorem SamePacket.letter?_eq (h : SamePacket c c' idx) : c'.letter? idx = c.letter? idx := by
  obtain ⟨buffer, bytes⟩ := h
  unfold letter?
  rw [buffer]
  dsimp only [Buffer.span] at bytes ⊢
  split
  · rfl
  · rw [bytes.slice (Nat.le_refl _) (by omega)]
    split
    · rfl
    · rw [bytes.slice (by omega) (by omega)]

theorem Keeps.backlog_eq {added : List UInt16} (h : Keeps (fun _ => True) c added c') :
    c'.backlog = c.backlog ++ added.map c'.letter? := by
  have same : c.incoming.map c'.letter? = c.incoming.map c.letter? := by
    apply List.map_congr_left
    intro idx waits
    exact (h.packets idx waits trivial).letter?_eq
  rw [backlog, h.incoming, List.map_append, backlog, same]

namespace Accounted

/-- While the firmware takes no packet and hands none back, those that the peer sends come behind
those that wait. -/
theorem traffic (h : Accounted c₀ before held c) (prepared : c₀.Prepared)
    (traffic : Traffic c acts letters mail c') (quiet : served acts = [])
    (obeys : Obeys (rule c₀) (before ++ acts)) :
    Accounted c₀ (before ++ acts) held c' ∧ c'.backlog = c.backlog ++ letters := by
  induction traffic with
  | start => simpa only [List.append_nil, and_true] using h
  | @step acts letters mail act c₁ c₂ earlier step ih =>
    rw [← List.append_assoc] at obeys ⊢
    obtain ⟨obeyed, admitted⟩ := obeys.snoc
    obtain ⟨quiet, quietNow⟩ := served_concat_eq_nil quiet
    obtain ⟨accounted, backlog⟩ := ih quiet obeyed
    obtain ⟨accounted', keeps⟩ := accounted.step prepared step quietNow admitted
    refine ⟨accounted', ?_⟩
    rw [keeps.backlog_eq, backlog, List.append_assoc]

/-- The firmware takes what was sent first of what waits. -/
theorem backlog_taken (h : Accounted c₀ acts none c) (prepared : c₀.Prepared) (step : Step c act c')
    (takes : act.taken = some idx) :
    Accounted c₀ (acts ++ [act]) (some idx) c' ∧ c.backlog = c'.letter? idx :: c'.backlog := by
  obtain ⟨accounted, queue, memory⟩ := h.taken prepared step takes
  have buffers : c'.rxBuffer = c.rxBuffer := by
    funext i
    rw [rxBuffer, rxBuffer, memory, step.sameRings.rx]
  have same : c'.letter? = c.letter? := by
    funext i
    rw [letter?, letter?, memory, buffers]
  refine ⟨accounted, ?_⟩
  rw [backlog, queue, List.map_cons, backlog, same]

theorem backlog_returned (h : Accounted c₀ acts (some idx) c) (prepared : c₀.Prepared)
    (step : Step c (.returned idx) c') :
    Accounted c₀ (acts ++ [.returned idx]) none c' ∧ c'.backlog = c.backlog := by
  obtain ⟨accounted, keeps⟩ := h.returned prepared step
  refine ⟨accounted, ?_⟩
  rw [keeps.backlog_eq]
  exact List.append_nil _

end Accounted

/-! ## What the peer reads -/

section Mail

/-- What the peer reads in a buffer is the message that the buffer holds. -/
theorem Holds.mail?_eq (h : c.Holds x.id.toUInt16 msg) (placed : c.Placed) :
    c.mail? x = some (msg.cutTo (c.txBuffer x.id.toUInt16).len) := by
  have buffer : c.txDriver.layout.buffer c.memory x.id.toUInt16 =
      c.tx.layout.buffer c.memory x.id.toUInt16 := by
    rw [placed.txOne]
  have roomy : Header.size ≤ (c.tx.layout.buffer c.memory x.id.toUInt16).len.toNat := h.roomy
  obtain ⟨header, data⟩ := h.carries
  rw [mail?, buffer]
  dsimp only
  rw [if_neg (Nat.not_lt.mpr roomy), header, Header.decode_encode, Message.toNat_len_cutTo, data]
  rfl

/-- A message that fits is not cut, and the others from an address do not matter. -/
theorem sentBy_cutTo {a : UInt32} {n : Nat} {len : UInt32} (roomy : Header.size + n ≤ len.toNat)
    (few : Header.size + n ≤ maxLen) (short : msg.src = a → msg.data.length ≤ n) :
    sentBy a [msg.cutTo len] = sentBy a [msg] := by
  by_cases mine : msg.src = a
  · have fits : msg.cutTo len = msg := by
      have whole : msg.data.length ≤ min len.toNat maxLen - Header.size := by
        have := short mine
        omega
      exact congrArg (Message.mk _ _) (List.take_of_length_le whole)
    rw [fits]
  · have other : (msg.src == a) = false := beq_eq_false_iff_ne.mpr mine
    have other' : ((msg.cutTo len).src == a) = false := other
    rw [sentBy, sentBy, List.filter_cons_of_neg (by simp [other']), List.filter_cons_of_neg (by simp [other])]

theorem waiting_of_posted (few : (collectedTx acts).length ≤ (posted acts).length)
    (none : collectedTx [act] = []) : waiting (acts ++ [act]) = waiting acts ++ posted [act] := by
  have posts : posted (acts ++ [act]) = posted acts ++ posted [act] := List.filterMap_append
  have collects : collectedTx (acts ++ [act]) = collectedTx acts ++ collectedTx [act] :=
    List.filterMap_append
  rw [waiting, posts, collects, none, List.append_nil, List.drop_append_of_le_length few, waiting]

theorem waiting_of_collected (acts : List Act) (x : UsedElem) :
    waiting (acts ++ [.collectedTx x]) = (waiting acts).drop 1 := by
  have posts : posted (acts ++ [.collectedTx x]) = posted acts ++ [] := List.filterMap_append
  have collects : collectedTx (acts ++ [.collectedTx x]) = collectedTx acts ++ [x] :=
    List.filterMap_append
  rw [waiting, posts, collects, List.append_nil, List.length_append, ← List.drop_drop]
  rfl

/-- Where every outgoing buffer has room for a header, none is handed back without a message. -/
theorem Path.posted_some (h : Path c₀ acts c) (ready : c₀.Ready) (obeys : Obeys (txRule c₀) acts)
    (roomy : ∀ i : UInt16, i.toNat < c₀.tx.layout.num.toNat →
      Header.size ≤ (c₀.txBuffer i).len.toNat) : (idx, none) ∉ posted acts := by
  induction h with
  | start => exact nofun
  | @step acts act c c' before last ih =>
    obtain ⟨earlier, -⟩ := obeys.snoc
    have posts : posted (acts ++ [act]) = posted acts ++ posted [act] := List.filterMap_append
    rw [posts]
    intro mem
    rcases List.mem_append.mp mem with old | new
    · exact ih earlier old
    · cases last with
      | skipped next short =>
        obtain ⟨inRing, -, buffer⟩ := (before.txKept ready earlier).buffer_of_next next
        rw [buffer] at short
        exact Nat.not_lt.mpr (roomy _ inRing) short
      | sent next enough fits => cases List.mem_singleton.mp new
      | _ => cases new

/-- Where every outgoing buffer has room for a header, what the peer collects next is a message that
was sent, as far as it fits. -/
theorem Path.mail_of_next (h : Path c₀ acts c) (ready : c₀.Ready) (disjoint : c₀.BuffersApart)
    (obeys : Obeys (txRule c₀) acts) (roomy : ∀ i : UInt16, i.toNat < c₀.tx.layout.num.toNat →
      Header.size ≤ (c₀.txBuffer i).len.toNat) {x : UsedElem}
    (next : c.txDriver.nextUsed? c.memory = some x) :
    ∃ idx msg rest, waiting acts = (idx, some msg) :: rest ∧ idx.toNat < c₀.tx.layout.num.toNat ∧
      msg ∈ sentIn acts ∧ c.mail? x = some (msg.cutTo (c₀.txBuffer idx).len) := by
  have kept := h.txKept ready obeys
  obtain ⟨⟨idx, message⟩, rest, waits, rfl⟩ := kept.waiting_of_next next
  have mem : (idx, message) ∈ waiting acts := by simp [waits]
  have put := List.mem_of_mem_drop mem
  obtain ⟨inRing, -⟩ := kept.away_of_waiting mem
  cases message with
  | none => exact absurd put (h.posted_some ready obeys roomy)
  | some msg =>
    have id : (usedElem (idx, some msg)).id.toUInt16 = idx := by simp [usedElem]
    have held := h.mailed ready disjoint obeys idx msg mem
    rw [← id] at held
    have read := held.mail?_eq (h.placed ready.placed)
    rw [id, kept.buffers idx inRing] at read
    refine ⟨idx, msg, rest, waits, inRing, ?_, read⟩
    rw [sentIn_eq]
    exact List.mem_filterMap.mpr ⟨_, put, rfl⟩

variable {a : UInt32} {n : Nat}

/-- What the peer receives from an address is what was sent from there, as long as it fits into
every buffer, and what is missing waits. -/
theorem Traffic.sentBy_mail (h : Traffic c₀ acts letters mail c) (ready : c₀.Ready)
    (disjoint : c₀.BuffersApart) (obeys : Obeys (txRule c₀) acts)
    (roomy : ∀ i : UInt16, i.toNat < c₀.tx.layout.num.toNat →
      Header.size + n ≤ (c₀.txBuffer i).len.toNat) (few : Header.size + n ≤ maxLen)
    (short : ∀ msg ∈ sentIn acts, msg.src = a → msg.data.length ≤ n) :
    sentBy a (sentIn acts) = sentBy a mail ++ sentBy a ((waiting acts).filterMap Prod.snd) := by
  induction h with
  | start => rfl
  | @step acts letters mail act c c' before last ih =>
    obtain ⟨earlier, -⟩ := obeys.snoc
    have path := before.path
    have kept := path.txKept ready earlier
    have balance := congrArg List.length kept.collected_eq
    rw [List.length_map, List.length_append] at balance
    have known := ih earlier fun msg mem => short msg (by simp [mem])
    have elsewhere (nothing : collectedTx [act] = []) (noMail : act.collected = none) :
        sentBy a (sentIn (acts ++ [act])) =
          sentBy a (mail ++ act.collected.toList.filterMap c'.mail?) ++
            sentBy a ((waiting (acts ++ [act])).filterMap Prod.snd) := by
      rw [waiting_of_posted (by omega) nothing, noMail, sentIn_append, List.filterMap_append,
        sentBy_append, sentBy_append, known, sentBy_append, List.append_assoc, List.append_assoc,
        ← sentIn_eq]
      rfl
    cases last with
    | @collectedTx x next =>
      obtain ⟨idx, msg, rest, waits, inRing, sent, read⟩ := path.mail_of_next ready disjoint earlier
        (fun i inRing => Nat.le_of_add_right_le (roomy i inRing)) next
      have got : (Act.collected (.collectedTx x)).toList.filterMap
          (mail? { c with txDriver := c.txDriver.collecting }) =
            [msg.cutTo (c₀.txBuffer idx).len] := by
        show List.filterMap c.mail? [x] = _
        rw [List.filterMap_cons, read]
        rfl
      have whole : sentBy a [msg.cutTo (c₀.txBuffer idx).len] = sentBy a [msg] :=
        sentBy_cutTo (roomy idx inRing) few fun src => short msg (by simp [sent]) src
      have first : (waiting acts).filterMap Prod.snd = [msg] ++ rest.filterMap Prod.snd := by
        rw [waits]
        rfl
      have none : sentIn [.collectedTx x] = [] := rfl
      rw [sentIn_append, none, List.append_nil, got, sentBy_append, whole, known, first, sentBy_append,
        waiting_of_collected, waits, List.append_assoc]
      rfl
    | _ => exact elsewhere rfl rfl

end Mail

end Cores

/-- What the firmware reads in a buffer is the message that stands there. -/
theorem Station.letter?_cores {σ : Type} (s : Station σ) (idx : UInt16) :
    s.cores.letter? idx = (s.packet? idx).map Message.ofPacket := by
  have memory : s.cores.memory = s.memory := rfl
  have buffer : s.cores.rxBuffer idx = s.rxBuffer idx := rfl
  rw [Cores.letter?, packet?, memory, buffer]
  dsimp only
  split
  · rfl
  · split <;> rfl

end InterCore.Link
