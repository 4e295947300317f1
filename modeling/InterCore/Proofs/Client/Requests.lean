import InterCore.Proofs.Client.Messages
import InterCore.Proofs.Memory.Replay

/-!
# What becomes of a blocking request

A caller hands its message to the link once and waits once. Meanwhile others may use the pool, and
any messages may come in; they only leave the ticket of the request alone, which its caller has. So
however the sending and the wait end, the slot of the request is free again when the caller leaves,
or it is abandoned because the response is still to come; it is never left with a result in it, and
no other slot is touched.
-/

namespace InterCore.Client

open InterCore.Config (Message Reply RequestKind)

variable {n : Nat} {W : Type}

/-- Work of surroundings whose state is `W`. A wait that nothing ends is a fault. -/
abbrev Around (W : Type) := StateT W (Except Fault)

/-- The messages with a sequence number that come in during some calls. -/
def messagesWith (seq : UInt32) (during : List Event) : List Message :=
  during.filterMap (messageWith seq)

/-- The calls made after the last request was started tell the response to it. -/
theorem responseTo_last {past : List Event} {k : Nat} (number : (numbersIn past).length = k)
    (seq : UInt32) (during : List Event) :
    responseTo k (past ++ (.start, .started seq) :: during) = (messagesWith seq during).head? := by
  rw [messagesWith, List.head?_filterMap]
  induction past generalizing k with
  | nil =>
    subst number
    rfl
  | cons first rest ih =>
    rw [numbersIn, List.filterMap_cons] at number
    rw [List.cons_append]
    cases started : numberOf first with
    | none =>
      rw [started] at number
      cases k with
      | zero => rw [responseTo, started]; exact ih number
      | succ k => rw [responseTo, started]; exact ih number
    | some seq' =>
      rw [started] at number
      cases k with
      | zero => cases number
      | succ k => rw [responseTo, started]; exact ih (Nat.succ.inj number)

namespace Session

variable {x s s' : Session n} {c : Call} {r : Report} {k : Nat} {t : Ticket n}
  {past during : List Event}

/-! ## The slot of a ticket while others use the pool -/

/-- The response to the request of a ticket has come in: it is in the slot. It was the first message
with the number of the request, as long as the numbers have not run out. -/
structure Answered (t : Ticket n) (during : List Event) (s : Session n) (m : Message) : Prop where
  there : s.pool.stateOf t.slot = .done (Reply.ofMessage m)
  came : m ∈ messagesWith t.seq during
  first : s.started ≤ UInt32.size → (messagesWith t.seq during).head? = some m

/-- The response to the request of a ticket is still to come. -/
structure Unanswered (t : Ticket n) (during : List Event) (s : Session n) : Prop where
  waiting : s.pool.stateOf t.slot = .waiting
  none : s.started ≤ UInt32.size → messagesWith t.seq during = []

/-- A call of somebody else leaves a ticket alone, and its slot, unless it hands in the response. -/
theorem Effect.spares (effect : s.Effect c r s') (h : s.Leased) (mine : s.tickets k = some t)
    (unfinished : t.finished = false) (other : ¬c.Uses k) :
    s'.tickets k = some t ∧ (s'.pool.stateOf t.slot = s.pool.stateOf t.slot ∨
      ∃ m, c = .complete m ∧ m.seq = t.seq ∧
        s'.pool.stateOf t.slot = .done (Reply.ofMessage m)) := by
  have held := (h.own k t mine unfinished).2
  -- Somebody else's ticket, and the slot that it has.
  have kept {pool : Pool n} {k' : Nat} (after : Option (Ticket n)) (apart : ¬k' = k) :
      (s.withTicket pool k' after).tickets k = some t := by
    rw [tickets_withTicket_of_ne _ _ _ (Ne.symm apart), mine]
  have elsewhere {k' : Nat} {t' : Ticket n} (own : s.tickets k' = some t')
      (unfinished' : t'.finished = false) (apart : ¬k' = k) : t.slot ≠ t'.slot :=
    h.alone k' t' k t own unfinished' mine unfinished (Ne.symm apart)
  cases effect with
  | refused _ => exact ⟨mine, .inl rfl⟩
  | unknown _ => exact ⟨mine, .inl rfl⟩
  | seen _ => exact ⟨mine, .inl rfl⟩
  | collectedBefore _ _ => exact ⟨mine, .inl rfl⟩
  | notYet _ _ _ => exact ⟨mine, .inl rfl⟩
  | @started i free top =>
    have old : k ≠ s.started := by
      rintro rfl
      rw [h.unborn _ (Nat.le_refl _)] at mine
      cases mine
    have apart : t.slot ≠ i := by
      rintro rfl
      exact held.ne_free (h.listed.stateOf_top top)
    refine ⟨by rw [tickets_withRequest_of_ne _ _ _ old, mine], .inl ?_⟩
    show (s.pool.opened i free).stateOf t.slot = _
    rw [Pool.stateOf_opened, if_neg apart]
  | @answered m i rest mem _ _ =>
    refine ⟨mine, ?_⟩
    show ((s.pool.withPending rest).setState i _).stateOf t.slot = _ ∨ _
    by_cases here : t.slot = i
    · refine .inr ⟨m, rfl, ?_, ?_⟩
      · rw [((h.listed.pending _ _).mp mem).1, ← here, (h.own k t mine unfinished).1]
      · show ((s.pool.withPending rest).setState i _).stateOf t.slot = _
        rw [here, Pool.stateOf_setState_self]
    · exact .inl (Pool.stateOf_setState_of_ne _ _ here)
  | @late m i rest _ abandoned _ =>
    have apart : t.slot ≠ i := by
      rintro rfl
      rw [abandoned] at held
      exact held
    refine ⟨mine, .inl ?_⟩
    show ((s.pool.withPending rest).recycle i).stateOf t.slot = _
    rw [Pool.stateOf_recycle, if_neg apart, Pool.stateOf_withPending]
  | collected own unfinished' _ =>
    refine ⟨kept _ other, .inl ?_⟩
    exact (Pool.stateOf_recycle _ _ _).trans (if_neg (elsewhere own unfinished' other))
  | withdrawn own unfinished' _ =>
    refine ⟨kept _ other, .inl ?_⟩
    exact (Pool.stateOf_recycle _ _ _).trans (if_neg (elsewhere own unfinished' other))
  | forgotten _ _ => exact ⟨kept _ other, .inl rfl⟩
  | abandoned own unfinished' _ =>
    refine ⟨kept _ other, .inl ?_⟩
    exact Pool.stateOf_setState_of_ne _ _ (elsewhere own unfinished' other)
  | discarded own unfinished' _ =>
    refine ⟨kept _ other, .inl ?_⟩
    exact (Pool.stateOf_recycle _ _ _).trans (if_neg (elsewhere own unfinished' other))

theorem messagesWith_concat (seq : UInt32) (during : List Event) (e : Event) :
    messagesWith seq (during ++ [e]) = messagesWith seq during ++ (messageWith seq e).toList := by
  rw [messagesWith, List.filterMap_append, List.filterMap_cons]
  cases messageWith seq e <;> rfl

/-- A request that others leave alone goes on waiting, or has the response in its slot. -/
theorem Path.waits (path : s.Meanwhile k during s') (h : s.Leased) (mine : s.tickets k = some t)
    (unfinished : t.finished = false) (waiting : s.pool.stateOf t.slot = .waiting) :
    s'.tickets k = some t ∧ (s'.pool.stateOf t.slot = .waiting ∨
      ∃ m ∈ messagesWith t.seq during, s'.pool.stateOf t.slot = .done (Reply.ofMessage m)) := by
  induction path with
  | nil => exact ⟨mine, .inl waiting⟩
  | counted _ _ ih => exact ih
  | @call _ _ _ c r before other step ih =>
    have leased := before.leased h
    obtain ⟨still, slot⟩ := ih
    obtain ⟨still', same | ⟨m, rfl, number, done⟩⟩ :=
      (leased.effect step).spares leased still unfinished other
    · refine ⟨still', ?_⟩
      rw [same, messagesWith_concat]
      refine slot.imp_right ?_
      rintro ⟨m, came, done⟩
      exact ⟨m, List.mem_append_left _ came, done⟩
    · refine ⟨still', .inr ⟨m, ?_, done⟩⟩
      rw [messagesWith_concat, messageWith, if_pos number]
      exact List.mem_append_right _ (List.mem_singleton_self m)

/-- What others do leaves a request unanswered or brings it its response. -/
theorem Reached.answered_or_not (reached : x.Reached past) {begun : Session n}
    (started : x.Step .start (.started t.seq) begun) (mine : begun.tickets x.started = some t)
    (unfinished : t.finished = false) (waiting : begun.pool.stateOf t.slot = .waiting)
    (path : begun.Meanwhile x.started during s) :
    (∃ m, Answered t during s m) ∨ Unanswered t during s := by
  have reached₁ : begun.Reached (past ++ [(.start, .started t.seq)]) := reached.call trivial started
  have leased := reached₁.leased
  obtain ⟨still, slot⟩ := path.waits leased mine unfinished waiting
  by_cases few : s.started ≤ UInt32.size
  · -- The record of the run tells which message is in the slot.
    have reached₂ : s.Reached (past ++ (.start, .started t.seq) :: during) := by
      have all := reached₁.extend path
      rwa [List.append_assoc] at all
    have earlier := started.started_le.trans (path.started_le.trans few)
    have number : (numbersIn past).length = x.started := by
      rw [(reached.delivered earlier).numbers, List.length_map, List.length_range]
    have told := ((reached₂.delivered few).awaited _ t still unfinished).2
    rw [responseTo_last number] at told
    rcases slot with waits | ⟨m, -, done⟩
    · simp only [waits, SlotState.result?, Option.map_eq_none_iff, List.head?_eq_none_iff] at told
      exact .inr ⟨waits, fun _ => told⟩
    · simp only [done, SlotState.result?] at told
      obtain ⟨m', first, same⟩ := Option.map_eq_some_iff.mp told
      exact .inl ⟨m', by rw [done, same], List.mem_of_head? first, fun _ => first⟩
  · rcases slot with waits | ⟨m, came, done⟩
    · exact .inr ⟨waits, fun few' => absurd few' few⟩
    · exact .inl ⟨m, done, came, fun few' => absurd few' few⟩

end Session

/-! ## The surroundings of one request -/

/-- How a request that was started ends: its message is not handed over, or its caller leaves the
wait. -/
inductive Ending where
  | unsent (e : Error)
  | waited (woken : Answer Unit)

/-- The answer of a request that ends, and what its caller leaves of the pool. -/
def Ending.leave (t : Ticket n) (p : Pool n) : Ending → Answer Reply × Pool n
  | .unsent e => (.error e, t.cancel p)
  | .waited (.error e) => (.error e, t.drop p)
  | .waited (.ok ()) => Blocking.collect t p

/-- One way that the surroundings treat request `k`. While its message is handed over, and while its
caller waits, others use the pool and any messages come in. -/
inductive Surroundings.Treats (s : Surroundings (Around W) n) (k : Nat) (t : Ticket n)
    (bytes : List UInt8) (x : Session n) (w : W) : Ending → List Event → Session n → W → Prop where
  | unsent {e : Error} {during : List Event} {y : Session n} {w' : W} :
      x.Meanwhile k during y → s.send bytes x.pool w = .ok ((.error e, y.pool), w') →
        Treats s k t bytes x w (.unsent e) during y w'
  | waited {woken : Answer Unit} {during during' : List Event} {y z : Session n} {w' w'' : W} :
      x.Meanwhile k during y → s.send bytes x.pool w = .ok ((.ok (), y.pool), w') →
        y.Meanwhile k during' z → s.waitFor t y.pool w' = .ok ((woken, z.pool), w'') →
          Treats s k t bytes x w (.waited woken) (during ++ during') z w''

theorem Surroundings.Treats.meanwhile {s : Surroundings (Around W) n} {k : Nat} {t : Ticket n}
    {bytes : List UInt8} {x y : Session n} {w w' : W} {ending : Ending} {during : List Event}
    (treats : s.Treats k t bytes x w ending during y w') : x.Meanwhile k during y := by
  cases treats with
  | unsent path _ => exact path
  | waited first _ second _ => exact first.append second

theorem Blocking.request_of_treats {s : Surroundings (Around W) n} {kind : RequestKind}
    {index value : Int32} {p : Pool n} {k : Nat} {t : Ticket n} {x y : Session n} {w w' : W}
    {ending : Ending} {during : List Event} (started : p.start = (.ok t, x.pool))
    (treats : s.Treats k t (t.message kind index value) x w ending during y w') :
    request s kind index value p w = .ok (ending.leave t y.pool, w') := by
  rw [request_eq, started]
  cases treats with
  | unsent _ sent => exact bind_of_ok sent
  | @waited woken _ _ _ _ _ _ _ sent _ waited =>
    refine (bind_of_ok sent).trans ((bind_of_ok waited).trans ?_)
    cases woken with
    | error e => rfl
    | ok _ => rfl

/-- The pool after some messages came in. -/
def Pool.receiveAll (p : Pool n) (messages : List (List UInt8)) : Pool n :=
  messages.foldl (fun p bytes => (p.receive bytes).2) p

/-- Surroundings that do nothing to the pool but hand in messages. -/
structure Surroundings.Delivers (s : Surroundings (Around W) n) : Prop where
  send : ∀ bytes p w sent q w', s.send bytes p w = .ok ((sent, q), w') →
    ∃ messages, q = p.receiveAll messages
  waitFor : ∀ t p w woken q w', s.waitFor t p w = .ok ((woken, q), w') →
    ∃ messages, q = p.receiveAll messages

theorem Session.Path.receiveAll {may : Call → Prop} (allowed : ∀ m, may (.complete m))
    (messages : List (List UInt8)) (x : Session n) :
    ∃ during, x.Path may during { x with pool := x.pool.receiveAll messages } := by
  induction messages generalizing x with
  | nil => exact ⟨_, .nil⟩
  | cons bytes rest ih =>
    obtain ⟨_, first⟩ := (Session.Path.nil (s := x)).receive allowed bytes
    obtain ⟨_, others⟩ := ih { x with pool := (x.pool.receive bytes).2 }
    exact ⟨_, first.append others⟩

/-- Surroundings that only hand in messages treat every request one way or another. -/
theorem Surroundings.Delivers.treats {s : Surroundings (Around W) n} (delivers : s.Delivers)
    {kind : RequestKind} {index value : Int32} {p : Pool n} {t : Ticket n} {x : Session n} {w w' : W}
    {r : Answer Reply × Pool n} (k : Nat) (started : p.start = (.ok t, x.pool))
    (run : Blocking.request s kind index value p w = .ok (r, w')) :
    ∃ ending during y, s.Treats k t (t.message kind index value) x w ending during y w' := by
  have path (messages : List (List UInt8)) (x : Session n) :
      ∃ during, x.Meanwhile k during { x with pool := x.pool.receiveAll messages } :=
    Session.Path.receiveAll (fun _ => id) messages x
  rw [Blocking.request_eq, started] at run
  obtain ⟨⟨sent, q⟩, w₁, send, run⟩ := bind_eq_ok.mp run
  obtain ⟨first, rfl⟩ := delivers.send _ _ _ _ _ _ send
  obtain ⟨_, before⟩ := path first x
  cases sent with
  | error e =>
    obtain ⟨-, rfl⟩ := pure_eq_ok.mp run
    exact ⟨_, _, _, .unsent before send⟩
  | ok _ =>
    obtain ⟨⟨woken, q⟩, w₂, waitFor, run⟩ := bind_eq_ok.mp run
    obtain ⟨second, rfl⟩ := delivers.waitFor _ _ _ _ _ _ waitFor
    obtain ⟨_, after⟩ := path second { x with pool := x.pool.receiveAll first }
    have last : w' = w₂ := by
      cases woken with
      | error e => exact (pure_eq_ok.mp run).2
      | ok _ => exact (pure_eq_ok.mp run).2
    rw [last]
    exact ⟨_, _, _, .waited before send after waitFor⟩

/-! ## What becomes of the slot -/

/-- What a request answers, and what is left of its slot. -/
inductive Settles (t : Ticket n) (during : List Event) (y : Session n) :
    Ending → Answer Reply → Pool n → Prop where
  | withdrawn {e : Error} {p : Pool n} :
      y.pool.Frees t.slot p → Settles t during y (.unsent e) (.error e) p
  /-- The wait was given up, but the response is there. -/
  | discarded {e : Error} {m : Message} {p : Pool n} :
      y.Answered t during m → y.pool.Frees t.slot p →
        Settles t during y (.waited (.error e)) (.error e) p
  | abandoned {e : Error} {p : Pool n} :
      y.Unanswered t during → y.pool.Forsakes t.slot p →
        Settles t during y (.waited (.error e)) (.error e) p
  | collected {m : Message} {p : Pool n} :
      y.Answered t during m → y.pool.Frees t.slot p →
        Settles t during y (.waited (.ok ())) (Reply.ofMessage m) p
  /-- The caller was woken too early. -/
  | interrupted {p : Pool n} :
      y.Unanswered t during → y.pool.Forsakes t.slot p →
        Settles t during y (.waited (.ok ())) (.error .interrupted) p

namespace Session

variable {y : Session n} {k : Nat} {t : Ticket n} {during : List Event}

/-- A caller that leaves leaves nothing behind, except for a request whose response is to come. -/
theorem Leased.settles (h : y.Leased) (mine : y.tickets k = some t) (unfinished : t.finished = false)
    (slot : (∃ m, y.Answered t during m) ∨ y.Unanswered t during) (ending : Ending) :
    Settles t during y ending (ending.leave t y.pool).1 (ending.leave t y.pool).2 := by
  have held := (h.own k t mine unfinished).2
  cases ending with
  | unsent e => exact .withdrawn (h.listed.frees_cancel t held.ne_free)
  | waited woken =>
    rcases slot with ⟨m, answered⟩ | unanswered
    · have freed := h.listed.frees_of_isDone (i := t.slot) (by simp [answered.there])
      cases woken with
      | error e =>
        refine .discarded answered ?_
        rwa [Ending.leave, Ticket.drop_done unfinished answered.there]
      | ok _ =>
        rw [Ending.leave, Blocking.collect, Ticket.take?_done unfinished answered.there]
        exact .collected answered freed
    · have forsaken := h.listed.forsakes unanswered.waiting
      cases woken with
      | error e =>
        refine .abandoned unanswered ?_
        rwa [Ending.leave, Ticket.drop_waiting unfinished unanswered.waiting]
      | ok _ =>
        rw [Ending.leave, Blocking.collect, Ticket.take?_waiting unfinished unanswered.waiting]
        dsimp only
        rw [Ticket.drop_waiting unfinished unanswered.waiting]
        exact .interrupted unanswered forsaken

/-- A caller that leaves makes calls that may be made. -/
theorem Reached.leave {past : List Event} (reached : y.Reached past) (mine : y.tickets k = some t)
    (unfinished : t.finished = false) (ending : Ending) :
    ∃ after, (y.withTicket (ending.leave t y.pool).2 k none).Reached after := by
  cases ending with
  | unsent e => exact ⟨_, reached.call trivial (.cancel mine unfinished)⟩
  | waited woken =>
    cases woken with
    | error e => exact ⟨_, reached.call trivial (.drop mine)⟩
    | ok _ =>
      rw [Ending.leave, Blocking.collect]
      rcases reached.leased.state_of_awaited mine unfinished with waiting | ⟨result, done⟩
      · rw [Ticket.take?_waiting unfinished waiting]
        exact ⟨_, reached.call trivial (.drop mine)⟩
      · -- The ticket goes after its result was collected.
        have taken := reached.call trivial (.take mine)
        rw [Ticket.take?_done unfinished done] at taken
        have gone := taken.call trivial (.drop (tickets_withTicket_self ..))
        rw [Ticket.drop_finished rfl, withTicket, withTicket, Function.update_idem] at gone
        rw [Ticket.take?_done unfinished done]
        exact ⟨_, gone⟩

end Session

/-- No reply tells its caller that the wait was given up. -/
theorem ofMessage_ne_interrupted (m : Message) : Reply.ofMessage m ≠ .error .interrupted := by
  rw [Reply.ofMessage, Message.responseKind]
  cases Config.ResponseKind.ofWord? m.kind with
  | none =>
    intro h
    cases h
  | some kind => cases kind <;> (intro h; cases h)

namespace Settles

variable {t : Ticket n} {during : List Event} {y : Session n} {ending : Ending}
  {answer : Answer Reply} {p : Pool n}

theorem not_isDone (settles : Settles t during y ending answer p) :
    ¬(p.stateOf t.slot).IsDone := by
  have freed (frees : y.pool.Frees t.slot p) : ¬(p.stateOf t.slot).IsDone := by simp [frees.state]
  have left (forsakes : y.pool.Forsakes t.slot p) : ¬(p.stateOf t.slot).IsDone := by
    simp [forsakes.state]
  cases settles with
  | withdrawn frees => exact freed frees
  | discarded _ frees => exact freed frees
  | abandoned _ forsakes => exact left forsakes
  | collected _ frees => exact freed frees
  | interrupted _ forsakes => exact left forsakes

theorem slot_eq (settles : Settles t during y ending answer p) {i : Fin n} (apart : i ≠ t.slot) :
    p.slots.get i = y.pool.slots.get i := by
  cases settles with
  | withdrawn frees => exact frees.others.slot_eq apart
  | discarded _ frees => exact frees.others.slot_eq apart
  | abandoned _ forsakes => exact forsakes.others.slot_eq apart
  | collected _ frees => exact frees.others.slot_eq apart
  | interrupted _ forsakes => exact forsakes.others.slot_eq apart

/-- A caller that is woken when the response is there has it as its answer. -/
theorem of_isDone (settles : Settles t during y (.waited (.ok ())) answer p)
    (ready : t.isDone y.pool = true) :
    answer ≠ .error .interrupted ∧ y.pool.Frees t.slot p ∧
      ∃ m, y.Answered t during m ∧ answer = Reply.ofMessage m := by
  cases settles with
  | collected answered frees => exact ⟨ofMessage_ne_interrupted _, frees, _, answered, rfl⟩
  | interrupted unanswered _ =>
    rw [Ticket.isDone, unanswered.waiting] at ready
    cases ready

end Settles

namespace Session

variable {x y : Session n} {past : List Event}

/-- The slots that other tickets than that of request `k` wait for are as they were. -/
def Spares (x : Session n) (k : Nat) (p : Pool n) : Prop :=
  ∀ k' t', k' ≠ k → x.tickets k' = some t' → t'.finished = false →
    p.slots.get t'.slot = x.pool.slots.get t'.slot

/-- A request is started: it has a free slot and the next number. No request had the number before,
as long as fewer than 2^32 were started. -/
structure Begins (x : Session n) (past : List Event) (t : Ticket n) (p : Pool n) : Prop where
  started : x.pool.start = (.ok t, p)
  number : t.seq = x.pool.nextSeq
  unused : x.started < UInt32.size → t.seq ∉ numbersIn past
  unfinished : t.finished = false
  free : x.pool.free = t.slot :: p.free
  waiting : p.stateOf t.slot = .waiting
  spares : x.Spares x.started p

theorem Sound.nextSeq_not_mem (sound : x.Sound) (h : Delivered past x)
    (room : x.started < UInt32.size) : x.pool.nextSeq ∉ numbersIn past := by
  rw [h.numbers, sound.next]
  intro mem
  obtain ⟨k, earlier, same⟩ := List.mem_map.mp mem
  have before := List.mem_range.mp earlier
  have equal := congrArg UInt32.toNat same
  rw [UInt32.toNat_ofNat_of_lt' (before.trans room), UInt32.toNat_ofNat_of_lt' room] at equal
  exact absurd equal (Nat.ne_of_lt before)

theorem Reached.begins (reached : x.Reached past) (room : x.pool.free ≠ []) :
    ∃ t p, x.Begins past t p := by
  have leased := reached.leased
  rcases leased.listed.start_cases with ⟨none, -⟩ | ⟨i, free, top, opened⟩
  · exact absurd none room
  · refine ⟨⟨i, x.pool.nextSeq, false⟩, x.pool.opened i free, opened, rfl, ?_, rfl, top, ?_, ?_⟩
    · intro fresh
      exact (reached.sound fresh.le).nextSeq_not_mem (reached.delivered fresh.le) fresh
    · rw [Pool.stateOf_opened, if_pos rfl]
    · intro k' t' _ mine unfinished
      refine (Pool.sameBut_opened top).slot_eq ?_
      rintro rfl
      exact (leased.own k' t' mine unfinished).2.ne_free (leased.listed.stateOf_top top)

end Session

/-! ## The whole request -/

/-- A request is refused: nothing is handed over, and nothing changes. -/
structure Surroundings.Refuses (s : Surroundings (Around W) n) (kind : RequestKind)
    (index value : Int32) (p : Pool n) (w : W) : Prop where
  answer : Blocking.request s kind index value p w = .ok ((.error .resourceExhausted, p), w)
  nothing : ∀ handed, Blocking.request s.noted kind index value p handed w =
    .ok (((.error .resourceExhausted, p), handed), w)

/-- A request hands over one message, under the next number, whatever the surroundings do. -/
structure Surroundings.Hands (s : Surroundings (Around W) n) (kind : RequestKind)
    (index value : Int32) (x : Session n) (t : Ticket n) (p : Pool n) (w : W) : Prop where
  length : (t.message kind index value).length = 420
  number : LittleEndian.decode32 (t.message kind index value) = x.pool.nextSeq
  once : ∀ handed, Blocking.request s.noted kind index value x.pool handed =
    (·, handed ++ [t.message kind index value]) <$> Blocking.request s kind index value x.pool
  /-- Surroundings that only hand in messages treat it in one way or another. -/
  treated : s.Delivers → ∀ left w', Blocking.request s kind index value x.pool w = .ok (left, w') →
    ∃ ending during y, s.Treats x.started t (t.message kind index value) (x.withRequest p t) w
      ending during y w'

/-- What is left of request `k` when its caller has gone. -/
structure Leaves (k : Nat) (t : Ticket n) (during : List Event) (y : Session n) (ending : Ending)
    (answer : Answer Reply) (q : Pool n) : Prop where
  settles : Settles t during y ending answer q
  /-- A caller that is woken when the response is there has it as its answer. -/
  answered : ending = .waited (.ok ()) → t.isDone y.pool = true →
    answer ≠ .error .interrupted ∧ y.pool.Frees t.slot q ∧
      ∃ m, y.Answered t during m ∧ answer = Reply.ofMessage m
  noResult : ¬(q.stateOf t.slot).IsDone
  spares : y.Spares k q
  /-- The pool was reached by calls again. -/
  reached : ∃ after, (y.withTicket q k none).Reached after

theorem Surroundings.refuses (s : Surroundings (Around W) n) (kind : RequestKind)
    (index value : Int32) {p : Pool n} (none : p.free = []) (w : W) :
    s.Refuses kind index value p w := by
  have refused : p.start = (.error .resourceExhausted, p) := by
    rw [Pool.start, none]
  have answered : Blocking.request s kind index value p = pure (.error .resourceExhausted, p) := by
    rw [Blocking.request_eq, refused]
  constructor
  · rw [answered]
    rfl
  · intro handed
    rw [Blocking.request_noted, answered, refused, map_pure, List.append_nil]
    rfl

theorem Session.Begins.hands {x : Session n} {past : List Event} {t : Ticket n} {p : Pool n}
    (begins : x.Begins past t p) (s : Surroundings (Around W) n) (kind : RequestKind)
    (index value : Int32) (w : W) : s.Hands kind index value x t p w := by
  refine ⟨Message.length_encode _, ?number, ?once, ?treated⟩
  case number =>
    rw [Ticket.message, Message.decode32_encode]
    exact begins.number
  case once =>
    intro handed
    rw [Blocking.request_noted, begins.started]
  case treated =>
    intro delivers left w' run
    exact delivers.treats (x := x.withRequest p t) x.started begins.started run

/-- However a request is treated that was started, its caller leaves nothing behind but what is told
by its end. -/
theorem Session.Begins.leaves {x y : Session n} {past during : List Event} {t : Ticket n} {p : Pool n}
    (begins : x.Begins past t p) (reached : x.Reached past) {s : Surroundings (Around W) n}
    {bytes : List UInt8} {w w' : W} {ending : Ending}
    (treats : s.Treats x.started t bytes (x.withRequest p t) w ending during y w') :
    Leaves x.started t during y ending (ending.leave t y.pool).1 (ending.leave t y.pool).2 := by
  have step := Session.Step.started begins.started
  have path := treats.meanwhile
  have begun : (x.withRequest p t).Reached (past ++ [(.start, .started t.seq)]) :=
    reached.call trivial step
  have reached' := begun.extend path
  have mine := Session.tickets_withRequest_self x p t
  have still := (path.waits begun.leased mine begins.unfinished begins.waiting).1
  have slot := reached.answered_or_not step mine begins.unfinished begins.waiting path
  have settles := reached'.leased.settles still begins.unfinished slot ending
  refine {
    settles, answered := ?answered, noResult := settles.not_isDone, spares := ?spares
    reached := reached'.leave still begins.unfinished ending }
  case answered =>
    rintro rfl ready
    exact settles.of_isDone ready
  case spares =>
    intro k' t' apart other unfinished
    exact settles.slot_eq
      (reached'.leased.alone _ t k' t' still begins.unfinished other unfinished apart)

/-- A request without a free slot is refused, and nothing is sent or changed. Any other hands one
message over, under the next number, whatever the surroundings do. They may use the pool and take in
messages meanwhile, which is one way or another to treat the request (`Treats`). It settles with the
answer that belongs to its end (`Settles`), its slot has no result in it, the slots of all other
tickets are as the surroundings left them, and what is left was reached by calls again. -/
theorem request_accounts_for_its_slot {past : List Event} {x : Session n} (reached : x.Reached past)
    (s : Surroundings (Around W) n) (kind : RequestKind) (index value : Int32) (w : W) :
    (x.pool.free = [] → s.Refuses kind index value x.pool w) ∧
      (x.pool.free ≠ [] → ∃ t p, x.Begins past t p ∧ s.Hands kind index value x t p w ∧
        ∀ ending during y w',
          s.Treats x.started t (t.message kind index value) (x.withRequest p t) w
              ending during y w' →
            ∃ answer q, Blocking.request s kind index value x.pool w = .ok ((answer, q), w') ∧
              Leaves x.started t during y ending answer q) := by
  constructor
  · intro none
    exact s.refuses kind index value none w
  · intro room
    obtain ⟨t, p, begins⟩ := reached.begins room
    refine ⟨t, p, begins, begins.hands s kind index value w, ?_⟩
    intro ending during y w' treats
    exact ⟨_, _, Blocking.request_of_treats begins.started treats, begins.leaves reached treats⟩

/-- Surroundings in which the value 5 is answered during the wait. -/
def answering : Surroundings (Around Unit) 2 where
  send _ p := pure (.ok (), p)
  waitFor t p := pure (.ok (), (p.complete (.response t.seq .value 0 5)).2)

theorem request_accounts_for_its_slot_of_answering :
    ∃ p q : Pool 2, (∃ i, p.Frees i q) ∧
      Blocking.request answering .read 0 0 {} () =
        .ok ((.ok ⟨.value, 5, Reply.numberText 5⟩, q), ()) := by
  have reached : ({} : Session 2).Reached [] := .nil
  obtain ⟨-, settled⟩ := request_accounts_for_its_slot reached answering .read 0 0 ()
  obtain ⟨t, p, begins, -, settled⟩ := settled (by decide)
  have path : (({} : Session 2).withRequest p t).Meanwhile 0 _ _ :=
    .call .nil id (.complete (.response t.seq .value 0 5))
  obtain ⟨answer, q, run, leaves⟩ := settled _ _ _ _ (.waited .nil rfl path rfl)
  have few : 1 ≤ UInt32.size := by decide
  have came (r : Report) (m : Message) (h : m.seq = t.seq) :
      messagesWith t.seq [(.complete m, r)] = [m] := by
    rw [messagesWith, List.filterMap_cons, messageWith, if_pos h]
    rfl
  cases leaves.settles with
  | collected answered frees =>
    have first := answered.first few
    rw [List.nil_append, List.nil_append, came _ _ rfl] at first
    cases first
    exact ⟨_, q, ⟨_, frees⟩, run⟩
  | interrupted unanswered _ =>
    have none := unanswered.none few
    rw [List.nil_append, List.nil_append, came _ _ rfl] at none
    cases none

end InterCore.Client
