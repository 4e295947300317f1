import InterCore.Proofs.Client.Session

/-!
# Every request gets its own response

What a ticket gives is told from the record of the run alone: it is the first response that came
under the number of the request after the request was started (`responseTo`), and it is given once.
Which slot the request has, what else was answered, withdrawn or given up, and which responses came
late or twice makes no difference.
-/

namespace InterCore.Client

open InterCore.Config (Message Reply)

variable {n : Nat}

/-! ## What the record of a run tells -/

/-- The sequence number of the request that an event starts. -/
def numberOf : Event → Option UInt32
  | (.start, .started seq) => some seq
  | _ => none

/-- The message that comes in with an event, if it has the number. -/
def messageWith (seq : UInt32) : Event → Option Message
  | (.complete m, _) => if m.seq = seq then some m else none
  | _ => none

/-- What an event collects for request `k`. -/
def resultOf (k : Nat) : Event → Option (Answer Reply)
  | (.take k', .taken result) => if k' = k then result else none
  | _ => none

/-- The sequence numbers of the requests that were started, in order. -/
def numbersIn (past : List Event) : List UInt32 :=
  past.filterMap numberOf

/-- What was collected for request `k`, in order. -/
def resultsOf (k : Nat) (past : List Event) : List (Answer Reply) :=
  past.filterMap (resultOf k)

/-- The response to request `k`: the first message with the number of the request that came in after
the request was started. -/
def responseTo : Nat → List Event → Option Message
  | _, [] => none
  | 0, e :: rest =>
    match numberOf e with
    | some seq => rest.findSome? (messageWith seq)
    | none => responseTo 0 rest
  | k + 1, e :: rest =>
    match numberOf e with
    | some _ => responseTo k rest
    | none => responseTo (k + 1) rest

theorem resultsOf_append (k : Nat) (past : List Event) (e : Event) :
    resultsOf k (past ++ [e]) = resultsOf k past ++ (resultOf k e).toList := by
  rw [resultsOf, List.filterMap_append, List.filterMap_cons]
  cases resultOf k e <;> rfl

theorem numbersIn_append (past : List Event) (e : Event) :
    numbersIn (past ++ [e]) = numbersIn past ++ (numberOf e).toList := by
  rw [numbersIn, List.filterMap_append, List.filterMap_cons]
  cases numberOf e <;> rfl

/-- An event answers a request that was started before, if none did yet. -/
theorem responseTo_append (k : Nat) (past : List Event) (e : Event) :
    responseTo k (past ++ [e]) =
      (responseTo k past).or ((numbersIn past)[k]?.bind fun seq => messageWith seq e) := by
  induction past generalizing k with
  | nil =>
    rw [List.nil_append]
    cases k <;> rw [responseTo, responseTo] <;> cases numberOf e <;> rfl
  | cons first rest ih =>
    rw [List.cons_append, numbersIn, List.filterMap_cons]
    cases k with
    | zero =>
      rw [responseTo, responseTo]
      cases numberOf first with
      | none => exact ih 0
      | some seq =>
        show (rest ++ [e]).findSome? (messageWith seq) = _
        rw [List.findSome?_append, List.findSome?_singleton]
        rfl
    | succ k =>
      rw [responseTo, responseTo]
      cases numberOf first with
      | none => exact ih (k + 1)
      | some seq => exact ih k

/-- An event that collects nothing for a request leaves what was collected for it. -/
theorem resultsOf_of_quiet {k : Nat} (past : List Event) {e : Event} (quiet : resultOf k e = none) :
    resultsOf k (past ++ [e]) = resultsOf k past := by
  rw [resultsOf_append, quiet]
  exact List.append_nil _

theorem numbersIn_of_none (past : List Event) {e : Event} (none : numberOf e = none) :
    numbersIn (past ++ [e]) = numbersIn past := by
  rw [numbersIn_append, none]
  exact List.append_nil _

/-- An event that brings no message answers no request. -/
theorem responseTo_of_silent (k : Nat) (past : List Event) {e : Event}
    (silent : ∀ seq, messageWith seq e = none) : responseTo k (past ++ [e]) = responseTo k past := by
  rw [responseTo_append]
  cases (numbersIn past)[k]? with
  | none => exact Option.or_none
  | some seq =>
    rw [Option.bind_some, silent]
    exact Option.or_none

/-- A request that was not started has no response. -/
theorem responseTo_of_length_le {k : Nat} {past : List Event} (h : (numbersIn past).length ≤ k) :
    responseTo k past = none := by
  induction past generalizing k with
  | nil => cases k <;> rw [responseTo]
  | cons first rest ih =>
    rw [numbersIn, List.filterMap_cons] at h
    cases number : numberOf first with
    | none =>
      rw [number] at h
      cases k with
      | zero => rw [responseTo, number]; exact ih h
      | succ k => rw [responseTo, number]; exact ih h
    | some seq =>
      rw [number] at h
      cases k with
      | zero => exact absurd h (Nat.not_succ_le_zero _)
      | succ k => rw [responseTo, number]; exact ih (Nat.le_of_succ_le_succ h)

namespace Session

/-- The session agrees with what the record of the run tells of its tickets. -/
structure Delivered (past : List Event) (s : Session n) : Prop where
  numbers : numbersIn past = (List.range s.started).map UInt32.ofNat
  unborn : ∀ k, s.started ≤ k → resultsOf k past = []
  results : ∀ k, resultsOf k past = [] ∨
    ∃ m, responseTo k past = some m ∧ resultsOf k past = [Reply.ofMessage m]
  collected : ∀ k t, s.tickets k = some t → t.finished = true → resultsOf k past ≠ []
  awaited : ∀ k t, s.tickets k = some t → t.finished = false →
    resultsOf k past = [] ∧
      (responseTo k past).map Reply.ofMessage = (s.pool.stateOf t.slot).result?

namespace Delivered

variable {past : List Event} {s s' : Session n} {c : Call} {r : Report}

theorem number_of_ticket (d : Delivered past s) (sound : s.Sound) {k : Nat} {t : Ticket n}
    (mine : s.tickets k = some t) : (numbersIn past)[k]? = some t.seq := by
  rw [d.numbers, List.getElem?_map, List.getElem?_range (sound.numbered k t mine).1,
    sound.seq_eq mine]
  rfl

/-- An event answers the request of a ticket if it brings the ticket's number and is the first that
does so. -/
theorem responseTo_snoc (d : Delivered past s) (sound : s.Sound) {k : Nat} {t : Ticket n}
    (mine : s.tickets k = some t) (e : Event) :
    responseTo k (past ++ [e]) = (responseTo k past).or (messageWith t.seq e) := by
  rw [responseTo_append, d.number_of_ticket sound mine]
  rfl

/-- Nothing is started or collected. -/
theorem kept (d : Delivered past s) (number : numberOf (c, r) = none)
    (quiet : ∀ k, resultOf k (c, r) = none) (started : s'.started = s.started)
    (tickets : ∀ k t, s'.tickets k = some t → s.tickets k = some t)
    (awaited : ∀ k t, s'.tickets k = some t → t.finished = false →
      (responseTo k (past ++ [(c, r)])).map Reply.ofMessage =
        (s'.pool.stateOf t.slot).result?) :
    Delivered (past ++ [(c, r)]) s' := by
  have same (k : Nat) : resultsOf k (past ++ [(c, r)]) = resultsOf k past :=
    resultsOf_of_quiet past (quiet k)
  refine {
    numbers := ?numbers, unborn := ?unborn, results := ?results, collected := ?collected
    awaited := ?awaited }
  case numbers =>
    rw [numbersIn_of_none past number, started, ← d.numbers]
  case unborn =>
    intro k unborn
    rw [same]
    rw [started] at unborn
    exact d.unborn k unborn
  case results =>
    intro k
    rw [same]
    rcases d.results k with none | ⟨m, response, result⟩
    · exact .inl none
    · refine .inr ⟨m, ?_, result⟩
      rw [responseTo_append, response]
      rfl
  case collected =>
    intro k t mine finished
    rw [same]
    exact d.collected k t (tickets k t mine) finished
  case awaited =>
    intro k t mine unfinished
    rw [same]
    exact ⟨(d.awaited k t (tickets k t mine) unfinished).1, awaited k t mine unfinished⟩

/-- No message comes in either, and the slots of the tickets stay as they are. -/
theorem silent (d : Delivered past s) (sound : s.Sound) (number : numberOf (c, r) = none)
    (quiet : ∀ k, resultOf k (c, r) = none) (silent : ∀ seq, messageWith seq (c, r) = none)
    (started : s'.started = s.started)
    (tickets : ∀ k t, s'.tickets k = some t → s.tickets k = some t)
    (states : ∀ k t, s'.tickets k = some t → t.finished = false →
      s'.pool.stateOf t.slot = s.pool.stateOf t.slot) :
    Delivered (past ++ [(c, r)]) s' := by
  refine d.kept number quiet started tickets ?_
  intro k t mine unfinished
  rw [d.responseTo_snoc sound (tickets k t mine), silent, Option.or_none,
    states k t mine unfinished]
  exact (d.awaited k t (tickets k t mine) unfinished).2

/-- A ticket is given up, and with it at most its own slot. -/
theorem givenUp (d : Delivered past s) (sound : s.Sound) {pool : Pool n} {k : Nat} {t : Ticket n}
    (number : numberOf (c, r) = none) (quiet : ∀ k, resultOf k (c, r) = none)
    (silent : ∀ seq, messageWith seq (c, r) = none) (mine : s.tickets k = some t)
    (others : ∀ j, (t.finished = false → j ≠ t.slot) → pool.stateOf j = s.pool.stateOf j) :
    Delivered (past ++ [(c, r)]) (s.withTicket pool k none) := by
  have before (k' : Nat) (t' : Ticket n)
      (other : (s.withTicket pool k none).tickets k' = some t') :
      k' ≠ k ∧ s.tickets k' = some t' := by
    rcases of_tickets_withTicket other with ⟨-, ⟨⟩⟩ | others
    exact others
  refine d.silent sound number quiet silent rfl (fun k' t' other => (before k' t' other).2) ?_
  intro k' t' other unfinished'
  obtain ⟨apart, was⟩ := before k' t' other
  apply others t'.slot
  intro unfinished
  exact sound.slot_ne mine unfinished was unfinished' apart

/-- A message makes no difference to a ticket whose slot it does not find. -/
theorem unheard (d : Delivered past s) (sound : s.Sound) {m : Message} {k : Nat} {t : Ticket n}
    (mine : s.tickets k = some t) (unfinished : t.finished = false)
    (notFound : (m.seq, t.slot) ∉ s.pool.pending) :
    (responseTo k (past ++ [(.complete m, r)])).map Reply.ofMessage =
      (s.pool.stateOf t.slot).result? := by
  have told := (d.awaited k t mine unfinished).2
  rw [d.responseTo_snoc sound mine]
  rcases sound.state_of_awaited mine unfinished with waiting | ⟨result, done⟩
  · have pending : (s.pool.stateOf t.slot).IsPending := by simp [waiting]
    have other : m.seq ≠ t.seq := by
      rw [← (sound.awaited k t mine unfinished).1]
      intro same
      exact notFound ((sound.listed.pending _ _).mpr ⟨same, pending⟩)
    rw [messageWith, if_neg other, Option.or_none]
    exact told
  · rw [done] at told ⊢
    -- A response came before, and only the first one counts.
    obtain ⟨m', response, -⟩ := Option.map_eq_some_iff.mp told
    rw [response] at told ⊢
    exact told

/-- The one request that is pending under the number of a message is answered by it. -/
theorem answered (d : Delivered past s) (sound : s.Sound) {m : Message} {i : Fin n}
    {rest : List (UInt32 × Fin n)} (mem : (m.seq, i) ∈ s.pool.pending)
    (waiting : s.pool.stateOf i = .waiting) :
    Delivered (past ++ [(.complete m, r)])
      { s with pool := (s.pool.withPending rest).setState i (.done (Reply.ofMessage m)) } := by
  have seq := ((sound.listed.pending _ _).mp mem).1
  refine d.kept rfl (fun _ => rfl) rfl (fun _ _ mine => mine) ?_
  intro k t mine unfinished
  show _ = (((s.pool.withPending rest).setState i (.done (Reply.ofMessage m))).stateOf
    t.slot).result?
  have own := (sound.awaited k t mine unfinished).1
  by_cases here : t.slot = i
  · have told := (d.awaited k t mine unfinished).2
    rw [here, waiting] at told
    rw [d.responseTo_snoc sound mine, Option.map_eq_none_iff.mp told, messageWith, here,
      Pool.stateOf_setState_self, if_pos (by rw [seq, ← own, here])]
    rfl
  · rw [Pool.stateOf_setState_of_ne _ _ here]
    apply d.unheard sound mine unfinished
    intro mem'
    apply here
    obtain ⟨seq', pending⟩ := (sound.listed.pending _ _).mp mem'
    exact sound.distinct _ _ pending.ne_free (by simp [waiting]) (seq'.symm.trans seq)

/-- A response that comes too late reaches no ticket. -/
theorem late (d : Delivered past s) (sound : s.Sound) {m : Message} {i : Fin n}
    {rest : List (UInt32 × Fin n)} (mem : (m.seq, i) ∈ s.pool.pending)
    (abandoned : s.pool.stateOf i = .abandoned) :
    Delivered (past ++ [(.complete m, r)])
      { s with pool := (s.pool.withPending rest).recycle i } := by
  have seq := ((sound.listed.pending _ _).mp mem).1
  refine d.kept rfl (fun _ => rfl) rfl (fun _ _ mine => mine) ?_
  intro k t mine unfinished
  show _ = (((s.pool.withPending rest).recycle i).stateOf t.slot).result?
  -- No ticket waits for an abandoned slot.
  have elsewhere : t.slot ≠ i := by
    rintro rfl
    have held := (sound.awaited k t mine unfinished).2
    rw [abandoned] at held
    exact held
  rw [Pool.stateOf_recycle, if_neg elsewhere]
  apply d.unheard sound mine unfinished
  intro mem'
  apply elsewhere
  obtain ⟨seq', pending⟩ := (sound.listed.pending _ _).mp mem'
  exact sound.distinct _ _ pending.ne_free (by simp [abandoned]) (seq'.symm.trans seq)

/-- A new request has no response yet, whatever came under its number before. -/
theorem started (d : Delivered past s) (sound : s.Sound) {i : Fin n} {free : List (Fin n)}
    (top : s.pool.free = i :: free) :
    Delivered (past ++ [(.start, .started s.pool.nextSeq)])
      (s.withRequest (s.pool.opened i free) ⟨i, s.pool.nextSeq, false⟩) := by
  have wasFree := sound.listed.stateOf_top top
  have results (k : Nat) :
      resultsOf k (past ++ [(.start, .started s.pool.nextSeq)]) = resultsOf k past :=
    resultsOf_of_quiet past rfl
  have response (k : Nat) :
      responseTo k (past ++ [(.start, .started s.pool.nextSeq)]) = responseTo k past :=
    responseTo_of_silent k past fun _ => rfl
  have unanswered : responseTo s.started past = none := by
    refine responseTo_of_length_le ?_
    rw [d.numbers, List.length_map, List.length_range]
  refine {
    numbers := ?numbers, unborn := ?unborn, results := ?results, collected := ?collected
    awaited := ?awaited }
  case numbers =>
    rw [numbersIn_append, d.numbers, numberOf, sound.next]
    show _ = (List.range (s.started + 1)).map UInt32.ofNat
    rw [List.range_succ, List.map_append]
    rfl
  case unborn =>
    intro k unborn
    rw [results]
    exact d.unborn k (Nat.le_of_succ_le unborn)
  case results =>
    intro k
    rw [results, response]
    exact d.results k
  case collected =>
    intro k t mine finished
    rw [results]
    rcases of_tickets_withRequest mine with ⟨-, rfl⟩ | ⟨-, old⟩
    · exact absurd finished Bool.false_ne_true
    · exact d.collected k t old finished
  case awaited =>
    intro k t mine unfinished
    rw [results, response]
    show _ ∧ _ = ((s.pool.opened i free).stateOf t.slot).result?
    rw [Pool.stateOf_opened]
    rcases of_tickets_withRequest mine with ⟨rfl, rfl⟩ | ⟨-, old⟩
    · rw [if_pos rfl, unanswered]
      exact ⟨d.unborn _ (Nat.le_refl _), rfl⟩
    · have elsewhere : t.slot ≠ i := by
        rintro rfl
        exact (sound.awaited k t old unfinished).2.ne_free wasFree
      rw [if_neg elsewhere]
      exact d.awaited k t old unfinished

/-- A result is collected once, and it is that of the response. -/
theorem taken (d : Delivered past s) (sound : s.Sound) {k : Nat} {t : Ticket n}
    {result : Answer Reply} (mine : s.tickets k = some t) (unfinished : t.finished = false)
    (done : s.pool.stateOf t.slot = .done result) :
    Delivered (past ++ [(.take k, .taken (some result))])
      (s.withTicket (s.pool.recycle t.slot) k (some { t with finished := true })) := by
  obtain ⟨fresh, told⟩ := d.awaited k t mine unfinished
  rw [done] at told
  obtain ⟨m, response, rfl⟩ := Option.map_eq_some_iff.mp told
  have own : resultsOf k (past ++ [(.take k, .taken (some (Reply.ofMessage m)))]) =
      [Reply.ofMessage m] := by
    rw [resultsOf_append, fresh, resultOf, if_pos rfl]
    rfl
  have others (k' : Nat) (apart : k' ≠ k) :
      resultsOf k' (past ++ [(.take k, .taken (some (Reply.ofMessage m)))]) =
        resultsOf k' past :=
    resultsOf_of_quiet past (if_neg (Ne.symm apart))
  have responses (k' : Nat) :
      responseTo k' (past ++ [(.take k, .taken (some (Reply.ofMessage m)))]) =
        responseTo k' past :=
    responseTo_of_silent k' past fun _ => rfl
  refine {
    numbers := ?numbers, unborn := ?unborn, results := ?results, collected := ?collected
    awaited := ?awaited }
  case numbers =>
    exact (numbersIn_of_none past rfl).trans d.numbers
  case unborn =>
    intro k' unborn
    have before := (sound.numbered k t mine).1
    rw [others k' (Nat.ne_of_gt (Nat.lt_of_lt_of_le before unborn))]
    exact d.unborn k' unborn
  case results =>
    intro k'
    rw [responses]
    by_cases same : k' = k
    · rw [same]
      exact .inr ⟨m, response, own⟩
    · rw [others k' same]
      exact d.results k'
  case collected =>
    intro k' t' other finished
    rcases of_tickets_withTicket other with ⟨rfl, -⟩ | ⟨apart, other⟩
    · rw [own]
      exact List.cons_ne_nil _ _
    · rw [others k' apart]
      exact d.collected k' t' other finished
  case awaited =>
    intro k' t' other unfinished'
    rcases of_tickets_withTicket other with ⟨-, ⟨⟩⟩ | ⟨apart, other⟩
    · cases unfinished'
    · rw [others k' apart, responses]
      show _ ∧ _ = ((s.pool.recycle t.slot).stateOf t'.slot).result?
      rw [Pool.stateOf_recycle,
        if_neg (sound.slot_ne mine unfinished other unfinished' apart)]
      exact d.awaited k' t' other unfinished'

/-- What a call does to a sound session agrees with what it adds to the record. -/
theorem effect (d : Delivered past s) (sound : s.Sound) (effect : s.Effect c r s') :
    Delivered (past ++ [(c, r)]) s' := by
  cases effect with
  | refused _ =>
    exact d.silent sound rfl (fun _ => rfl) (fun _ => rfl) rfl (fun _ _ mine => mine)
      fun _ _ _ _ => rfl
  | seen _ =>
    exact d.silent sound rfl (fun _ => rfl) (fun _ => rfl) rfl (fun _ _ mine => mine)
      fun _ _ _ _ => rfl
  | @collectedBefore k t _ _ =>
    exact d.silent sound rfl (fun k' => ite_self _) (fun _ => rfl) rfl (fun _ _ mine => mine)
      fun _ _ _ _ => rfl
  | @notYet k t _ _ _ =>
    exact d.silent sound rfl (fun k' => ite_self _) (fun _ => rfl) rfl (fun _ _ mine => mine)
      fun _ _ _ _ => rfl
  | @unknown m notFound =>
    refine d.kept rfl (fun _ => rfl) rfl (fun _ _ mine => mine) ?_
    intro k t mine unfinished
    exact d.unheard sound mine unfinished (notFound t.slot)
  | started top => exact d.started sound top
  | answered mem waiting _ => exact d.answered sound mem waiting
  | late mem abandoned _ => exact d.late sound mem abandoned
  | collected mine unfinished done => exact d.taken sound mine unfinished done
  | withdrawn mine unfinished _ =>
    apply d.givenUp sound rfl (fun _ => rfl) (fun _ => rfl) mine
    intro j apart
    rw [Pool.stateOf_recycle, if_neg (apart unfinished), Pool.stateOf_withPending]
  | forgotten mine _ =>
    exact d.givenUp sound rfl (fun _ => rfl) (fun _ => rfl) mine fun _ _ => rfl
  | abandoned mine unfinished _ =>
    apply d.givenUp sound rfl (fun _ => rfl) (fun _ => rfl) mine
    intro j apart
    exact Pool.stateOf_setState_of_ne _ _ (apart unfinished)
  | discarded mine unfinished _ =>
    apply d.givenUp sound rfl (fun _ => rfl) (fun _ => rfl) mine
    intro j apart
    rw [Pool.stateOf_recycle, if_neg (apart unfinished)]

theorem start (n : Nat) : Delivered [] ({} : Session n) := by
  refine ⟨rfl, fun _ _ => rfl, fun _ => .inl rfl, ?_, ?_⟩
  · intro k t mine
    cases mine
  · intro k t mine
    cases mine

end Delivered

theorem Run.delivered {s : Session n} {past : List Event} (run : Run past s)
    (few : s.started ≤ UInt32.size) : Delivered past s := by
  induction run with
  | start => exact Delivered.start n
  | call before step ih =>
    have earlier := step.started_le.trans few
    have sound := before.sound earlier
    exact (ih earlier).effect sound (sound.effect step)

end Session

/-- Whatever was called before, a ticket gives the result of the first response to its own request,
as soon as that has come in, and only once; a message whose number is not pending is refused and
changes nothing, and every other is taken in. -/
theorem each_request_its_own_response {past : List Event} {s : Session n}
    (run : Session.Run past s) (few : s.started ≤ UInt32.size) :
    numbersIn past = (List.range s.started).map UInt32.ofNat ∧
      (∀ k, resultsOf k past = [] ∨
        ∃ m, responseTo k past = some m ∧ resultsOf k past = [Reply.ofMessage m]) ∧
      (∀ k t, s.tickets k = some t →
        (numbersIn past)[k]? = some t.seq ∧
          (t.take? s.pool).1 =
            if resultsOf k past = [] then (responseTo k past).map Reply.ofMessage else none) ∧
      ∀ m, if m.seq ∈ s.pool.pending.map Prod.fst then (s.pool.complete m).1 = .ok ()
        else s.pool.complete m = (.error .unknownSequence, s.pool) := by
  have sound := run.sound few
  have delivered := run.delivered few
  refine ⟨delivered.numbers, delivered.results, ?_, ?_⟩
  · intro k t mine
    refine ⟨delivered.number_of_ticket sound mine, ?_⟩
    rw [sound.take?_eq mine]
    cases finished : t.finished with
    | true => rw [if_pos rfl, if_neg (delivered.collected k t mine finished)]
    | false =>
      obtain ⟨fresh, told⟩ := delivered.awaited k t mine finished
      rw [if_neg Bool.false_ne_true, if_pos fresh, told]
  · intro m
    rcases sound.listed.complete_cases m with ⟨unknown, refused⟩ |
      ⟨i, rest, mem, -, ⟨-, settled⟩ | ⟨-, settled⟩⟩
    · have notPending : m.seq ∉ s.pool.pending.map Prod.fst := by
        intro mem
        obtain ⟨⟨seq, i⟩, mem, rfl⟩ := List.mem_map.mp mem
        exact unknown i mem
      rw [if_neg notPending]
      exact refused
    · rw [if_pos (List.mem_map_of_mem mem), settled]
    · rw [if_pos (List.mem_map_of_mem mem), settled]

/-- A request that takes the slot of one given up, after a response to that came in late. -/
theorem each_request_its_own_response_after_late :
    ∃ (s : Session 1) (t : Ticket 1),
      Session.Run [(.start, .started 0), (.drop 0, .done),
          (.complete (.response 0 .ok 0 5), .completed (.ok ())), (.start, .started 1),
          (.complete (.response 1 .ok 0 7), .completed (.ok ()))] s ∧
        s.started ≤ UInt32.size ∧ s.tickets 1 = some t ∧
        (t.take? s.pool).1 = some (Reply.ofMessage (.response 1 .ok 0 7)) := by
  have run₁ := (Session.Run.start (n := 1)).call (.started rfl)
  have run₂ := run₁.call (.drop (k := 0) rfl)
  have run₃ := run₂.call (.complete (.response 0 .ok 0 5))
  have run₄ := run₃.call (.started rfl)
  have run₅ := run₄.call (.complete (.response 1 .ok 0 7))
  have few : 2 ≤ UInt32.size := by decide
  have told := ((each_request_its_own_response run₅ few).2.2.1 1 _ rfl).2
  exact ⟨_, _, run₅, few, rfl, told⟩

end InterCore.Client
