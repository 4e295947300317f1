import InterCore.Proofs.Client.Exchange

/-!
# Every result is that of one request after another

The bookkeeping of an exchange is its `Ledger`: which requests the server took, which are still
under way, and which responses are. The sequence numbers that are pending in the client's pool are
at every moment those of the requests and responses under way. So a response always finds its own
request, and no other.
-/

namespace InterCore.Client

open InterCore.Config (Message Reply Request answersTo variablesAfter answersTo_append
  variablesAfter_append map_snd_answersTo)

variable {n : Nat}

/-- An entry of a list under a map, with what stands before and after it. -/
theorem split_map {α β : Type} {f : α → β} {l : List α} {before after : List β} {b : β}
    (h : l.map f = before ++ b :: after) :
    ∃ l₁ a l₂, l = l₁ ++ a :: l₂ ∧ l₁.map f = before ∧ f a = b ∧ l₂.map f = after := by
  obtain ⟨l₁, tail, rfl, before, tailed⟩ := List.map_eq_append_iff.mp h
  obtain ⟨a, l₂, rfl, here, after⟩ := List.map_eq_cons_iff.mp tailed
  exact ⟨l₁, a, l₂, rfl, before, here, after⟩

namespace Exchange

/-- How the requests of an exchange are accounted for: the server took those of `served`, those of
`waiting` are on the way to it, and the responses of `underway` are on the way back. -/
structure Ledger (vars : List Variable) (past : List (Act × Report)) (x : Exchange n)
    (served waiting : List (Request × Nat)) (underway : List Message) : Prop where
  number : (askedIn past).length = x.session.started
  conserved : (served ++ waiting).Perm (askedIn past).zipIdx
  taken : takenIn past = served.map sentAs
  requests : x.requests = waiting.map sentAs
  responses : x.responses = underway.map Message.encode
  outstanding : (x.session.pool.pending.map Prod.fst).Perm
    (waiting.map (fun request => UInt32.ofNat request.2) ++ underway.map (·.seq))
  table : x.table.vars = variablesAfter vars served
  owed : ∀ m ∈ underway, ∃ k, m.seq = UInt32.ofNat k ∧
    (Reply.ofMessage m, k) ∈ answersTo vars served
  answered : ∀ k m, responseTo k (callsIn past) = some m →
    (Reply.ofMessage m, k) ∈ answersTo vars served
  accepted : ∀ bytes answer, (.deliver bytes, .completed answer) ∈ past → answer = .ok ()

namespace Ledger

variable {vars : List Variable} {past : List (Act × Report)} {x x' : Exchange n}
  {served waiting : List (Request × Nat)} {underway : List Message} {a : Act} {r : Report}

theorem start (t : VarTable) : Ledger t.vars [] ({ table := t } : Exchange n) [] [] [] where
  number := rfl
  conserved := .nil
  taken := rfl
  requests := rfl
  responses := rfl
  outstanding := .nil
  table := rfl
  owed m mem := by cases mem
  answered k m response := by
    rw [callsIn, List.filterMap_nil, responseTo_of_length_le (Nat.zero_le k)] at response
    cases response
  accepted bytes answer mem := by cases mem

theorem lt_of_numbered (l : Ledger vars past x served waiting underway) {k : Nat}
    (numbered : k ∈ served.map Prod.snd) : k < x.session.started := by
  obtain ⟨request, mem, rfl⟩ := List.mem_map.mp numbered
  have mem' := l.conserved.subset (List.mem_append_left waiting mem)
  rw [← l.number]
  exact List.snd_lt_of_mem_zipIdx mem'

theorem lt_of_answered (l : Ledger vars past x served waiting underway) {k : Nat}
    {result : Answer Reply} (mem : (result, k) ∈ answersTo vars served) :
    k < x.session.started := by
  apply l.lt_of_numbered
  rw [← map_snd_answersTo vars served]
  exact List.mem_map_of_mem mem

theorem accepted_append (l : Ledger vars past x served waiting underway) {e : Act × Report}
    (accepted : ∀ bytes answer, e = (.deliver bytes, .completed answer) → answer = .ok ()) :
    ∀ bytes answer, (.deliver bytes, .completed answer) ∈ past ++ [e] → answer = .ok () := by
  intro bytes answer mem
  rcases List.mem_append.mp mem with old | new
  · exact l.accepted bytes answer old
  · exact accepted bytes answer (List.mem_singleton.mp new).symm

/-- Nothing is sent or arrives, and the pending list stays as it is. -/
theorem kept (l : Ledger vars past x served waiting underway) {session : Session n}
    (asks : requestOf (a, r) = none) (takes : takenOf (a, r) = none)
    (delivers : ∀ bytes, a ≠ .deliver bytes)
    (silent : ∀ call seq, callOf (a, r) = some call → messageWith seq call = none)
    (started : session.started = x.session.started)
    (pending : session.pool.pending = x.session.pool.pending) :
    Ledger vars (past ++ [(a, r)]) { x with session } served waiting underway where
  number := by rw [askedIn_kept asks, l.number, started]
  conserved := by
    rw [askedIn_kept asks]
    exact l.conserved
  taken := by rw [takenIn_kept takes, l.taken]
  requests := l.requests
  responses := l.responses
  outstanding := pending.symm ▸ l.outstanding
  table := l.table
  owed := l.owed
  answered k m response := by
    rw [responseTo_callsIn_append silent] at response
    exact l.answered k m response
  accepted := by
    refine l.accepted_append ?_
    rintro bytes answer ⟨⟩
    exact absurd rfl (delivers bytes)

theorem issue (l : Ledger vars past x served waiting underway) (sound : x.session.Sound)
    (q : Request) (i : Fin n) (free : List (Fin n)) :
    Ledger vars (past ++ [(.issue q, .started x.session.pool.nextSeq)])
      { x with
        session := x.session.withRequest (x.session.pool.opened i free)
          ⟨i, x.session.pool.nextSeq, false⟩
        requests := x.requests ++ [(q.toMessage x.session.pool.nextSeq).encode] }
      served (waiting ++ [(q, x.session.started)]) underway where
  number := by
    rw [askedIn_append, List.length_append, l.number]
    rfl
  conserved := by
    rw [askedIn_append, ← List.append_assoc]
    show List.Perm _ (askedIn past ++ [q]).zipIdx
    rw [List.zipIdx_append, Nat.zero_add, l.number]
    exact l.conserved.append_right _
  taken := by rw [takenIn_kept rfl, l.taken]
  requests := by
    show x.requests ++ _ = _
    rw [l.requests, sound.next, List.map_append]
    rfl
  responses := l.responses
  outstanding := by
    show ((x.session.pool.pending ++ [(x.session.pool.nextSeq, i)]).map Prod.fst).Perm _
    rw [List.map_append, List.map_append, List.append_assoc, sound.next]
    refine (l.outstanding.append_right _).trans ?_
    rw [List.append_assoc]
    exact List.perm_append_comm.append_left _
  table := l.table
  owed := l.owed
  answered k m response := by
    rw [responseTo_callsIn_append (by rintro _ seq ⟨⟩; rfl)] at response
    exact l.answered k m response
  accepted := by
    refine l.accepted_append ?_
    rintro bytes answer ⟨⟩

theorem serve {w : Request × Nat} {w₁ w₂ : List (Request × Nat)}
    (l : Ledger vars past x served (w₁ ++ w :: w₂) underway) {m : Message} {t : VarTable}
    (seq : m.seq = UInt32.ofNat w.2) (reply : Reply.ofMessage m = (w.1.answer x.table.vars).1)
    (changed : t.vars = (w.1.answer x.table.vars).2) :
    Ledger vars (past ++ [(.serve (sentAs w), .done)])
      { x with
        table := t
        requests := (w₁ ++ w₂).map sentAs
        responses := x.responses ++ [m.encode] }
      (served ++ [w]) (w₁ ++ w₂) (underway ++ [m]) := by
  obtain ⟨q, k⟩ := w
  rw [l.table] at reply changed
  have answers := answersTo_append vars served q k
  rw [← reply] at answers
  have earlier {result : Answer Reply} {k' : Nat} (mem : (result, k') ∈ answersTo vars served) :
      (result, k') ∈ answersTo vars (served ++ [(q, k)]) := by
    rw [answers]
    exact List.mem_append_left _ mem
  refine {
    number := ?number, conserved := ?conserved, taken := ?taken, requests := rfl
    responses := ?responses, outstanding := ?outstanding, table := ?table, owed := ?owed
    answered := ?answered, accepted := ?accepted }
  case number => rw [askedIn_kept rfl, l.number]
  case conserved =>
    rw [askedIn_kept rfl, List.append_assoc]
    show (served ++ (q, k) :: (w₁ ++ w₂)).Perm _
    exact (List.perm_middle.symm.append_left served).trans l.conserved
  case taken =>
    rw [takenIn_append, List.map_append, l.taken]
    rfl
  case responses =>
    show x.responses ++ [m.encode] = _
    rw [l.responses, List.map_append]
    rfl
  case outstanding =>
    refine l.outstanding.trans ?_
    rw [List.map_append, List.map_append, List.map_append, List.map_cons, ← seq, List.append_assoc,
      List.append_assoc]
    refine List.Perm.append_left _ ?_
    rw [← List.append_assoc]
    exact (List.perm_append_singleton m.seq _).symm
  case table => rw [variablesAfter_append, ← changed]
  case owed =>
    intro m' mem
    rcases List.mem_append.mp mem with old | new
    · obtain ⟨k', seq', mem'⟩ := l.owed m' old
      exact ⟨k', seq', earlier mem'⟩
    · cases List.mem_singleton.mp new
      refine ⟨k, seq, ?_⟩
      rw [answers]
      exact List.mem_append_right _ (List.mem_singleton_self _)
  case answered =>
    intro k' m' response
    rw [responseTo_callsIn_append (by rintro _ seq ⟨⟩)] at response
    exact earlier (l.answered k' m' response)
  case accepted =>
    refine l.accepted_append ?_
    rintro bytes answer ⟨⟩

/-- A response that is under way is pending. -/
theorem pending_of_underway (l : Ledger vars past x served waiting underway) {m : Message}
    (mem : m ∈ underway) : ∃ i, (m.seq, i) ∈ x.session.pool.pending := by
  have seqs := l.outstanding.symm.subset
    (List.mem_append_right _ (List.mem_map_of_mem mem : m.seq ∈ underway.map (·.seq)))
  obtain ⟨⟨seq, i⟩, mem', same⟩ := List.mem_map.mp seqs
  exact ⟨i, same ▸ mem'⟩

/-- No two requests have one sequence number. -/
theorem number_unique (l : Ledger vars past x served waiting underway) (sound : x.session.Sound)
    (delivered : Session.Delivered (callsIn past) x.session) {k k' : Nat} {result : Answer Reply}
    (mem : (result, k) ∈ answersTo vars served)
    (numbered : (numbersIn (callsIn past))[k']? = some (UInt32.ofNat k)) : k' = k := by
  rw [delivered.numbers, List.getElem?_map, Option.map_eq_some_iff] at numbered
  obtain ⟨k'', here, same⟩ := numbered
  obtain ⟨inside, rfl⟩ := List.getElem?_eq_some_iff.mp here
  rw [List.length_range] at inside
  rw [List.getElem_range] at same
  have small := Nat.lt_of_lt_of_le (l.lt_of_answered mem) sound.few
  have small' := Nat.lt_of_lt_of_le inside sound.few
  rw [← UInt32.toNat_ofNat_of_lt' small, ← UInt32.toNat_ofNat_of_lt' small', same]

/-- A message under way that has the number of a request is what the server told about it. -/
theorem told_of_number (l : Ledger vars past x served waiting underway) (sound : x.session.Sound)
    (delivered : Session.Delivered (callsIn past) x.session) {m : Message} (mem : m ∈ underway)
    {k : Nat} (numbered : (numbersIn (callsIn past))[k]? = some m.seq) :
    (Reply.ofMessage m, k) ∈ answersTo vars served := by
  obtain ⟨k₀, number, owed⟩ := l.owed m mem
  rw [number] at numbered
  obtain rfl := l.number_unique sound delivered owed numbered
  exact owed

theorem deliver {m : Message} {u₁ u₂ : List Message}
    (l : Ledger vars past x served waiting (u₁ ++ m :: u₂)) (sound : x.session.Sound)
    (delivered : Session.Delivered (callsIn past) x.session) :
    Ledger vars (past ++ [(.deliver m.encode, .completed (x.session.pool.complete m).1)])
      { x with
        session := { x.session with pool := (x.session.pool.complete m).2 }
        responses := (u₁ ++ u₂).map Message.encode }
      served waiting (u₁ ++ u₂) := by
  have here : m ∈ u₁ ++ m :: u₂ := List.mem_append_right _ List.mem_cons_self
  obtain ⟨i, pending⟩ := l.pending_of_underway here
  obtain ⟨accepted, whole⟩ := sound.listed.complete_of_pending pending
  have fewer {m' : Message} (mem' : m' ∈ u₁ ++ u₂) : m' ∈ u₁ ++ m :: u₂ :=
    (List.sublist_cons_self m u₂).append_left u₁ |>.subset mem'
  have call : callOf (.deliver m.encode, .completed (x.session.pool.complete m).1) =
      some (.complete m, .completed (x.session.pool.complete m).1) := by
    rw [callOf, decodeResponse_encode]
  refine {
    number := ?number, conserved := ?conserved, taken := ?taken, requests := l.requests
    responses := rfl, outstanding := ?outstanding, table := l.table
    owed := fun m' mem' => l.owed m' (fewer mem'), answered := ?answered, accepted := ?accepted }
  case number => rw [askedIn_kept rfl, l.number]
  case conserved =>
    rw [askedIn_kept rfl]
    exact l.conserved
  case taken => rw [takenIn_kept rfl, l.taken]
  case outstanding =>
    show ((x.session.pool.complete m).2.pending.map Prod.fst).Perm _
    replace whole := whole.trans l.outstanding
    rw [List.map_append, List.map_cons, ← List.append_assoc] at whole
    rw [List.map_append, ← List.append_assoc]
    exact (whole.trans List.perm_middle).cons_inv
  case answered =>
    intro k m' response
    rw [callsIn_append, call, Option.toList_some, responseTo_append] at response
    cases before : responseTo k (callsIn past) with
    | some m₀ =>
      rw [before] at response
      cases response
      exact l.answered k m' before
    | none =>
      rw [before, Option.none_or, Option.bind_eq_some_iff] at response
      obtain ⟨seq, numbered, response⟩ := response
      rw [messageWith, Option.ite_none_right_eq_some] at response
      obtain ⟨rfl, same⟩ := response
      cases same
      exact l.told_of_number sound delivered here numbered
  case accepted =>
    refine l.accepted_append ?_
    rintro bytes answer ⟨⟩
    exact accepted

theorem step (l : Ledger vars past x served waiting underway) (ordinary : Ordinary vars)
    (sound : x.session.Sound) (delivered : Session.Delivered (callsIn past) x.session)
    (step : x.Step a r x') : ∃ served' waiting' underway',
      Ledger vars (past ++ [(a, r)]) x' served' waiting' underway' := by
  cases step with
  | @issued q seq session started =>
    cases sound.effect started with
    | @started i free _ => exact ⟨_, _, _, l.issue sound q i free⟩
  | refused refused =>
    cases sound.effect refused with
    | refused _ =>
      exact ⟨_, _, _, l.kept rfl rfl (by simp) (by rintro _ seq ⟨⟩; rfl) rfl rfl⟩
  | serve queued =>
    rw [l.requests] at queued
    obtain ⟨w₁, w, w₂, rfl, rfl, rfl, rfl⟩ := split_map queued
    have ordinary' : Ordinary x.table.vars := l.table ▸ ordinary.variablesAfter served
    obtain ⟨m, t, received, seq, reply, changed⟩ :=
      Config.Server.receive_request ordinary' w.1 (UInt32.ofNat w.2)
    rw [sentAs, received, ← List.map_append]
    exact ⟨_, _, _, l.serve seq reply changed⟩
  | deliver queued =>
    rw [l.responses] at queued
    obtain ⟨u₁, m, u₂, rfl, rfl, rfl, rfl⟩ := split_map queued
    rw [Pool.onMessage_encode, ← List.map_append]
    exact ⟨_, _, _, l.deliver sound delivered⟩
  | @collect k result session taken =>
    have silent (call : Event) (seq : UInt32)
        (same : callOf (.collect k, .taken result) = some call) : messageWith seq call = none := by
      cases same
      rfl
    refine ⟨_, _, _, l.kept rfl rfl (by simp) silent ?_ ?_⟩
    · cases sound.effect taken <;> rfl
    · cases sound.effect taken with
      | collectedBefore _ _ => rfl
      | notYet _ _ _ => rfl
      | collected _ _ _ => exact Pool.pending_recycle _ _
  | @drop k session dropped =>
    have silent (call : Event) (seq : UInt32) (same : callOf (.drop k, .done) = some call) :
        messageWith seq call = none := by
      cases same
      rfl
    refine ⟨_, _, _, l.kept rfl rfl (by simp) silent ?_ ?_⟩
    · cases sound.effect dropped <;> rfl
    · cases sound.effect dropped with
      | forgotten _ _ => rfl
      | abandoned _ _ _ => rfl
      | discarded _ _ _ => exact Pool.pending_recycle _ _

end Ledger

variable {t : VarTable} {past : List (Act × Report)} {x x' : Exchange n} {a : Act} {r : Report}

theorem Step.started_le (step : x.Step a r x') : x.session.started ≤ x'.session.started := by
  have changed := step.session
  cases call : callOf (a, r) with
  | none =>
    rw [call] at changed
    rw [changed]
  | some event =>
    rw [call] at changed
    exact changed.started_le

theorem Run.ledger (run : Run t past x) (ordinary : Ordinary t.vars)
    (few : x.session.started ≤ UInt32.size) :
    ∃ served waiting underway, Ledger t.vars past x served waiting underway := by
  induction run with
  | start => exact ⟨_, _, _, .start t⟩
  | act before step ih =>
    have earlier := step.started_le.trans few
    obtain ⟨served, waiting, underway, l⟩ := ih earlier
    exact l.step ordinary (before.session.sound earlier) (before.session.delivered earlier) step

end Exchange

/-- A response settles the one ticket that waits under its number. -/
theorem Session.Sound.take?_complete {s : Session n} (h : s.Sound) {m : Message} {i : Fin n}
    (pending : (m.seq, i) ∈ s.pool.pending) {k : Nat} {ticket : Ticket n}
    (mine : s.tickets k = some ticket) :
    (ticket.take? (s.pool.complete m).2).1 =
      if k = s.owner i then some (Reply.ofMessage m) else (ticket.take? s.pool).1 := by
  have after : Session.Sound { s with pool := (s.pool.complete m).2 } :=
    (h.effect (.complete m)).sound h h.few
  obtain ⟨seq, use⟩ := (h.listed.pending _ _).mp pending
  have only {j : Fin n} (mem : (m.seq, j) ∈ s.pool.pending) : j = i := by
    obtain ⟨seq', use'⟩ := (h.listed.pending _ _).mp mem
    exact h.distinct j i use'.ne_free use.ne_free (seq'.symm.trans seq)
  have elsewhere (apart : k ≠ s.owner i) (unfinished : ¬ticket.finished) : ticket.slot ≠ i := by
    rintro rfl
    exact apart (h.owner_of_awaited mine (Bool.eq_false_of_not_eq_true unfinished)).symm
  rw [h.take?_eq mine]
  refine (after.take?_eq mine).trans ?_
  show (if ticket.finished then none else ((s.pool.complete m).2.stateOf ticket.slot).result?) = _
  rcases h.listed.complete_cases m with ⟨unknown, -⟩ |
    ⟨j, rest, mem, -, ⟨waiting, settled⟩ | ⟨abandoned, settled⟩⟩
  · exact absurd pending (unknown i)
  · obtain rfl := only mem
    have holder := h.held j (by rw [waiting]; trivial)
    rw [settled]
    by_cases own : k = s.owner j
    · subst own
      rw [holder] at mine
      cases mine
      rw [if_neg Bool.false_ne_true, if_pos rfl, Pool.stateOf_setState_self]
      rfl
    · rw [if_neg own]
      refine ite_congr rfl (fun _ => rfl) fun unfinished => ?_
      rw [Pool.stateOf_setState_of_ne _ _ (elsewhere own unfinished), Pool.stateOf_withPending]
  · obtain rfl := only mem
    have other : k ≠ s.owner j := by
      rintro rfl
      rw [h.abandoned j abandoned] at mine
      cases mine
    rw [settled, if_neg other]
    refine ite_congr rfl (fun _ => rfl) fun unfinished => ?_
    rw [Pool.stateOf_recycle, if_neg (elsewhere other unfinished), Pool.stateOf_withPending]

/-- Whatever overtakes whatever on the way, the requests that the server took are requests of the
client, each at most once, and what the client collects is what it would have been told if they had
been applied to the table one after another. Every response is taken in, and it changes what a
ticket gives for its own request only. -/
theorem exchange_linearizable {t : VarTable} (ordinary : Ordinary t.vars)
    {past : List (Act × Report)} {x : Exchange n} (run : Exchange.Run t past x)
    (few : x.session.started < UInt32.size) :
    ∃ served : List (Request × Nat),
      takenIn past = served.map sentAs ∧ (served.map Prod.snd).Nodup ∧
      (∀ q k, (q, k) ∈ served → (askedIn past)[k]? = some q) ∧
      x.table.vars = variablesAfter t.vars served ∧
      (∀ k, collectedIn k past = [] ∨
        ∃ result, (result, k) ∈ answersTo t.vars served ∧ collectedIn k past = [result]) ∧
      (∀ bytes answer, (.deliver bytes, .completed answer) ∈ past → answer = .ok ()) ∧
      ∀ bytes ∈ x.responses, ∃ result k, (result, k) ∈ answersTo t.vars served ∧
        (x.session.pool.onMessage bytes).1 = .ok () ∧
        ∀ k' ticket, x.session.tickets k' = some ticket →
          (ticket.take? (x.session.pool.onMessage bytes).2).1 =
            if k' = k then some result else (ticket.take? x.session.pool).1 := by
  have few' : x.session.started ≤ UInt32.size := Nat.le_of_lt few
  have sound := run.session.sound few'
  have delivered := run.session.delivered few'
  obtain ⟨served, waiting, underway, l⟩ := run.ledger ordinary few'
  refine ⟨served, l.taken, ?_, ?_, l.table, ?_, l.accepted, ?_⟩
  · have numbers : (served.map Prod.snd ++ waiting.map Prod.snd).Perm
        (List.range' 0 (askedIn past).length) := by
      rw [← List.map_append, ← List.zipIdx_map_snd]
      exact l.conserved.map Prod.snd
    exact (List.nodup_append.mp (numbers.nodup_iff.mpr List.nodup_range')).1
  · intro q k mem
    have mem' := l.conserved.subset (List.mem_append_left waiting mem)
    exact List.mk_mem_zipIdx_iff_getElem?.mp mem'
  · intro k
    rw [collectedIn_eq]
    rcases delivered.results k with none | ⟨m, response, collected⟩
    · exact .inl none
    · exact .inr ⟨_, l.answered k m response, collected⟩
  · intro bytes mem
    rw [l.responses] at mem
    obtain ⟨m, here, rfl⟩ := List.mem_map.mp mem
    obtain ⟨k, number, owed⟩ := l.owed m here
    obtain ⟨i, pending⟩ := l.pending_of_underway here
    have owner : x.session.owner i = k := by
      have small := Nat.lt_of_lt_of_le (l.lt_of_answered owed) few'
      rw [Session.owner, ← ((sound.listed.pending _ _).mp pending).1, number,
        UInt32.toNat_ofNat_of_lt' small]
    rw [Pool.onMessage_encode]
    refine ⟨_, k, owed, ?_, ?_⟩
    · rcases sound.listed.complete_cases m with ⟨unknown, -⟩ |
        ⟨_, _, _, _, ⟨-, settled⟩ | ⟨-, settled⟩⟩
      · exact absurd pending (unknown i)
      · rw [settled]
      · rw [settled]
    · intro k' ticket mine
      rw [← owner]
      exact sound.take?_complete pending mine

/-- A write that the server took and the client collected. -/
theorem exchange_linearizable_of_write :
    ∃ (v : Variable) (past : List (Act × Report)) (x : Exchange 1),
      Ordinary [v] ∧ Exchange.Run ⟨[v], []⟩ past x ∧ x.session.started < UInt32.size ∧
      ∃ served result, takenIn past = served.map sentAs ∧
        (result, 0) ∈ answersTo [v] served ∧ collectedIn 0 past = [result] := by
  let v : Variable := ⟨1, "speed", "", 5, 0, 10, none, none⟩
  have ordinary : Ordinary [v] := by
    refine ⟨?_, by decide⟩
    intro w mem
    cases List.mem_singleton.mp mem
    exact ⟨rfl, rfl⟩
  obtain ⟨m, t, received, seq, -, -⟩ :=
    Config.Server.receive_request (t := ⟨[v], []⟩) ordinary ⟨.write, 0, 100⟩ 0
  have run₁ := (Exchange.Run.start (n := 1) (t := ⟨[v], []⟩)).act
    (.issued (q := ⟨.write, 0, 100⟩) (.started rfl))
  have run₂ := run₁.act (.serve (show _ = [] ++ _ :: [] from rfl))
  rw [show Config.Server.receive _ _ = _ from received] at run₂
  have run₃ := run₂.act (.deliver (show _ = [] ++ _ :: [] from rfl))
  rw [Pool.onMessage_encode] at run₃
  have run₄ := run₃.act (.collect (.take (k := 0) rfl))
  have few : 1 < UInt32.size := by decide
  obtain ⟨served, taken, -, -, -, collected, -⟩ := exchange_linearizable ordinary run₄ few
  obtain ⟨_, kind, index, value, dataLen, data⟩ := m
  cases seq
  rcases collected 0 with none | ⟨result, owed, collected⟩
  · cases none
  · exact ⟨v, _, _, ordinary, run₄, few, served, result, taken, owed, collected⟩

end InterCore.Client
