import InterCore.Proofs.Client.Lists
import Mathlib.Logic.Function.Basic

/-!
# Sessions

A pool with the tickets that its callers have, and any order of calls on them. A ticket goes by the
number of requests that were started before its own. `Effect` says what each call does to a session
that is `Sound`, and the session stays sound.
-/

namespace InterCore.Client

open InterCore.Config (Message Reply)

variable {n : Nat}

/-- A pool and the tickets to its requests. -/
structure Session (n : Nat) where
  pool : Pool n := {}
  /-- The ticket of each request, until it is given up. -/
  tickets : Nat → Option (Ticket n) := fun _ => none
  /-- Number of requests that were started. -/
  started : Nat := 0

/-- A call, on the ticket of a request where it takes one. -/
inductive Call where
  | start
  | complete (m : Message)
  | isDone (k : Nat)
  | take (k : Nat)
  | cancel (k : Nat)
  | drop (k : Nat)

/-- What a call answers. -/
inductive Report where
  | started (seq : UInt32)
  | refused (e : Error)
  | completed (answer : Answer Unit)
  | isDone (done : Bool)
  | taken (result : Option (Answer Reply))
  | done

/-- A call with its report. -/
abbrev Event := Call × Report

namespace Session

/-- The session with another pool, and with what became of a ticket. -/
def withTicket (s : Session n) (pool : Pool n) (k : Nat) (t : Option (Ticket n)) : Session n :=
  { s with pool, tickets := Function.update s.tickets k t }

/-- The session with one request more. -/
def withRequest (s : Session n) (pool : Pool n) (t : Ticket n) : Session n :=
  { pool, tickets := Function.update s.tickets s.started (some t), started := s.started + 1 }

/-- One call on a session. Only tickets that are there are used, and a request is withdrawn only
while its result was not collected. -/
inductive Step (s : Session n) : Call → Report → Session n → Prop where
  | started {t : Ticket n} {pool : Pool n} :
      s.pool.start = (.ok t, pool) → Step s .start (.started t.seq) (s.withRequest pool t)
  | refused {e : Error} {pool : Pool n} :
      s.pool.start = (.error e, pool) → Step s .start (.refused e) { s with pool }
  | complete (m : Message) :
      Step s (.complete m) (.completed (s.pool.complete m).1)
        { s with pool := (s.pool.complete m).2 }
  | isDone {k : Nat} {t : Ticket n} :
      s.tickets k = some t → Step s (.isDone k) (.isDone (t.isDone s.pool)) s
  | take {k : Nat} {t : Ticket n} :
      s.tickets k = some t →
        Step s (.take k) (.taken (t.take? s.pool).1)
          (s.withTicket (t.take? s.pool).2.2 k (some (t.take? s.pool).2.1))
  | cancel {k : Nat} {t : Ticket n} :
      s.tickets k = some t → t.finished = false →
        Step s (.cancel k) .done (s.withTicket (t.cancel s.pool) k none)
  | drop {k : Nat} {t : Ticket n} :
      s.tickets k = some t → Step s (.drop k) .done (s.withTicket (t.drop s.pool) k none)

theorem withTicket_tickets (s : Session n) (pool : Pool n) (k : Nat) :
    s.withTicket pool k (s.tickets k) = { s with pool } := by
  rw [withTicket, Function.update_eq_self]

@[simp]
theorem tickets_withTicket_self (s : Session n) (pool : Pool n) (k : Nat)
    (t : Option (Ticket n)) : (s.withTicket pool k t).tickets k = t := by
  show Function.update s.tickets k t k = t
  rw [Function.update_self]

theorem tickets_withTicket_of_ne (s : Session n) (pool : Pool n) {k k' : Nat}
    (t : Option (Ticket n)) (h : k' ≠ k) : (s.withTicket pool k t).tickets k' = s.tickets k' := by
  show Function.update s.tickets k t k' = _
  rw [Function.update_of_ne h]

@[simp]
theorem tickets_withRequest_self (s : Session n) (pool : Pool n) (t : Ticket n) :
    (s.withRequest pool t).tickets s.started = some t := by
  show Function.update s.tickets s.started (some t) s.started = some t
  rw [Function.update_self]

theorem tickets_withRequest_of_ne (s : Session n) (pool : Pool n) (t : Ticket n) {k : Nat}
    (h : k ≠ s.started) : (s.withRequest pool t).tickets k = s.tickets k := by
  show Function.update s.tickets s.started (some t) k = _
  rw [Function.update_of_ne h]

/-- A ticket of the session is what became of the one that changed, or another one. -/
theorem of_tickets_withTicket {s : Session n} {pool : Pool n} {k k' : Nat} {t : Ticket n}
    {after : Option (Ticket n)} (mine : (s.withTicket pool k after).tickets k' = some t) :
    k' = k ∧ after = some t ∨ k' ≠ k ∧ s.tickets k' = some t := by
  by_cases same : k' = k
  · subst same
    rw [tickets_withTicket_self] at mine
    exact .inl ⟨rfl, mine⟩
  · rw [tickets_withTicket_of_ne _ _ _ same] at mine
    exact .inr ⟨same, mine⟩

/-- A ticket of the session is the new one, or was there before. -/
theorem of_tickets_withRequest {s : Session n} {pool : Pool n} {k : Nat} {t new : Ticket n}
    (mine : (s.withRequest pool new).tickets k = some t) :
    k = s.started ∧ t = new ∨ k ≠ s.started ∧ s.tickets k = some t := by
  by_cases last : k = s.started
  · subst last
    rw [tickets_withRequest_self] at mine
    exact .inl ⟨rfl, (Option.some.inj mine).symm⟩
  · rw [tickets_withRequest_of_ne _ _ _ last] at mine
    exact .inr ⟨last, mine⟩

/-- The sessions that calls lead to, with what was called and reported. -/
inductive Run : List Event → Session n → Prop where
  | start : Run [] {}
  | call {past : List Event} {s s' : Session n} {c : Call} {r : Report} :
      Run past s → Step s c r s' → Run (past ++ [(c, r)]) s'

/-- Number of the request that a slot is used for. -/
def owner (s : Session n) (i : Fin n) : Nat :=
  (s.pool.seqOf i).toNat

/-- The result of request `k` is to be collected from slot `i`. -/
def Awaits (s : Session n) (k : Nat) (i : Fin n) : Prop :=
  ∃ t, s.tickets k = some t ∧ t.finished = false ∧ t.slot = i

/-- Every ticket that waits for a result has a slot of its own, whatever the sequence numbers
are. -/
structure Leased (s : Session n) : Prop where
  listed : s.pool.Listed
  own : ∀ k t, s.tickets k = some t → t.finished = false →
    s.pool.seqOf t.slot = t.seq ∧ (s.pool.stateOf t.slot).IsHeld
  alone : ∀ k t k' t', s.tickets k = some t → t.finished = false →
    s.tickets k' = some t' → t'.finished = false → k' ≠ k → t'.slot ≠ t.slot
  unborn : ∀ k, s.started ≤ k → s.tickets k = none

/-- The slots of the pool and the tickets go together. -/
structure Sound (s : Session n) : Prop where
  listed : s.pool.Listed
  few : s.started ≤ UInt32.size
  next : s.pool.nextSeq = UInt32.ofNat s.started
  issued : ∀ i, s.pool.stateOf i ≠ .free → s.owner i < s.started
  distinct : ∀ i j, s.pool.stateOf i ≠ .free → s.pool.stateOf j ≠ .free →
    s.pool.seqOf i = s.pool.seqOf j → i = j
  held : ∀ i, (s.pool.stateOf i).IsHeld → s.tickets (s.owner i) = some ⟨i, s.pool.seqOf i, false⟩
  abandoned : ∀ i, s.pool.stateOf i = .abandoned → s.tickets (s.owner i) = none
  numbered : ∀ k t, s.tickets k = some t → k < s.started ∧ t.seq.toNat = k
  awaited : ∀ k t, s.tickets k = some t → t.finished = false →
    s.pool.seqOf t.slot = t.seq ∧ (s.pool.stateOf t.slot).IsHeld

/-- What a call does to a session whose tickets have their slots. -/
inductive Effect (s : Session n) : Call → Report → Session n → Prop where
  | refused :
      s.pool.free = [] → Effect s .start (.refused .resourceExhausted) s
  | started {i : Fin n} {free : List (Fin n)} :
      s.pool.free = i :: free →
        Effect s .start (.started s.pool.nextSeq)
          (s.withRequest (s.pool.opened i free) ⟨i, s.pool.nextSeq, false⟩)
  | unknown {m : Message} :
      (∀ i, (m.seq, i) ∉ s.pool.pending) →
        Effect s (.complete m) (.completed (.error .unknownSequence)) s
  /-- A response for a ticket. -/
  | answered {m : Message} {i : Fin n} {rest : List (UInt32 × Fin n)} :
      (m.seq, i) ∈ s.pool.pending → s.pool.stateOf i = .waiting → s.pool.Without i rest →
        Effect s (.complete m) (.completed (.ok ()))
          { s with pool := (s.pool.withPending rest).setState i (.done (Reply.ofMessage m)) }
  /-- A response that nobody waits for any more. -/
  | late {m : Message} {i : Fin n} {rest : List (UInt32 × Fin n)} :
      (m.seq, i) ∈ s.pool.pending → s.pool.stateOf i = .abandoned → s.pool.Without i rest →
        Effect s (.complete m) (.completed (.ok ()))
          { s with pool := (s.pool.withPending rest).recycle i }
  | seen {k : Nat} {t : Ticket n} :
      s.tickets k = some t → Effect s (.isDone k) (.isDone (t.isDone s.pool)) s
  | collectedBefore {k : Nat} {t : Ticket n} :
      s.tickets k = some t → t.finished = true → Effect s (.take k) (.taken none) s
  | notYet {k : Nat} {t : Ticket n} :
      s.tickets k = some t → t.finished = false → s.pool.stateOf t.slot = .waiting →
        Effect s (.take k) (.taken none) s
  | collected {k : Nat} {t : Ticket n} {result : Answer Reply} :
      s.tickets k = some t → t.finished = false → s.pool.stateOf t.slot = .done result →
        Effect s (.take k) (.taken (some result))
          (s.withTicket (s.pool.recycle t.slot) k (some { t with finished := true }))
  | withdrawn {k : Nat} {t : Ticket n} {rest : List (UInt32 × Fin n)} :
      s.tickets k = some t → t.finished = false → s.pool.Without t.slot rest →
        Effect s (.cancel k) .done
          (s.withTicket ((s.pool.withPending rest).recycle t.slot) k none)
  /-- A ticket that is given up after its result was collected. -/
  | forgotten {k : Nat} {t : Ticket n} :
      s.tickets k = some t → t.finished = true →
        Effect s (.drop k) .done (s.withTicket s.pool k none)
  | abandoned {k : Nat} {t : Ticket n} :
      s.tickets k = some t → t.finished = false → s.pool.stateOf t.slot = .waiting →
        Effect s (.drop k) .done (s.withTicket (s.pool.setState t.slot .abandoned) k none)
  /-- A ticket that is given up with its result. -/
  | discarded {k : Nat} {t : Ticket n} {result : Answer Reply} :
      s.tickets k = some t → t.finished = false → s.pool.stateOf t.slot = .done result →
        Effect s (.drop k) .done (s.withTicket (s.pool.recycle t.slot) k none)

namespace Leased

variable {s s' : Session n} {c : Call} {r : Report}

/-- A ticket that waits for its result: the response is still to come, or it is there. -/
theorem state_of_awaited (h : s.Leased) {k : Nat} {t : Ticket n} (mine : s.tickets k = some t)
    (unfinished : t.finished = false) :
    s.pool.stateOf t.slot = .waiting ∨ ∃ result, s.pool.stateOf t.slot = .done result := by
  have held := (h.own k t mine unfinished).2
  cases state : s.pool.stateOf t.slot with
  | waiting => exact .inl rfl
  | done result => exact .inr ⟨result, rfl⟩
  | free => exact absurd state held.ne_free
  | abandoned =>
    rw [state] at held
    exact held.elim

theorem effect (h : s.Leased) (step : s.Step c r s') : s.Effect c r s' := by
  cases step with
  | started started =>
    rcases h.listed.start_cases with ⟨-, refused⟩ | ⟨i, free, top, opened⟩
    · rw [refused] at started
      cases started
    · rw [opened] at started
      cases started
      exact .started top
  | refused refused =>
    rcases h.listed.start_cases with ⟨none, same⟩ | ⟨i, free, -, opened⟩
    · rw [same] at refused
      cases refused
      exact .refused none
    · rw [opened] at refused
      cases refused
  | complete m =>
    rcases h.listed.complete_cases m with ⟨unknown, same⟩ |
      ⟨i, rest, mem, without, ⟨waiting, answered⟩ | ⟨abandoned, late⟩⟩
    · rw [same]
      exact .unknown unknown
    · rw [answered]
      exact .answered mem waiting without
    · rw [late]
      exact .late mem abandoned without
  | isDone mine => exact .seen mine
  | @take k t mine =>
    cases finished : t.finished with
    | true =>
      rw [Ticket.take?_finished finished, ← mine, withTicket_tickets]
      exact .collectedBefore mine finished
    | false =>
      rcases h.state_of_awaited mine finished with waiting | ⟨result, done⟩
      · rw [Ticket.take?_waiting finished waiting, ← mine, withTicket_tickets]
        exact .notYet mine finished waiting
      · rw [Ticket.take?_done finished done]
        exact .collected mine finished done
  | @cancel k t mine finished =>
    obtain ⟨rest, cancelled, without⟩ := h.listed.cancel t
    rw [cancelled]
    exact .withdrawn mine finished without
  | @drop k t mine =>
    cases finished : t.finished with
    | true =>
      rw [Ticket.drop_finished finished]
      exact .forgotten mine finished
    | false =>
      rcases h.state_of_awaited mine finished with waiting | ⟨result, done⟩
      · rw [Ticket.drop_waiting finished waiting]
        exact .abandoned mine finished waiting
      · rw [Ticket.drop_done finished done]
        exact .discarded mine finished done

end Leased

namespace Sound

variable {s s' : Session n} {c : Call} {r : Report}

theorem owner_of_awaited (h : s.Sound) {k : Nat} {t : Ticket n} (mine : s.tickets k = some t)
    (unfinished : t.finished = false) : s.owner t.slot = k := by
  rw [owner, (h.awaited k t mine unfinished).1]
  exact (h.numbered k t mine).2

/-- Two tickets never wait for one slot. -/
theorem slot_ne (h : s.Sound) {k k' : Nat} {t t' : Ticket n} (mine : s.tickets k = some t)
    (unfinished : t.finished = false) (other : s.tickets k' = some t')
    (unfinished' : t'.finished = false) (apart : k' ≠ k) : t'.slot ≠ t.slot := by
  rw [← h.owner_of_awaited mine unfinished, ← h.owner_of_awaited other unfinished'] at apart
  intro same
  exact apart (congrArg s.owner same)

theorem leased (h : s.Sound) : s.Leased := by
  refine ⟨h.listed, h.awaited, fun _ _ _ _ mine unfinished other unfinished' apart =>
    h.slot_ne mine unfinished other unfinished' apart, ?_⟩
  intro k late
  cases mine : s.tickets k with
  | none => rfl
  | some t => exact absurd (h.numbered k t mine).1 (Nat.not_lt.mpr late)

/-- A ticket that waits for its result: the response is still to come, or it is there. -/
theorem state_of_awaited (h : s.Sound) {k : Nat} {t : Ticket n} (mine : s.tickets k = some t)
    (unfinished : t.finished = false) :
    s.pool.stateOf t.slot = .waiting ∨ ∃ result, s.pool.stateOf t.slot = .done result :=
  h.leased.state_of_awaited mine unfinished

/-- A ticket gives the result in its slot, until it has given it. -/
theorem take?_eq (h : s.Sound) {k : Nat} {t : Ticket n} (mine : s.tickets k = some t) :
    (t.take? s.pool).1 = if t.finished then none else (s.pool.stateOf t.slot).result? := by
  cases finished : t.finished with
  | true => rw [Ticket.take?_finished finished, if_pos rfl]
  | false =>
    rw [if_neg Bool.false_ne_true]
    rcases h.state_of_awaited mine finished with waiting | ⟨result, done⟩
    · rw [Ticket.take?_waiting finished waiting, waiting]
      rfl
    · rw [Ticket.take?_done finished done, done]
      rfl

theorem effect (h : s.Sound) (step : s.Step c r s') : s.Effect c r s' :=
  h.leased.effect step

/-! ## A session stays sound -/

theorem seq_eq (h : s.Sound) {k : Nat} {t : Ticket n} (mine : s.tickets k = some t) :
    t.seq = UInt32.ofNat k := by
  rw [← (h.numbered k t mine).2, UInt32.ofNat_toNat]

theorem owner_ne (h : s.Sound) {i j : Fin n} (busy : s.pool.stateOf i ≠ .free)
    (busy' : s.pool.stateOf j ≠ .free) (apart : j ≠ i) : s.owner j ≠ s.owner i := by
  intro same
  exact apart (h.distinct j i busy' busy (UInt32.toNat_inj.mp same))

/-- A slot is put to another use, and so is the ticket of the request that it is used for;
everything else stays as it is. -/
structure Reassigned (s : Session n) (i : Fin n) (k : Nat) (s' : Session n) : Prop where
  listed : s'.pool.Listed
  few : s'.started ≤ UInt32.size
  next : s'.pool.nextSeq = UInt32.ofNat s'.started
  grown : s.started ≤ s'.started
  others : Pool.SameBut i s.pool s'.pool
  tickets : ∀ k', k' ≠ k → s'.tickets k' = s.tickets k'
  issued : k < s'.started
  number : s'.owner i = k
  /-- No other slot is used for the request. -/
  apart : ∀ j, j ≠ i → s.pool.stateOf j ≠ .free → s.owner j ≠ k
  /-- No other ticket waits for the slot. -/
  alone : ∀ k' t, k' ≠ k → s.tickets k' = some t → t.finished = false → t.slot ≠ i
  held : (s'.pool.stateOf i).IsHeld → s'.tickets k = some ⟨i, s'.pool.seqOf i, false⟩
  abandoned : s'.pool.stateOf i = .abandoned → s'.tickets k = none
  ticket : ∀ t, s'.tickets k = some t → t.seq = s'.pool.seqOf i ∧
    (t.finished = false → t.slot = i ∧ (s'.pool.stateOf i).IsHeld)

theorem reassigned (h : s.Sound) (i : Fin n) (k : Nat) (change : Reassigned s i k s') :
    s'.Sound := by
  have owner_eq (j : Fin n) (other : j ≠ i) : s'.owner j = s.owner j :=
    congrArg UInt32.toNat (change.others.seq j other)
  have wasBusy (j : Fin n) (other : j ≠ i) (busy : s'.pool.stateOf j ≠ .free) :
      s.pool.stateOf j ≠ .free := by
    rwa [← change.others.state j other]
  -- Another slot is used for another request than the slot that changes.
  have differ (j : Fin n) (other : j ≠ i) (busy : s'.pool.stateOf j ≠ .free) :
      s'.owner j ≠ s'.owner i := by
    rw [owner_eq j other, change.number]
    exact change.apart j other (wasBusy j other busy)
  have ticketOf (j : Fin n) (other : j ≠ i) (busy : s'.pool.stateOf j ≠ .free) :
      s'.tickets (s'.owner j) = s.tickets (s.owner j) := by
    rw [owner_eq j other]
    exact change.tickets _ (change.apart j other (wasBusy j other busy))
  refine {
    listed := change.listed, few := change.few, next := change.next, issued := ?issued
    distinct := ?distinct, held := ?held, abandoned := ?abandoned, numbered := ?numbered
    awaited := ?awaited }
  case issued =>
    intro j busy
    by_cases here : j = i
    · rw [here, change.number]
      exact change.issued
    · rw [owner_eq j here]
      exact Nat.lt_of_lt_of_le (h.issued j (wasBusy j here busy)) change.grown
  case distinct =>
    intro j j' busy busy' same
    have same' : s'.owner j = s'.owner j' := congrArg UInt32.toNat same
    by_cases here : j = i
    · subst here
      by_contra other
      exact differ j' (Ne.symm other) busy' same'.symm
    · by_cases here' : j' = i
      · subst here'
        exact absurd same' (differ j here busy)
      · rw [change.others.seq j here, change.others.seq j' here'] at same
        exact h.distinct j j' (wasBusy j here busy) (wasBusy j' here' busy') same
  case held =>
    intro j held
    by_cases here : j = i
    · subst here
      rw [change.number]
      exact change.held held
    · rw [ticketOf j here held.ne_free, change.others.seq j here]
      apply h.held j
      rwa [← change.others.state j here]
  case abandoned =>
    intro j abandoned
    by_cases here : j = i
    · subst here
      rw [change.number]
      exact change.abandoned abandoned
    · rw [ticketOf j here (by simp [abandoned])]
      apply h.abandoned j
      rwa [← change.others.state j here]
  case numbered =>
    intro k' t mine
    by_cases own : k' = k
    · subst own
      refine ⟨change.issued, ?_⟩
      rw [(change.ticket t mine).1]
      exact change.number
    · rw [change.tickets k' own] at mine
      obtain ⟨before, seq⟩ := h.numbered k' t mine
      exact ⟨Nat.lt_of_lt_of_le before change.grown, seq⟩
  case awaited =>
    intro k' t mine unfinished
    by_cases own : k' = k
    · subst own
      obtain ⟨seq, use⟩ := change.ticket t mine
      obtain ⟨rfl, held⟩ := use unfinished
      exact ⟨seq.symm, held⟩
    · rw [change.tickets k' own] at mine
      have other := change.alone k' t own mine unfinished
      rw [change.others.seq t.slot other, change.others.state t.slot other]
      exact h.awaited k' t mine unfinished

/-- A slot that is in use is put to another use for the same request. -/
theorem changed (h : s.Sound) {pool : Pool n} {i : Fin n} {x : Option (Ticket n)}
    (busy : s.pool.stateOf i ≠ .free) (listed : pool.Listed)
    (next : pool.nextSeq = s.pool.nextSeq) (others : Pool.SameBut i s.pool pool)
    (number : pool.seqOf i = s.pool.seqOf i)
    (held : (pool.stateOf i).IsHeld → x = some ⟨i, s.pool.seqOf i, false⟩)
    (abandoned : pool.stateOf i = .abandoned → x = none)
    (ticket : ∀ t, x = some t → t.seq = s.pool.seqOf i ∧
      (t.finished = false → t.slot = i ∧ (pool.stateOf i).IsHeld)) :
    (s.withTicket pool (s.owner i) x).Sound := by
  refine h.reassigned i (s.owner i) {
    listed, few := h.few, next := next.trans h.next, grown := Nat.le_refl _, others
    tickets := fun k' other => tickets_withTicket_of_ne _ _ _ other
    issued := h.issued i busy, number := congrArg UInt32.toNat number
    apart := fun j other busy' => h.owner_ne busy busy' other
    alone := ?alone, held := ?held, abandoned := ?abandoned, ticket := ?ticket }
  case alone =>
    rintro k' t other mine unfinished rfl
    exact other (h.owner_of_awaited mine unfinished).symm
  case held =>
    intro held'
    rw [tickets_withTicket_self, held held', ← number]
    rfl
  case abandoned =>
    intro abandoned'
    rw [tickets_withTicket_self, abandoned abandoned']
  case ticket =>
    intro t mine
    rw [tickets_withTicket_self] at mine
    obtain ⟨seq, use⟩ := ticket t mine
    exact ⟨seq.trans number.symm, use⟩

theorem recycled (h : s.Sound) {i : Fin n} {rest : List (UInt32 × Fin n)} {x : Option (Ticket n)}
    (busy : s.pool.stateOf i ≠ .free) (without : s.pool.Without i rest)
    (gone : ∀ t, x = some t → t.seq = s.pool.seqOf i ∧ t.finished = true) :
    (s.withTicket ((s.pool.withPending rest).recycle i) (s.owner i) x).Sound := by
  have free : ((s.pool.withPending rest).recycle i).stateOf i = .free := by
    rw [Pool.stateOf_recycle, if_pos rfl]
  have others := without.sameBut.trans (Pool.sameBut_recycle (s.pool.withPending rest) i)
  refine h.changed busy (h.listed.recycle busy without) (Pool.nextSeq_recycle _ i) others
    (Pool.seqOf_recycle _ i i) ?_ ?_ ?_
  · intro held
    exact absurd free held.ne_free
  · intro abandoned
    rw [free] at abandoned
    cases abandoned
  · intro t mine
    obtain ⟨seq, finished⟩ := gone t mine
    simp [seq, finished]

theorem nextSeq_toNat (h : s.Sound) (few : s.started < UInt32.size) :
    s.pool.nextSeq.toNat = s.started := by
  rw [h.next, UInt32.toNat_ofNat_of_lt' few]

/-- A slot that was free is used for a new request. -/
theorem opened (h : s.Sound) {i : Fin n} {free : List (Fin n)} (top : s.pool.free = i :: free)
    (few : s.started < UInt32.size) :
    (s.withRequest (s.pool.opened i free) ⟨i, s.pool.nextSeq, false⟩).Sound := by
  have number := h.nextSeq_toNat few
  have state : (s.pool.opened i free).stateOf i = .waiting := by
    rw [Pool.stateOf_opened, if_pos rfl]
  have seq : (s.pool.opened i free).seqOf i = s.pool.nextSeq := by
    rw [Pool.seqOf_opened, if_pos rfl]
  refine h.reassigned i s.started {
    listed := h.listed.opened top, few := few, next := ?next, grown := Nat.le_succ _
    others := Pool.sameBut_opened top
    tickets := fun k' other => tickets_withRequest_of_ne _ _ _ other
    issued := Nat.lt_succ_self _, number := (congrArg UInt32.toNat seq).trans number
    apart := fun j _ busy => Nat.ne_of_lt (h.issued j busy)
    alone := ?alone, held := ?held, abandoned := ?abandoned, ticket := ?ticket }
  case next =>
    show s.pool.nextSeq + 1 = UInt32.ofNat (s.started + 1)
    rw [h.next, UInt32.ofNat_add]
    rfl
  case alone =>
    rintro k' t - mine unfinished rfl
    exact (h.awaited k' t mine unfinished).2.ne_free (h.listed.stateOf_top top)
  case held =>
    intro _
    rw [tickets_withRequest_self, ← seq]
    rfl
  case abandoned =>
    intro abandoned
    change (s.pool.opened i free).stateOf i = .abandoned at abandoned
    rw [state] at abandoned
    cases abandoned
  case ticket =>
    intro t mine
    rw [tickets_withRequest_self] at mine
    cases mine
    refine ⟨seq.symm, fun _ => ⟨rfl, ?_⟩⟩
    show ((s.pool.opened i free).stateOf i).IsHeld
    rw [state]
    trivial

theorem answered (h : s.Sound) {i : Fin n} {rest : List (UInt32 × Fin n)}
    (waiting : s.pool.stateOf i = .waiting) (without : s.pool.Without i rest)
    (result : Answer Reply) :
    Sound { s with pool := (s.pool.withPending rest).setState i (.done result) } := by
  have busy : s.pool.stateOf i ≠ .free := by simp [waiting]
  have mine : s.tickets (s.owner i) = some ⟨i, s.pool.seqOf i, false⟩ := by
    apply h.held i
    simp [waiting]
  have done : ((s.pool.withPending rest).setState i (.done result)).stateOf i = .done result :=
    Pool.stateOf_setState_self _ i _
  have others := without.sameBut.trans (Pool.sameBut_setState _ i (.done result))
  rw [← withTicket_tickets s _ (s.owner i)]
  refine h.changed busy (h.listed.settled busy without result) rfl others
    (Pool.seqOf_setState _ i i _) (fun _ => mine) ?_ ?_
  · intro abandoned
    rw [done] at abandoned
    cases abandoned
  · intro t own
    rw [mine] at own
    cases own
    simp [done]

theorem forsaken (h : s.Sound) {i : Fin n} (waiting : s.pool.stateOf i = .waiting) :
    (s.withTicket (s.pool.setState i .abandoned) (s.owner i) none).Sound := by
  have busy : s.pool.stateOf i ≠ .free := by simp [waiting]
  have abandoned : (s.pool.setState i .abandoned).stateOf i = .abandoned :=
    Pool.stateOf_setState_self _ i _
  refine h.changed busy (h.listed.forsaken waiting) rfl (Pool.sameBut_setState _ i _)
    (Pool.seqOf_setState _ i i _) ?_ (fun _ => rfl) (by simp)
  intro held
  rw [abandoned] at held
  exact held.elim

theorem forgotten (h : s.Sound) {k : Nat} {t : Ticket n} (mine : s.tickets k = some t)
    (finished : t.finished = true) : (s.withTicket s.pool k none).Sound := by
  -- A slot that is held has an unfinished ticket, so it is another one.
  have apart {i : Fin n} (held : (s.pool.stateOf i).IsHeld) : s.owner i ≠ k := by
    rintro rfl
    obtain rfl : ⟨i, s.pool.seqOf i, false⟩ = t := Option.some.inj ((h.held i held).symm.trans mine)
    cases finished
  have before {k' : Nat} {t' : Ticket n}
      (own : (s.withTicket s.pool k none).tickets k' = some t') : s.tickets k' = some t' := by
    rcases of_tickets_withTicket own with ⟨-, ⟨⟩⟩ | ⟨-, own⟩
    exact own
  refine {
    listed := h.listed, few := h.few, next := h.next, issued := h.issued, distinct := h.distinct
    held := ?held, abandoned := ?abandoned
    numbered := fun k' t' own => h.numbered k' t' (before own)
    awaited := fun k' t' own unfinished => h.awaited k' t' (before own) unfinished }
  case held =>
    intro i held
    show (s.withTicket s.pool k none).tickets (s.owner i) = some ⟨i, s.pool.seqOf i, false⟩
    rw [tickets_withTicket_of_ne _ _ _ (apart held)]
    exact h.held i held
  case abandoned =>
    intro i abandoned
    show (s.withTicket s.pool k none).tickets (s.owner i) = none
    by_cases same : s.owner i = k
    · rw [same, tickets_withTicket_self]
    · rw [tickets_withTicket_of_ne _ _ _ same]
      exact h.abandoned i abandoned

end Sound

/-- A call leaves a session sound. -/
theorem Effect.sound {s s' : Session n} {c : Call} {r : Report} (effect : s.Effect c r s')
    (h : s.Sound) (few : s'.started ≤ UInt32.size) : s'.Sound := by
  cases effect with
  | refused _ => exact h
  | unknown _ => exact h
  | seen _ => exact h
  | collectedBefore _ _ => exact h
  | notYet _ _ _ => exact h
  | started top => exact h.opened top few
  | answered _ waiting without => exact h.answered waiting without _
  | @late m i rest _ abandoned without =>
    rw [← withTicket_tickets s _ (s.owner i), h.abandoned i abandoned]
    exact h.recycled (by simp [abandoned]) without (by simp)
  | @collected k t result mine unfinished done =>
    obtain rfl := h.owner_of_awaited mine unfinished
    apply h.recycled (by simp [done]) (h.listed.without_self (by simp [done]))
    intro t' own
    cases own
    exact ⟨(h.awaited _ t mine unfinished).1.symm, rfl⟩
  | @withdrawn k t rest mine unfinished without =>
    obtain rfl := h.owner_of_awaited mine unfinished
    exact h.recycled (h.awaited _ t mine unfinished).2.ne_free without (by simp)
  | forgotten mine finished => exact h.forgotten mine finished
  | @abandoned k t mine unfinished waiting =>
    obtain rfl := h.owner_of_awaited mine unfinished
    exact h.forsaken waiting
  | @discarded k t result mine unfinished done =>
    obtain rfl := h.owner_of_awaited mine unfinished
    exact h.recycled (by simp [done])
      (h.listed.without_self (by simp [done])) (by simp)

theorem Step.started_le {s s' : Session n} {c : Call} {r : Report} (step : s.Step c r s') :
    s.started ≤ s'.started := by
  cases step with
  | started _ => exact Nat.le_succ _
  | _ => exact Nat.le_refl _

theorem Sound.start (n : Nat) : ({} : Session n).Sound := by
  have free (i : Fin n) : ({} : Pool n).stateOf i = .free :=
    ((Pool.Listed.init n).free i).mp (List.mem_finRange i)
  refine {
    listed := Pool.Listed.init n, few := Nat.zero_le _, next := rfl
    issued := fun i busy => absurd (free i) busy, distinct := fun i j busy => absurd (free i) busy
    held := fun i held => absurd (free i) held.ne_free, abandoned := fun i _ => rfl
    numbered := ?numbered, awaited := ?awaited }
  case numbered =>
    intro k t mine
    cases mine
  case awaited =>
    intro k t mine
    cases mine

/-- Every session that calls lead to is sound, as long as the sequence numbers did not run out. -/
theorem Run.sound {s : Session n} {past : List Event} (run : Run past s)
    (few : s.started ≤ UInt32.size) : s.Sound := by
  induction run with
  | start => exact Sound.start n
  | call _ step ih =>
    have before := ih (step.started_le.trans few)
    exact (before.effect step).sound before few

end Session

end InterCore.Client
