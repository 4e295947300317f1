import InterCore.Proofs.Client.Requests
import InterCore.Proofs.Config.Sequential

/-!
# A client that is served

A blocking client has its link to itself, and a server answers each of its requests before the wait
for it ends (`Surroundings.Serves`). So a request gives what the server tells, with what it does to
the store, and the pool is as idle as before (`Serves.request`). A query comes to one such request,
or is answered without any (`Serves.perform`).
-/

namespace InterCore

open Config (Message Reply Request RequestKind)

variable {S : Type} [VarStore S]

/-! ## The answer to a request -/

namespace Config.Server

theorem index?_ofNat {count i : Nat} (inside : i < count) (small : i < 0x80000000) :
    index? count (Int32.ofNat i) = some i :=
  index?_eq_some.mpr ⟨Int32.toInt_ofNat_of_lt small, inside⟩

/-- What a client learns from a request, and the store after it. The sequence number makes no
difference. -/
def answerTo (store : S) (q : Request) : Answer Reply × S :=
  (Reply.ofMessage (handle store (q.toMessage 0)).1, (handle store (q.toMessage 0)).2)

theorem handle_toMessage (store : S) (q : Request) (seq : UInt32) :
    (handle store (q.toMessage seq)).1.seq = seq ∧
      (Reply.ofMessage (handle store (q.toMessage seq)).1, (handle store (q.toMessage seq)).2) =
        answerTo store q := by
  have asked (seq : UInt32) := requestKind_toMessage q seq
  have spot (seq : UInt32) : (q.toMessage seq).index = q.index := rfl
  cases found : index? (VarStore.count store) q.index with
  | none =>
    cases kind : q.kind <;> simp only [answerTo, handle, asked, kind, spot, found] <;>
      exact ⟨rfl, rfl⟩
  | some i =>
    cases kind : q.kind <;> simp only [answerTo, handle, asked, kind, spot, found] <;>
      exact ⟨rfl, rfl⟩

end Config.Server

namespace Client

open Config.Server

variable {n : Nat} {W : Type} {shape : Shape}

/-! ## An idle pool -/

/-- A pool with a free slot, in which no request waits for its response. -/
structure Pool.Idle (p : Pool n) : Prop where
  listed : p.Listed
  room : p.free ≠ []
  quiet : p.pending = []

namespace Pool.Idle

variable {p : Pool n}

theorem init (some : 0 < n) : ({} : Pool n).Idle := by
  refine ⟨Listed.init n, ?_, rfl⟩
  intro none
  have size := congrArg List.length none
  rw [List.length_finRange] at size
  exact Nat.ne_of_gt some size

theorem cacheCount (idle : p.Idle) (count : Nat) : (p.cacheCount count).Idle :=
  ⟨idle.listed.cacheCount count, idle.room, idle.quiet⟩

/-- A request that waits alone is settled by its response. -/
theorem complete_alone {i : Fin n} {m : Message} (listed : p.Listed)
    (alone : p.pending = [(m.seq, i)]) (waiting : p.stateOf i = .waiting) :
    p.Without i [] ∧
      p.complete m = (.ok (), (p.withPending []).setState i (.done (Reply.ofMessage m))) := by
  rcases listed.complete_cases m with ⟨unknown, -⟩ |
    ⟨j, rest, mem, without, ⟨-, settled⟩ | ⟨abandoned, -⟩⟩
  · refine absurd ?_ (unknown i)
    rw [alone]
    exact List.mem_cons_self
  all_goals
    rw [alone, List.mem_singleton] at mem
    obtain ⟨-, rfl⟩ := Prod.mk.inj mem
  · have none : rest = [] := by
      refine List.eq_nil_iff_forall_not_mem.mpr ?_
      rintro ⟨seq, k⟩ mem'
      obtain ⟨before, apart⟩ := (without.mem seq k).mp mem'
      rw [alone, List.mem_singleton] at before
      exact apart (Prod.mk.inj before).2
    rw [none] at without settled
    exact ⟨without, settled⟩
  · rw [waiting] at abandoned
    cases abandoned

/-- The request that an idle pool starts is settled by its response. Its caller has the reply then,
and leaves the pool idle. -/
theorem settles (idle : p.Idle) : ∃ t p', p.start = (.ok t, p') ∧
    ∀ m : Message, m.seq = t.seq → ∃ q, Blocking.collect t (p'.complete m).2 =
      (Reply.ofMessage m, q) ∧ q.Idle ∧ q.count = p.count := by
  rcases idle.listed.start_cases with ⟨none, -⟩ | ⟨i, free, top, opened⟩
  · exact absurd none idle.room
  · refine ⟨_, _, opened, ?_⟩
    intro m number
    have listed := idle.listed.opened top
    have waiting : (p.opened i free).stateOf i = .waiting := by
      rw [stateOf_opened, if_pos rfl]
    have alone : (p.opened i free).pending = [(m.seq, i)] := by
      show p.pending ++ [(p.nextSeq, i)] = _
      rw [idle.quiet, number, List.nil_append]
    obtain ⟨without, settled⟩ := complete_alone listed alone waiting
    have done := stateOf_setState_self ((p.opened i free).withPending []) i
      (.done (Reply.ofMessage m))
    have after := listed.settled (by simp [waiting]) without (Reply.ofMessage m)
    have freed := after.frees_of_isDone (i := i) (by simp [done])
    rw [settled, Blocking.collect, Ticket.take?_done rfl done]
    refine ⟨_, rfl, ⟨?_, ?_, ?_⟩, freed.count⟩
    · exact after.recycle (by simp [done]) (after.without_self (by simp [done]))
    · rw [freed.free]
      exact List.cons_ne_nil _ _
    · exact pending_recycle _ i

end Pool.Idle

/-! ## Surroundings with a server -/

/-- Surroundings with a server. Their state is `At` a store and the requests that were answered. A
request of an idle pool is sent, and when the wait for it is over, its response has come in and
nothing else. -/
structure Surroundings.Serves (s : Surroundings (Around W) n) (At : W → S → List Request → Prop) :
    Prop where
  answers : ∀ {p p' : Pool n} {t : Ticket n} {w : W} {store : S} {past : List Request}
    (q : Request), p.Idle → p.start = (.ok t, p') → At w store past →
      ∃ sent w' w'', s.send (t.message q.kind q.index q.value) p' w = .ok ((.ok (), sent), w') ∧
        s.waitFor t sent w' =
          .ok ((.ok (), (p'.complete (handle store (q.toMessage t.seq)).1).2), w'') ∧
        At w'' (handle store (q.toMessage t.seq)).2 (past ++ [q])

/-- The index of a variable is sent if it is a 32-bit number. -/
theorem Plan.forVariable_of_lt {α : Type} {i : Nat} (small : i < 0x80000000) (kind : RequestKind)
    (value : Int32) : (forVariable i kind value : Plan α) = .ask kind (Int32.ofNat i) value := by
  have within : i ≤ Int32.maxValue.toInt.toNat := Nat.le_of_lt_succ small
  rw [forVariable, indexArg, if_pos within]

theorem Plan.forVariable_of_le {α : Type} {i : Nat} (large : 0x80000000 ≤ i) (kind : RequestKind)
    (value : Int32) : (forVariable i kind value : Plan α) = .answered (.error .badIndex) := by
  have beyond : ¬i ≤ Int32.maxValue.toInt.toNat := Nat.not_le.mpr large
  rw [forVariable, indexArg, if_neg beyond]

/-- What a query makes of the answer to its request. -/
def Query.conclude (q : Query shape) (p : Pool n) : Answer Reply → Answer shape.Result × Pool n
  | .error e => (.error e, p)
  | .ok reply => q.settle p reply

section Serves

variable {s : Surroundings (Around W) n} {At : W → S → List Request → Prop} {p : Pool n} {w : W}
  {store : S} {past : List Request}

/-- What follows a call goes on with its answer and what it left. -/
theorem onPool_bind_of_ok {α β : Type} {x : OnPool (Around W) n α} {f : α → OnPool (Around W) n β}
    {p' : Pool n} {w' : W} {a : α} (run : x p w = .ok ((a, p'), w')) :
    (x >>= f) p w = f a p' w' := by
  show (x p >>= fun r => f r.1 r.2) w = _
  rw [bind_of_ok run]

theorem Blocking.perform_of_answered {q : Query shape} {answer : Answer shape.Result}
    (known : q.plan p.count = .answered answer) : perform s q p w = .ok ((answer, p), w) := by
  have got : (get : OnPool (Around W) n (Pool n)) p w = .ok ((p, p), w) := rfl
  refine (onPool_bind_of_ok got).trans ?_
  rw [known]
  rfl

theorem Blocking.perform_of_request {q : Query shape} {kind : RequestKind} {index value : Int32}
    {answer : Answer Reply} {p' : Pool n} {w' : W} (asked : q.plan p.count = .ask kind index value)
    (run : request s kind index value p w = .ok ((answer, p'), w')) :
    perform s q p w = .ok (q.conclude p' answer, w') := by
  have got : (get : OnPool (Around W) n (Pool n)) p w = .ok ((p, p), w) := rfl
  refine (onPool_bind_of_ok got).trans ?_
  rw [asked]
  refine (onPool_bind_of_ok run).trans ?_
  cases answer <;> rfl

namespace Surroundings.Serves

variable (serves : s.Serves At) (idle : p.Idle) (here : At w store past)

include serves idle here

/-- A request gives what the server tells. -/
theorem request (q : Request) :
    ∃ p' w', Blocking.request s q.kind q.index q.value p w =
        .ok (((answerTo store q).1, p'), w') ∧
      p'.Idle ∧ p'.count = p.count ∧ At w' (answerTo store q).2 (past ++ [q]) := by
  obtain ⟨t, p', started, settles⟩ := idle.settles
  obtain ⟨sent, w', w'', send, waitFor, after⟩ := serves.answers q idle started here
  obtain ⟨number, told⟩ := handle_toMessage store q t.seq
  obtain ⟨left, collected, idle', count⟩ := settles _ number
  rw [← told]
  refine ⟨left, w'', ?_, idle', count, after⟩
  rw [Blocking.request_eq, started]
  refine (bind_of_ok send).trans ((bind_of_ok waitFor).trans ?_)
  exact congrArg (fun r => Except.ok (r, w'')) collected

/-- A query whose answer is not known comes to one request. -/
theorem perform {q : Query shape} {kind : RequestKind} {index value : Int32}
    (asked : q.plan p.count = .ask kind index value) :
    ∃ p' w', Blocking.perform s q p w =
        .ok (q.conclude p' (answerTo store ⟨kind, index, value⟩).1, w') ∧
      p'.Idle ∧ p'.count = p.count ∧
      At w' (answerTo store ⟨kind, index, value⟩).2 (past ++ [⟨kind, index, value⟩]) := by
  obtain ⟨p', w', run, after⟩ := serves.request idle here ⟨kind, index, value⟩
  exact ⟨p', w', Blocking.perform_of_request asked run, after⟩

end Surroundings.Serves

end Serves

/-! ## A server at hand -/

/-- A store whose server answers a message as soon as it is sent, with the requests that came and
the responses that are still to be fetched. -/
structure Desk (S : Type) where
  store : S
  requests : List Request := []
  responses : List (List UInt8) := []

namespace Desk

/-- The request that a message comes to, if its kind is known. -/
def noted (bytes : List UInt8) : List Request :=
  match Message.decode bytes with
  | .error _ => []
  | .ok m =>
    match m.requestKind with
    | .error _ => []
    | .ok kind => [⟨kind, m.index, m.value⟩]

/-- Takes a message to the server. -/
def hand (d : Desk S) (bytes : List UInt8) : Desk S :=
  ⟨(receive d.store bytes).2, d.requests ++ noted bytes, d.responses ++ (receive d.store bytes).1⟩

/-- Surroundings whose server is at hand. A wait fetches the responses. -/
def surroundings : Surroundings (Around (Desk S)) n where
  send bytes p d := .ok ((.ok (), p), d.hand bytes)
  waitFor _ p d := .ok ((.ok (), p.receiveAll d.responses), { d with responses := [] })

/-- Nothing is left to be fetched. -/
def IsAt (d : Desk S) (store : S) (past : List Request) : Prop :=
  d = ⟨store, past, []⟩

theorem hand_request (d : Desk S) (q : Request) (seq : UInt32) :
    d.hand (q.toMessage seq).encode =
      ⟨(handle d.store (q.toMessage seq)).2, d.requests ++ [q],
        d.responses ++ [(handle d.store (q.toMessage seq)).1.encode]⟩ := by
  rw [hand, receive, noted, Message.decode_encode]
  dsimp only
  rw [requestKind_toMessage]
  rfl

theorem serves : (surroundings (n := n) (S := S)).Serves IsAt := by
  constructor
  rintro p p' t w store past q - - rfl
  have handed := hand_request ⟨store, past, []⟩ q t.seq
  dsimp only at handed
  generalize handle store (q.toMessage t.seq) = told at handed ⊢
  obtain ⟨rsp, store'⟩ := told
  have fetched : p'.receiveAll [rsp.encode] = (p'.complete rsp).2 := by
    show (p'.receive rsp.encode).2 = _
    rw [Pool.receive_encode]
  refine ⟨p', ⟨store', past ++ [q], [rsp.encode]⟩, ⟨store', past ++ [q], []⟩, ?_, ?_, rfl⟩
  · exact congrArg (fun d => Except.ok ((Except.ok (), p'), d)) handed
  · rw [← fetched]
    rfl

end Desk

end Client

end InterCore
