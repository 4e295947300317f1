import InterCore.Proofs.Client.Blocking
import InterCore.Proofs.Client.Collected
import InterCore.Proofs.Client.Paths

/-!
# Messages from the channel

Whatever bytes come in, they are refused and nothing changes, or they are the response to one
request that is pending, and exactly that request is settled. A message that comes again is refused,
unless a request was started in between, as long as the sequence numbers have not run out. After
they have, two requests may be pending under one number, and each of them takes the message in.
-/

namespace InterCore.Client

open InterCore.Config (Message Reply messageSize)

variable {n : Nat}

/-- Why a message is refused. -/
def refusal (bytes : List UInt8) : Error :=
  if bytes.length = messageSize then .unknownSequence else .protocol

namespace Pool

variable {p q : Pool n} {bytes : List UInt8} {m : Message} {i : Fin n}

/-- A message of the full size begins with a sequence number that is pending. -/
def Expects (p : Pool n) (bytes : List UInt8) : Prop :=
  bytes.length = messageSize ∧ LittleEndian.decode32 bytes ∈ p.pending.map Prod.fst

/-- A message settles the request in slot `i`: its entry leaves the pending list, and the slot has
the result, or is free if nobody waits for it. All else is as it was. -/
structure TakesIn (p : Pool n) (m : Message) (i : Fin n) (q : Pool n) : Prop where
  entry : ((m.seq, i) :: q.pending).Perm p.pending
  slot : p.stateOf i = .waiting ∧ q.stateOf i = .done (Reply.ofMessage m) ∧ q.free = p.free ∨
    p.stateOf i = .abandoned ∧ q.stateOf i = .free ∧ q.free = i :: p.free
  number : q.seqOf i = p.seqOf i
  others : ∀ j, j ≠ i → q.slots.get j = p.slots.get j
  nextSeq : q.nextSeq = p.nextSeq
  count : q.count = p.count

theorem Listed.takesIn (h : p.Listed) (expected : m.seq ∈ p.pending.map Prod.fst) :
    ∃ i q, p.complete m = (.ok (), q) ∧ p.TakesIn m i q := by
  rcases h.complete_cases m with ⟨unknown, -⟩ |
    ⟨i, rest, mem, without, ⟨waiting, settled⟩ | ⟨abandoned, late⟩⟩
  · obtain ⟨⟨seq, i⟩, mem, rfl⟩ := List.mem_map.mp expected
    exact absurd mem (unknown i)
  · have others := without.sameBut.trans (sameBut_setState _ i (.done (Reply.ofMessage m)))
    refine ⟨i, _, settled, h.perm_without mem without, .inl ⟨waiting, ?_, rfl⟩,
      seqOf_setState _ i i _, fun j => others.slot_eq, rfl, rfl⟩
    exact stateOf_setState_self _ i _
  · have freed := h.frees (by simp [abandoned]) without
    refine ⟨i, _, late, ?_, .inr ⟨abandoned, freed.state, freed.free⟩, seqOf_recycle _ i i,
      fun j => freed.others.slot_eq, freed.nextSeq, freed.count⟩
    rw [pending_recycle]
    exact h.perm_without mem without

theorem decodeResponse_of_length (full : bytes.length = messageSize) :
    ∃ m, Message.decode bytes = .ok m ∧ m.seq = LittleEndian.decode32 bytes ∧
      decodeResponse bytes = .ok m := by
  have long : ¬bytes.length < Config.headerSize := by
    rw [full]
    decide
  rw [decodeResponse, if_pos full, Message.decode, if_neg long]
  exact ⟨_, rfl, rfl, rfl⟩

theorem Listed.receive_of_expects (h : p.Listed) (expected : p.Expects bytes) :
    ∃ m i q, Message.decode bytes = .ok m ∧ m.seq = LittleEndian.decode32 bytes ∧
      p.receive bytes = (.ok (), q) ∧ p.TakesIn m i q := by
  obtain ⟨m, decoded, seq, response⟩ := decodeResponse_of_length expected.1
  have pending := expected.2
  rw [← seq] at pending
  obtain ⟨i, q, settled, takesIn⟩ := h.takesIn pending
  refine ⟨m, i, q, decoded, seq, ?_, takesIn⟩
  rw [receive, response]
  exact settled

theorem Listed.receive_of_not_expects (h : p.Listed) (unexpected : ¬p.Expects bytes) :
    p.receive bytes = (.error (refusal bytes), p) := by
  rw [receive, refusal]
  by_cases full : bytes.length = messageSize
  · obtain ⟨m, -, seq, response⟩ := decodeResponse_of_length full
    rw [response, if_pos full]
    rcases h.complete_cases m with ⟨-, refused⟩ | ⟨i, rest, mem, -⟩
    · exact refused
    · refine absurd ⟨full, ?_⟩ unexpected
      rw [← seq]
      exact List.mem_map_of_mem mem
  · rw [decodeResponse, if_neg full, if_neg full]

/-- The number of a message that was taken in is pending no more. -/
theorem TakesIn.not_pending (taken : p.TakesIn m i q) (distinct : (p.pending.map Prod.fst).Nodup) :
    m.seq ∉ q.pending.map Prod.fst := by
  have numbers := (taken.entry.map Prod.fst).nodup_iff.mpr distinct
  exact (List.nodup_cons.mp numbers).1

end Pool

namespace Session

variable {s s' : Session n} {during : List Event} {bytes : List UInt8}

/-- A message that comes in is a response that is handed to the pool, or makes no difference. -/
theorem Path.receive {may : Call → Prop} (path : s.Path may during s')
    (allowed : ∀ m, may (.complete m)) (bytes : List UInt8) :
    ∃ during', s.Path may during' { s' with pool := (s'.pool.receive bytes).2 } := by
  rw [Pool.receive]
  cases decodeResponse bytes with
  | error e => exact ⟨during, path⟩
  | ok m => exact ⟨_, path.call (allowed m) (.complete m)⟩

/-- Only a request that is started comes onto the pending list. -/
theorem Effect.pending_subset {c : Call} {r : Report} (effect : s.Effect c r s')
    (noStart : c ≠ .start) : s'.pool.pending ⊆ s.pool.pending := by
  have off {i : Fin n} {rest : List (UInt32 × Fin n)} (without : s.pool.Without i rest) :
      rest ⊆ s.pool.pending := by
    rintro ⟨seq, j⟩ mem
    exact ((without.mem seq j).mp mem).1
  cases effect with
  | refused _ => exact absurd rfl noStart
  | started _ => exact absurd rfl noStart
  | answered _ _ without => exact off without
  | late _ _ without =>
    simp only [Pool.pending_recycle]
    exact off without
  | withdrawn _ _ without =>
    simp only [withTicket, Pool.pending_recycle]
    exact off without
  | collected _ _ _ => simp [withTicket]
  | discarded _ _ _ => simp [withTicket]
  | _ => exact List.Subset.refl _

theorem Path.pending_subset (path : s.Path (· ≠ .start) during s') (h : s.Leased) :
    s'.pool.pending ⊆ s.pool.pending := by
  induction path with
  | nil => exact List.Subset.refl _
  | call before noStart step ih =>
    exact List.Subset.trans (((before.leased h).effect step).pending_subset noStart) ih
  | counted _ _ ih => exact ih

/-- A message that has come in is not expected again before another request is started. -/
theorem Leased.refused_again (h : s.Leased) (distinct : (s.pool.pending.map Prod.fst).Nodup)
    (path : Path (· ≠ .start) { s with pool := (s.pool.receive bytes).2 } during s') :
    ∃ e, s'.pool.receive bytes = (.error e, s'.pool) := by
  have stays : Path (fun _ => True) s [] s := .nil
  obtain ⟨_, received⟩ := stays.receive (fun _ => trivial) bytes
  have leased := received.leased h
  have fewer := path.pending_subset leased
  refine ⟨_, (path.leased leased).listed.receive_of_not_expects ?_⟩
  rintro ⟨full, pending⟩
  have before := List.map_subset Prod.fst fewer pending
  by_cases expected : s.pool.Expects bytes
  · obtain ⟨m, i, q, -, seq, taken, takesIn⟩ := h.listed.receive_of_expects expected
    rw [taken, ← seq] at before
    exact takesIn.not_pending distinct before
  · rw [h.listed.receive_of_not_expects expected] at before
    exact expected ⟨full, before⟩

end Session

/-- A message is taken in just when it has the full size and a number that is pending. Then it
settles one request that is pending under the number, and the callers are woken. Any other is
refused and changes nothing, and nobody is woken. If the pending numbers are different, as they are
until the numbers have run out, the same message is refused again, whatever happens in between but
the start of a request. -/
theorem message_taken_in_once {past : List Event} {s : Session n} (reached : s.Reached past)
    (bytes : List UInt8) :
    ((s.pool.receive bytes).1 = .ok () ↔
        bytes.length = 420 ∧ LittleEndian.decode32 bytes ∈ s.pool.pending.map Prod.fst) ∧
      ((s.pool.receive bytes).1 = .ok () →
        ∃ m i q, Message.decode bytes = .ok m ∧ m.seq = LittleEndian.decode32 bytes ∧
          s.pool.receive bytes = (.ok (), q) ∧ s.pool.TakesIn m i q) ∧
      ((s.pool.receive bytes).1 ≠ .ok () → s.pool.receive bytes =
        (.error (if bytes.length = 420 then .unknownSequence else .protocol), s.pool)) ∧
      (∀ (m : Type → Type) [Monad m] [LawfulMonad m] (wakeAll : OnPool m n Unit),
        Blocking.onMessage wakeAll bytes s.pool =
          match s.pool.receive bytes with
          | (.error e, q) => pure (.error e, q)
          | (.ok (), q) => (fun woken => (.ok (), woken.2)) <$> wakeAll q) ∧
      (s.started ≤ UInt32.size → (s.pool.pending.map Prod.fst).Nodup) ∧
      ((s.pool.pending.map Prod.fst).Nodup → ∀ during s',
        Session.Path (· ≠ .start) { s with pool := (s.pool.receive bytes).2 } during s' →
          ∃ e, s'.pool.receive bytes = (.error e, s'.pool)) := by
  have leased := reached.leased
  have accepted : (s.pool.receive bytes).1 = .ok () ↔ s.pool.Expects bytes := by
    constructor
    · intro accepted
      by_contra unexpected
      rw [leased.listed.receive_of_not_expects unexpected] at accepted
      cases accepted
    · intro expected
      obtain ⟨m, i, q, -, -, taken, -⟩ := leased.listed.receive_of_expects expected
      rw [taken]
  refine ⟨accepted, fun taken => leased.listed.receive_of_expects (accepted.mp taken),
    fun refused => leased.listed.receive_of_not_expects fun expected => refused (accepted.mpr expected),
    fun m _ _ wakeAll => Blocking.onMessage_apply wakeAll bytes s.pool,
    fun few => (reached.sound few).partitioned.distinct, ?_⟩
  intro distinct during s' path
  exact leased.refused_again distinct path

/-- The response to a request that was given up, while another one is outstanding. -/
theorem message_taken_in_once_of_late :
    ∃ s : Session 2,
      s.Reached [(.start, .started 0), (.start, .started 1), (.drop 0, .done)] ∧
        (s.pool.receive (Message.response 0 .ok 0 5).encode).1 = .ok () ∧
        ∃ m i q, m.seq = 0 ∧ s.pool.TakesIn m i q ∧
          ∃ e, q.receive (Message.response 0 .ok 0 5).encode = (.error e, q) := by
  have run₁ := (Session.Run.start (n := 2)).call (.started rfl)
  have run₂ := run₁.call (.started rfl)
  have run₃ := run₂.call (.drop (k := 0) rfl)
  have few : 2 ≤ UInt32.size := by decide
  obtain ⟨accepts, takesIn, -, -, distinct, again⟩ :=
    message_taken_in_once run₃.reached (Message.response 0 .ok 0 5).encode
  have number := Message.decode32_encode (.response 0 .ok 0 5)
  have accepted := accepts.mpr ⟨Message.length_encode _, by rw [number]; exact List.mem_cons_self⟩
  obtain ⟨m, i, q, -, seq, taken, settled⟩ := takesIn accepted
  obtain ⟨e, refused⟩ := again (distinct few) [] _ .nil
  rw [taken] at refused
  exact ⟨_, run₃.reached, accepted, m, i, q, seq.trans number, settled, e, refused⟩

/-! ## When the numbers have run out -/

/-- The first request is given up, and after it `k` requests are started and withdrawn. -/
def withdrawals : Nat → List Event
  | 0 => [(.start, .started 0), (.drop 0, .done)]
  | k + 1 =>
    withdrawals k ++ [(.start, .started (UInt32.ofNat (k + 1)))] ++ [(.cancel (k + 1), .done)]

namespace Session

/-- Of the `k` requests that were started the first is pending, and the others are gone. -/
structure FirstPending (s : Session 2) (k : Nat) : Prop where
  started : s.started = k
  next : s.pool.nextSeq = UInt32.ofNat k
  free : s.pool.free = [1]
  pending : s.pool.pending = [(0, 0)]

namespace FirstPending

variable {s : Session 2} {k : Nat}

/-- The next request gets the other slot, whatever its number is. -/
theorem start (h : s.FirstPending k) (leased : s.Leased) :
    s.Step .start (.started (UInt32.ofNat k))
      (s.withRequest (s.pool.opened 1 []) ⟨1, UInt32.ofNat k, false⟩) := by
  rcases leased.listed.start_cases with ⟨none, -⟩ | ⟨i, free, top, opened⟩
  · rw [h.free] at none
    cases none
  · rw [h.free] at top
    cases top
    rw [h.next] at opened
    exact .started opened

theorem pending_opened (h : s.FirstPending k) :
    (s.pool.opened 1 []).pending = [(0, 0), (UInt32.ofNat k, 1)] := by
  show s.pool.pending ++ [(s.pool.nextSeq, 1)] = _
  rw [h.pending, h.next]
  rfl

/-- A request that is started and withdrawn leaves the first one pending. -/
theorem withdraw (h : s.FirstPending k) {past : List Event} (run : Run past s) :
    ∃ s' : Session 2,
      Run (past ++ [(.start, .started (UInt32.ofNat k))] ++ [(.cancel k, .done)]) s' ∧
        s'.FirstPending (k + 1) := by
  have begun := run.call (h.start run.reached.leased)
  have leased := begun.reached.leased
  have mine := tickets_withRequest_self s (s.pool.opened 1 []) ⟨1, UInt32.ofNat k, false⟩
  have withdrawn := begun.call (.cancel mine rfl)
  obtain ⟨rest, cancelled, without⟩ := leased.listed.cancel ⟨1, UInt32.ofNat k, false⟩
  rw [cancelled, h.started] at withdrawn
  refine ⟨_, withdrawn, congrArg (· + 1) h.started, ?next, ?free, ?pending⟩
  case next =>
    show (((s.pool.opened 1 []).withPending rest).recycle 1).nextSeq = _
    rw [Pool.nextSeq_recycle]
    show s.pool.nextSeq + 1 = _
    rw [h.next]
    exact (UInt32.ofNat_add k 1).symm
  case free =>
    have busy : (s.pool.opened 1 []).stateOf 1 ≠ .free := by simp [Pool.stateOf_opened]
    exact leased.listed.free_recycle busy
  case pending =>
    show (((s.pool.opened 1 []).withPending rest).recycle 1).pending = _
    rw [Pool.pending_recycle]
    have listed : (UInt32.ofNat k, 1) ∈ (s.pool.opened 1 []).pending := by
      rw [h.pending_opened]
      simp
    have perm := leased.listed.perm_without listed without
    exact List.perm_singleton.mp
      ((perm.trans (h.pending_opened ▸ List.Perm.swap _ _ _)).cons_inv)

end FirstPending

/-- Any number of requests may be started while the first one is pending. -/
theorem exists_withdrawals (k : Nat) :
    ∃ s : Session 2, Run (withdrawals k) s ∧ s.FirstPending (k + 1) := by
  induction k with
  | zero =>
    have run₁ := (Run.start (n := 2)).call (.started rfl)
    have run₂ := run₁.call (.drop (k := 0) rfl)
    exact ⟨_, run₂, rfl, rfl, rfl, rfl⟩
  | succ k ih =>
    obtain ⟨s, run, pending⟩ := ih
    exact pending.withdraw run

/-- After all numbers were given out, two requests are pending under the number 0. -/
theorem exists_same_number :
    ∃ s : Session 2, Run (withdrawals (UInt32.size - 1) ++ [(.start, .started 0)]) s ∧
      s.pool.pending = [(0, 0), (0, 1)] := by
  obtain ⟨s, run, pending⟩ := exists_withdrawals (UInt32.size - 1)
  have zero : UInt32.ofNat (UInt32.size - 1 + 1) = 0 := rfl
  have start := pending.start run.reached.leased
  have both := pending.pending_opened
  rw [zero] at start both
  exact ⟨_, run.call start, both⟩

end Session

/-- A request is withdrawn although its result was collected, and another one is given up. -/
def overfilled : List Event :=
  [(.start, .started 0), (.start, .started 1),
    (.complete (.response 0 .value 0 5), .completed (.ok ())),
    (.take 0, .taken (some (Reply.ofMessage (.response 0 .value 0 5)))), (.cancel 0, .done),
    (.drop 1, .done)]

/-- The list of free slots is full, with slot 0 on it twice, when the response for slot 1 comes. -/
theorem exists_overfilled :
    ∃ s : Session 2, Session.FreeRun overfilled s ∧ s.pool.stateOf 1 = .abandoned ∧
      ∃ q, s.pool.complete (.response 1 .value 0 7) = (.ok (), q) ∧ q.stateOf 1 = .free ∧
        q.free = [0, 0] := by
  have run₁ := (Session.FreeRun.start (n := 2)).call (.call (.started rfl))
  have run₂ := run₁.call (.call (.started rfl))
  have run₃ := run₂.call (.call (.complete (.response 0 .value 0 5)))
  have run₄ := run₃.call (.call (.take (k := 0) rfl))
  have run₅ := run₄.call (.withdrawn (k := 0) rfl rfl)
  have run₆ := run₅.call (.call (.drop (k := 1) rfl))
  exact ⟨_, run₆, rfl, _, rfl, rfl, rfl⟩

/-- Not every message is taken in once. When the numbers have run out, the same message settles one
request after the other that has its number. And a late response does not release its slot if the
list of free slots is full, as it may be after a request was withdrawn whose result was
collected. -/
theorem message_taken_in_twice :
    (∃ s : Session 2, Session.Run (withdrawals (UInt32.size - 1) ++ [(.start, .started 0)]) s ∧
      ∃ q r : Pool 2,
        s.pool.receive (Message.response 0 .ok 0 5).encode = (.ok (), q) ∧
          q.receive (Message.response 0 .ok 0 5).encode = (.ok (), r)) ∧
      ∃ s : Session 2, Session.FreeRun overfilled s ∧ s.pool.stateOf 1 = .abandoned ∧
        ∃ q : Pool 2,
          s.pool.receive (Message.response 1 .value 0 7).encode = (.ok (), q) ∧
            q.stateOf 1 = .free ∧ 1 ∉ q.free := by
  constructor
  · obtain ⟨s, run, both⟩ := Session.exists_same_number
    have full := Message.length_encode (.response 0 .ok 0 5)
    have number : LittleEndian.decode32 (Message.response 0 .ok 0 5).encode = 0 :=
      Message.decode32_encode _
    have expected : s.pool.Expects (Message.response 0 .ok 0 5).encode := by
      refine ⟨full, ?_⟩
      rw [number, both]
      exact List.mem_cons_self
    obtain ⟨m, i, q, -, seq, first, taken⟩ :=
      run.reached.leased.listed.receive_of_expects expected
    -- One of the two entries is left.
    have left : (q.pending.map Prod.fst).Perm [0] := by
      have numbers := taken.entry.map Prod.fst
      rw [both, List.map_cons, seq, number] at numbers
      exact numbers.cons_inv
    obtain ⟨_, reached⟩ := run.reached.receive (fun _ => trivial)
      (Message.response 0 .ok 0 5).encode
    have listed := (Session.Reached.leased reached).listed
    rw [first] at listed
    have again : q.Expects (Message.response 0 .ok 0 5).encode := by
      refine ⟨full, ?_⟩
      rw [number]
      exact left.mem_iff.mpr List.mem_cons_self
    obtain ⟨-, -, r, -, -, second, -⟩ := listed.receive_of_expects again
    exact ⟨s, run, q, r, first, second⟩
  · obtain ⟨s, run, abandoned, q, settled, state, free⟩ := exists_overfilled
    refine ⟨s, run, abandoned, q, ?_, state, ?_⟩
    · rw [Pool.receive_encode, settled]
    · rw [free]
      decide

end InterCore.Client
