import InterCore.Proofs.Client.Session

/-!
# The pool is always partitioned

In every session each slot is free, pending, or done, and the lists and the tickets agree with that:
no slot is lost, none is given to two requests, and no list overflows. This needs no more than that
callers withdraw only requests whose result they have not collected.
-/

namespace InterCore.Client

open InterCore.Config (Message Reply)

variable {n : Nat}

namespace Session

/-- What is true of a slot, by what it is used for: where it stands on the two lists, and whose
ticket waits for its result. -/
def Accounted (s : Session n) (i : Fin n) : Prop :=
  let entries := s.pool.pending.filter (·.2 = i)
  match s.pool.stateOf i with
  | .free => s.pool.free.count i = 1 ∧ entries = [] ∧ ∀ k, ¬s.Awaits k i
  | .waiting => i ∉ s.pool.free ∧ entries = [(s.pool.seqOf i, i)] ∧ ∃! k, s.Awaits k i
  | .abandoned =>
    i ∉ s.pool.free ∧ entries = [(s.pool.seqOf i, i)] ∧ (∀ k, ¬s.Awaits k i) ∧
      ∀ k t, s.tickets k = some t → t.seq ≠ s.pool.seqOf i
  | .done _ => i ∉ s.pool.free ∧ entries = [] ∧ ∃! k, s.Awaits k i

/-- Every slot is accounted for, a ticket waits for the slot under its own sequence number, the
pending requests have different numbers, and the slots that are free, pending and done are all
slots. -/
structure Partitioned (s : Session n) : Prop where
  slots : ∀ i, s.Accounted i
  own : ∀ k t, s.tickets k = some t → t.finished = false → s.pool.seqOf t.slot = t.seq
  distinct : (s.pool.pending.map Prod.fst).Nodup
  total : s.pool.available + s.pool.pendingCount + s.pool.doneSlots.length = n

/-- Whatever frees a slot finds room for it on the list of free slots. -/
structure ReleasesFit (s : Session n) : Prop where
  late : ∀ m i, (m.seq, i) ∈ s.pool.pending → s.pool.stateOf i = .abandoned →
    (s.pool.complete m).2.free = i :: s.pool.free
  taken : ∀ k t, s.tickets k = some t → (t.take? s.pool).1.isSome →
    (t.take? s.pool).2.2.free = t.slot :: s.pool.free
  withdrawn : ∀ k t, s.tickets k = some t → t.finished = false →
    (t.cancel s.pool).free = t.slot :: s.pool.free
  discarded : ∀ k t, s.tickets k = some t → t.finished = false →
    (s.pool.stateOf t.slot).IsDone → (t.drop s.pool).free = t.slot :: s.pool.free

end Session

namespace Pool.Listed

variable {p : Pool n} {i : Fin n}

theorem entries_of_pending (h : p.Listed) (pending : (p.stateOf i).IsPending) :
    p.pending.filter (·.2 = i) = [(p.seqOf i, i)] := by
  have once := h.pendingOnce.filter fun x => decide (x.2 = i)
  refine List.perm_singleton.mp ((List.perm_ext_iff_of_nodup once (List.nodup_singleton _)).mpr ?_)
  rintro ⟨seq, j⟩
  rw [List.mem_filter, List.mem_singleton, decide_eq_true_iff, h.pending]
  constructor
  · rintro ⟨⟨rfl, -⟩, rfl⟩
    rfl
  · rintro same
    cases same
    exact ⟨⟨rfl, pending⟩, rfl⟩

theorem entries_of_settled (h : p.Listed) (settled : ¬(p.stateOf i).IsPending) :
    p.pending.filter (·.2 = i) = [] := by
  refine List.filter_eq_nil_iff.mpr ?_
  rintro ⟨seq, j⟩ mem here
  obtain rfl : j = i := of_decide_eq_true here
  exact settled ((h.pending seq j).mp mem).2

end Pool.Listed

namespace Session.Sound

variable {s : Session n} {i : Fin n}

/-- The one ticket that waits for a slot is the one to the request in the slot. -/
theorem awaits_iff (h : s.Sound) (held : (s.pool.stateOf i).IsHeld) (k : Nat) :
    s.Awaits k i ↔ k = s.owner i := by
  constructor
  · rintro ⟨t, mine, unfinished, rfl⟩
    exact (h.owner_of_awaited mine unfinished).symm
  · rintro rfl
    exact ⟨_, h.held i held, rfl, rfl⟩

theorem awaits_unique (h : s.Sound) (held : (s.pool.stateOf i).IsHeld) : ∃! k, s.Awaits k i :=
  ⟨s.owner i, (h.awaits_iff held _).mpr rfl, fun k => (h.awaits_iff held k).mp⟩

theorem not_awaits (h : s.Sound) (unheld : ¬(s.pool.stateOf i).IsHeld) (k : Nat) :
    ¬s.Awaits k i := by
  rintro ⟨t, mine, unfinished, rfl⟩
  exact unheld (h.awaited k t mine unfinished).2

theorem accounted (h : s.Sound) (i : Fin n) : s.Accounted i := by
  have listed := h.listed
  have off (busy : s.pool.stateOf i ≠ .free) : i ∉ s.pool.free := by
    intro mem
    exact busy ((listed.free i).mp mem)
  unfold Accounted
  cases state : s.pool.stateOf i with
  | free =>
    exact ⟨List.count_eq_one_of_mem listed.freeOnce ((listed.free i).mpr state),
      listed.entries_of_settled (by simp [state]), h.not_awaits (by simp [state])⟩
  | waiting =>
    have held : (s.pool.stateOf i).IsHeld := by simp [state]
    exact ⟨off held.ne_free, listed.entries_of_pending (by simp [state]),
      h.awaits_unique held⟩
  | abandoned =>
    have pending : (s.pool.stateOf i).IsPending := by simp [state]
    refine ⟨off pending.ne_free, listed.entries_of_pending pending,
      h.not_awaits (by simp [state]), ?_⟩
    intro k t mine same
    have none := h.abandoned i state
    rw [owner, ← same, (h.numbered k t mine).2, mine] at none
    cases none
  | done result =>
    have held : (s.pool.stateOf i).IsHeld := by simp [state]
    exact ⟨off held.ne_free, listed.entries_of_settled (by simp [state]),
      h.awaits_unique held⟩

theorem partitioned (h : s.Sound) : s.Partitioned := by
  refine ⟨h.accounted, fun k t mine unfinished => (h.awaited k t mine unfinished).1,
    List.Nodup.map_on ?_ h.listed.pendingOnce, h.listed.length_eq⟩
  rintro ⟨seq, i⟩ mem ⟨seq', j⟩ mem' rfl
  obtain ⟨own, pending⟩ := (h.listed.pending seq i).mp mem
  obtain ⟨own', pending'⟩ := (h.listed.pending seq j).mp mem'
  rw [h.distinct i j pending.ne_free pending'.ne_free (own.symm.trans own')]

theorem releasesFit (h : s.Sound) : s.ReleasesFit := by
  refine { late := ?late, taken := ?taken, withdrawn := ?withdrawn, discarded := ?discarded }
  case late =>
    intro m i mem abandoned
    obtain ⟨own, pending⟩ := (h.listed.pending _ _).mp mem
    rcases h.listed.complete_cases m with ⟨unknown, -⟩ | ⟨j, rest, mem', -, settled⟩
    · exact absurd mem (unknown i)
    · obtain ⟨own', pending'⟩ := (h.listed.pending _ _).mp mem'
      obtain rfl := h.distinct i j pending.ne_free pending'.ne_free (own.symm.trans own')
      rcases settled with ⟨waiting, -⟩ | ⟨-, late⟩
      · rw [waiting] at abandoned
        cases abandoned
      · rw [late]
        exact h.listed.free_recycle pending.ne_free
  case taken =>
    intro k t mine taken
    cases finished : t.finished with
    | true =>
      rw [Ticket.take?_finished finished] at taken
      exact absurd taken Bool.false_ne_true
    | false =>
      rcases h.state_of_awaited mine finished with waiting | ⟨result, done⟩
      · rw [Ticket.take?_waiting finished waiting] at taken
        exact absurd taken Bool.false_ne_true
      · rw [Ticket.take?_done finished done]
        exact h.listed.free_recycle (h.awaited k t mine finished).2.ne_free
  case withdrawn =>
    intro k t mine unfinished
    obtain ⟨rest, cancelled, -⟩ := h.listed.cancel t
    rw [cancelled]
    exact h.listed.free_recycle (h.awaited k t mine unfinished).2.ne_free
  case discarded =>
    intro k t mine unfinished done
    rcases h.state_of_awaited mine unfinished with waiting | ⟨result, done'⟩
    · rw [waiting] at done
      exact done.elim
    · rw [Ticket.drop_done unfinished done']
      exact h.listed.free_recycle done.ne_free

end Session.Sound

/-- In every session the pool is partitioned and no slot that is freed is lost. A request is refused
exactly when no slot is free, which changes nothing; there is always room on the pending list for
one that is not. -/
theorem pool_partitioned {past : List Event} {s : Session n} (run : Session.Run past s)
    (few : s.started ≤ UInt32.size) :
    s.Partitioned ∧ s.ReleasesFit ∧
      (s.pool.free = [] → s.pool.start = (.error .resourceExhausted, s.pool)) ∧
      (s.pool.free ≠ [] → s.pool.pending.length < n ∧ ∃ t pool, s.pool.start = (.ok t, pool)) := by
  have sound := run.sound few
  refine ⟨sound.partitioned, sound.releasesFit, ?_, ?_⟩
  · intro none
    rcases sound.listed.start_cases with ⟨-, refused⟩ | ⟨i, free, top, -⟩
    · exact refused
    · exact absurd (top.symm.trans none) (List.cons_ne_nil _ _)
  · intro some
    rcases sound.listed.start_cases with ⟨none, -⟩ | ⟨i, free, -, started⟩
    · exact absurd none some
    · exact ⟨sound.listed.pending_length_lt some, _, _, started⟩

/-- Two requests, of which the first is given up before its response arrives. -/
theorem pool_partitioned_after_drop :
    ∃ s : Session 2,
      Session.Run [(.start, .started 0), (.start, .started 1), (.drop 0, .done)] s ∧
        s.started ≤ UInt32.size ∧ s.pool.stateOf 0 = .abandoned ∧ s.Partitioned := by
  have run₁ := (Session.Run.start (n := 2)).call (.started rfl)
  have run₂ := run₁.call (.started rfl)
  have run₃ := run₂.call (.drop (k := 0) rfl)
  have few : 2 ≤ UInt32.size := by decide
  exact ⟨_, run₃, few, rfl, (pool_partitioned run₃ few).1⟩

end InterCore.Client
