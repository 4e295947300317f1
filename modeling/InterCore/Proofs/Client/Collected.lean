import InterCore.Proofs.Client.Partition

/-!
# After a result was collected

A ticket whose result was collected gives nothing more, and giving it up changes nothing. But its
slot may belong to another request by then, and neither the question whether the response is there
nor a withdrawal looks at whether the ticket is finished. So the one answers for the other request,
and the other withdraws that request, or frees a slot that is free.
-/

namespace InterCore.Client

open InterCore.Config (Message Reply)

variable {n : Nat}

/-! ## One ticket and its slot -/

namespace Ticket

variable {t : Ticket n} {p : Pool n}

theorem isDone_iff : t.isDone p = true ↔ (p.stateOf t.slot).IsDone := by
  rw [isDone]
  cases p.stateOf t.slot <;> simp

/-- A ticket is finished once it has given its result, and then for good. -/
theorem finished_take? (given : t.finished = true ∨ ∃ result, (t.take? p).1 = some result) :
    (t.take? p).2.1.finished = true := by
  by_cases finished : t.finished = true
  · rw [take?_finished finished]
    exact finished
  · obtain ⟨result, took⟩ := given.resolve_left finished
    rw [take?, if_neg finished] at took ⊢
    cases state : p.stateOf t.slot with
    | done _ => rfl
    | _ =>
      rw [state] at took
      cases took

end Ticket

namespace Pool

variable {p : Pool n} {i : Fin n}

theorem setState_stateOf (p : Pool n) (i : Fin n) : p.setState i (p.stateOf i) = p := by
  have same : p.slots.set i (p.slots.get i) i.isLt = p.slots := Vector.set_getElem_self i.isLt
  show { p with slots := p.slots.set i (p.slots.get i) i.isLt } = p
  rw [same]

/-- A slot that is freed although every slot is free is not put on the list again. -/
theorem recycle_of_full (full : p.available = n) (free : p.stateOf i = .free) :
    p.recycle i = p := by
  have noRoom : ¬p.free.length < n := Nat.not_lt.mpr full.ge
  rw [recycle, ← free, setState_stateOf, release, if_neg noRoom]

theorem free_recycle_of_room (room : p.available < n) : (p.recycle i).free = i :: p.free :=
  free_release room

namespace Listed

variable {rest : List (UInt32 × Fin n)}

theorem stateOf_of_full (h : p.Listed) (full : p.available = n) (i : Fin n) :
    p.stateOf i = .free := by
  by_contra busy
  exact absurd full (h.free_length_lt busy).ne

theorem withPending_of_full (h : p.Listed) (full : p.available = n) (without : p.Without i rest) :
    p.withPending rest = p := by
  have none : p.pending = [] := by
    refine List.eq_nil_iff_forall_not_mem.mpr ?_
    rintro ⟨seq, j⟩ mem
    exact ((h.pending seq j).mp mem).2.ne_free (h.stateOf_of_full full j)
  have rest_eq : rest = p.pending := by
    rw [none]
    refine List.eq_nil_iff_forall_not_mem.mpr ?_
    rintro ⟨seq, j⟩ mem
    have before := ((without.mem seq j).mp mem).1
    rw [none] at before
    cases before
  rw [rest_eq]
  rfl

/-- A withdrawal leaves the pool as it was exactly when no slot is in use. -/
theorem cancel_eq_self_iff (h : p.Listed) (t : Ticket n) :
    t.cancel p = p ↔ p.available = n := by
  obtain ⟨rest, cancelled, without⟩ := h.cancel t
  have few : p.available ≤ n := by
    have total := h.length_eq
    omega
  constructor
  · intro same
    by_contra used
    have room : p.available < n := Nat.lt_of_le_of_ne few used
    have longer : (t.cancel p).free = t.slot :: p.free := by
      rw [cancelled]
      exact free_recycle_of_room room
    rw [same] at longer
    exact List.cons_ne_self _ _ longer.symm
  · intro full
    rw [cancelled, h.withPending_of_full full without]
    exact recycle_of_full full (h.stateOf_of_full full t.slot)

/-- A withdrawal puts the slot of the ticket on top of the free ones, whether it was in use or
not. -/
theorem free_cancel (h : p.Listed) (t : Ticket n) (room : p.available < n) :
    (t.cancel p).free = t.slot :: p.free := by
  obtain ⟨rest, cancelled, -⟩ := h.cancel t
  rw [cancelled]
  exact free_recycle_of_room room

end Listed

end Pool

namespace Session

/-! ## Callers that withdraw a request whatever became of it -/

/-- A call of a caller that may also withdraw a request whose result it has collected. -/
inductive FreeStep (s : Session n) : Call → Report → Session n → Prop where
  | call {c : Call} {r : Report} {s' : Session n} : s.Step c r s' → FreeStep s c r s'
  | withdrawn {k : Nat} {t : Ticket n} :
      s.tickets k = some t → t.finished = true →
        FreeStep s (.cancel k) .done (s.withTicket (t.cancel s.pool) k none)

/-- The sessions that such calls lead to. -/
inductive FreeRun : List Event → Session n → Prop where
  | start : FreeRun [] {}
  | call {past : List Event} {s s' : Session n} {c : Call} {r : Report} :
      FreeRun past s → FreeStep s c r s' → FreeRun (past ++ [(c, r)]) s'

theorem Run.freeRun {past : List Event} {s : Session n} (run : Run past s) : FreeRun past s := by
  induction run with
  | start => exact .start
  | call _ step ih => exact ih.call (.call step)

/-- A result was collected for request `k`. -/
def CollectedIn (past : List Event) (k : Nat) : Prop :=
  ∃ result, (Call.take k, Report.taken (some result)) ∈ past

theorem collectedIn_snoc {past : List Event} {e : Event} {k : Nat} :
    CollectedIn (past ++ [e]) k ↔
      CollectedIn past k ∨ ∃ result, e = (Call.take k, Report.taken (some result)) := by
  unfold CollectedIn
  simp only [List.mem_append, List.mem_singleton, exists_or, eq_comm]

/-- Tickets go to requests that were started, and a ticket whose result was collected is
finished. -/
structure Settled (past : List Event) (s : Session n) : Prop where
  issued : ∀ k t, s.tickets k = some t → k < s.started
  begun : ∀ k, CollectedIn past k → k < s.started
  finished : ∀ k t, CollectedIn past k → s.tickets k = some t → t.finished = true

namespace Settled

variable {past : List Event} {s : Session n}

/-- A call that collects nothing and changes no ticket. -/
theorem kept (h : Settled past s) (pool : Pool n) {e : Event}
    (quiet : ∀ k result, e ≠ (Call.take k, Report.taken (some result))) :
    Settled (past ++ [e]) { s with pool } := by
  have before {k : Nat} (collected : CollectedIn (past ++ [e]) k) : CollectedIn past k :=
    (collectedIn_snoc.mp collected).resolve_right fun ⟨result, same⟩ => quiet k result same
  exact ⟨h.issued, fun k collected => h.begun k (before collected),
    fun k t collected => h.finished k t (before collected)⟩

/-- A ticket is used: it is gone afterwards, or finished if it was or has given its result. -/
theorem used (h : Settled past s) {pool : Pool n} {k : Nat} {t : Ticket n} {e : Event}
    {after : Option (Ticket n)} (mine : s.tickets k = some t)
    (only : ∀ k' result, e = (Call.take k', Report.taken (some result)) → k' = k)
    (finished : ∀ t', after = some t' →
      (t.finished = true ∨ ∃ result, e = (Call.take k, Report.taken (some result))) →
        t'.finished = true) :
    Settled (past ++ [e]) (s.withTicket pool k after) := by
  have begun := h.issued k t mine
  refine ⟨?issued, ?begun, ?finished⟩
  case issued =>
    intro k' t' own
    rcases of_tickets_withTicket own with ⟨rfl, -⟩ | ⟨-, own⟩
    · exact begun
    · exact h.issued k' t' own
  case begun =>
    intro k' collected
    rcases collectedIn_snoc.mp collected with before | ⟨result, now⟩
    · exact h.begun k' before
    · rw [only k' result now]
      exact begun
  case finished =>
    intro k' t' collected own
    rcases of_tickets_withTicket own with ⟨rfl, used⟩ | ⟨apart, own⟩
    · refine finished t' used ?_
      rcases collectedIn_snoc.mp collected with before | now
      · exact .inl (h.finished _ t before mine)
      · exact .inr now
    · refine h.finished k' t' ?_ own
      refine (collectedIn_snoc.mp collected).resolve_right ?_
      rintro ⟨result, now⟩
      exact apart (only k' result now)

theorem started (h : Settled past s) {pool : Pool n} {t : Ticket n} {seq : UInt32} :
    Settled (past ++ [(.start, .started seq)]) (s.withRequest pool t) := by
  have before {k : Nat} (collected : CollectedIn (past ++ [(.start, .started seq)]) k) :
      CollectedIn past k := by
    refine (collectedIn_snoc.mp collected).resolve_right ?_
    rintro ⟨result, same⟩
    cases same
  refine ⟨?issued, fun k collected => Nat.lt_succ_of_lt (h.begun k (before collected)), ?finished⟩
  case issued =>
    intro k t' own
    rcases of_tickets_withRequest own with ⟨rfl, -⟩ | ⟨-, own⟩
    · exact Nat.lt_succ_self _
    · exact Nat.lt_succ_of_lt (h.issued k t' own)
  case finished =>
    intro k t' collected own
    have old := h.begun k (before collected)
    rw [tickets_withRequest_of_ne _ _ _ old.ne] at own
    exact h.finished k t' (before collected) own

theorem step (h : Settled past s) {c : Call} {r : Report} {s' : Session n}
    (step : s.FreeStep c r s') : Settled (past ++ [(c, r)]) s' := by
  cases step with
  | withdrawn mine _ =>
    refine h.used mine ?_ ?_
    · rintro _ _ ⟨⟩
    · rintro _ ⟨⟩
  | call step =>
    cases step with
    | started _ => exact h.started
    | refused _ => exact h.kept _ (by rintro _ _ ⟨⟩)
    | complete m => exact h.kept _ (by rintro _ _ ⟨⟩)
    | isDone _ => exact h.kept _ (by rintro _ _ ⟨⟩)
    | @take k t mine =>
      refine h.used mine ?_ ?_
      · intro k' result same
        exact (Call.take.inj (Prod.mk.inj same).1).symm
      · rintro t' own given
        cases own
        refine Ticket.finished_take? (given.imp_right ?_)
        rintro ⟨result, same⟩
        exact ⟨result, Report.taken.inj (Prod.mk.inj same).2⟩
    | cancel mine _ =>
      refine h.used mine ?_ ?_
      · rintro _ _ ⟨⟩
      · rintro _ ⟨⟩
    | drop mine =>
      refine h.used mine ?_ ?_
      · rintro _ _ ⟨⟩
      · rintro _ ⟨⟩

end Settled

theorem FreeRun.settled {past : List Event} {s : Session n} (run : FreeRun past s) :
    Settled past s := by
  induction run with
  | start =>
    refine ⟨?_, ?_, ?_⟩
    · rintro k t ⟨⟩
    · rintro k ⟨result, ⟨⟩⟩
    · rintro k t - ⟨⟩
  | call _ step ih => exact ih.step step

/-! ## What a collected ticket still does -/

/-- What the calls on the ticket of request `k` do after its result was collected. -/
structure Spent (s : Session n) (k : Nat) (t : Ticket n) : Prop where
  take : t.take? s.pool = (none, t, s.pool)
  drop : t.drop s.pool = s.pool
  /-- It is the response of the request that has the slot now that is asked for. -/
  isDone : t.isDone s.pool = true ↔
    ∃ k', k' ≠ k ∧ s.Awaits k' t.slot ∧ (s.pool.stateOf t.slot).IsDone
  /-- A withdrawal is harmless only while no slot is in use. -/
  cancel : t.cancel s.pool = s.pool ↔ s.pool.available = n
  /-- It frees the slot, which is free twice if it was free. -/
  freed : s.pool.available < n → (t.cancel s.pool).free = t.slot :: s.pool.free
  /-- A request that has the slot now gets no result any more, and its response is refused. -/
  robbed : ∀ k' t', s.tickets k' = some t' → t'.finished = false → t'.slot = t.slot →
    (t'.take? (t.cancel s.pool)).1 = none ∧
      ∀ m, m.seq = t'.seq →
        (t.cancel s.pool).complete m = (.error .unknownSequence, t.cancel s.pool)

theorem Sound.robbed {s : Session n} (h : s.Sound) {t t' : Ticket n} {k' : Nat}
    (other : s.tickets k' = some t') (unfinished : t'.finished = false)
    (same : t'.slot = t.slot) :
    (t'.take? (t.cancel s.pool)).1 = none ∧
      ∀ m, m.seq = t'.seq →
        (t.cancel s.pool).complete m = (.error .unknownSequence, t.cancel s.pool) := by
  obtain ⟨own, held⟩ := h.awaited k' t' other unfinished
  rw [same] at own held
  obtain ⟨rest, cancelled, without⟩ := h.listed.cancel t
  rw [cancelled]
  have listed := h.listed.recycle held.ne_free without
  refine ⟨?_, ?_⟩
  · have free : ((s.pool.withPending rest).recycle t.slot).stateOf t'.slot = .free := by
      rw [Pool.stateOf_recycle, if_pos same]
    rw [Ticket.take?, unfinished, free]
    rfl
  · intro m number
    rcases listed.complete_cases m with ⟨-, refused⟩ | ⟨j, -, mem, -⟩
    · exact refused
    · -- Only the slot itself was pending under the number, and it is gone from the list.
      rw [Pool.pending_recycle] at mem
      obtain ⟨before, apart⟩ := (without.mem _ _).mp mem
      obtain ⟨seq, pending⟩ := (h.listed.pending _ _).mp before
      rw [number, ← own] at seq
      exact absurd (h.distinct _ _ pending.ne_free held.ne_free seq.symm) apart

theorem Sound.spent {s : Session n} (h : s.Sound) {k : Nat} {t : Ticket n}
    (mine : s.tickets k = some t) (finished : t.finished = true) : s.Spent k t := by
  refine {
    take := Ticket.take?_finished finished, drop := Ticket.drop_finished finished
    isDone := ?isDone, cancel := h.listed.cancel_eq_self_iff t
    freed := h.listed.free_cancel t
    robbed := fun k' t' other unfinished same => h.robbed other unfinished same }
  rw [Ticket.isDone_iff]
  constructor
  · intro done
    refine ⟨s.owner t.slot, ?_, (h.awaits_iff done.isHeld _).mpr rfl, done⟩
    rintro rfl
    -- The ticket of the request in the slot is not finished, so it is another one.
    have holder := Option.some.inj (mine.symm.trans (h.held t.slot done.isHeld))
    have unfinished : t.finished = false := congrArg Ticket.finished holder
    rw [unfinished] at finished
    cases finished
  · rintro ⟨-, -, -, done⟩
    exact done

end Session

/-- A ticket whose result was collected gives nothing more and can be given up without a change,
whatever its callers do. While they withdraw only requests that they have not collected, the ticket
says that its response is there exactly when that of another request is, which has the slot now; and
to withdraw it changes the pool unless no slot is in use: the slot is freed, and whoever has it gets
no result. -/
theorem collected_ticket_spent {past : List Event} {s : Session n}
    (run : Session.FreeRun past s) {k : Nat} {t : Ticket n}
    (collected : Session.CollectedIn past k) (mine : s.tickets k = some t) :
    t.take? s.pool = (none, t, s.pool) ∧ t.drop s.pool = s.pool ∧
      (Session.Run past s → s.started ≤ UInt32.size → s.Spent k t) := by
  have finished := run.settled.finished k t collected mine
  refine ⟨Ticket.take?_finished finished, Ticket.drop_finished finished, ?_⟩
  intro run few
  exact (run.sound few).spent mine finished

/-- A request whose result is collected, and the next one in its slot, which is answered. -/
def reusedSlot : List Event :=
  [(.start, .started 0), (.complete (.response 0 .ok 0 5), .completed (.ok ())),
    (.take 0, .taken (some (Reply.ofMessage (.response 0 .ok 0 5)))), (.start, .started 1),
    (.complete (.response 1 .ok 0 7), .completed (.ok ()))]

theorem exists_reusedSlot :
    ∃ s : Session 1, Session.Run reusedSlot s ∧ s.started ≤ UInt32.size ∧
      s.tickets 0 = some ⟨0, 0, true⟩ ∧ s.tickets 1 = some ⟨0, 1, false⟩ ∧
      s.pool.stateOf 0 = .done (Reply.ofMessage (.response 1 .ok 0 7)) := by
  have run₁ := (Session.Run.start (n := 1)).call (.started rfl)
  have run₂ := run₁.call (.complete (.response 0 .ok 0 5))
  have run₃ := run₂.call (.take (k := 0) rfl)
  have run₄ := run₃.call (.started rfl)
  have run₅ := run₄.call (.complete (.response 1 .ok 0 7))
  have few : 2 ≤ UInt32.size := by decide
  exact ⟨_, run₅, few, rfl, rfl, rfl⟩

theorem collected_ticket_spent_after_reuse :
    ∃ s : Session 1, Session.Run reusedSlot s ∧ s.started ≤ UInt32.size ∧
      Session.CollectedIn reusedSlot 0 ∧ s.tickets 0 = some ⟨0, 0, true⟩ ∧
        s.Spent 0 ⟨0, 0, true⟩ := by
  obtain ⟨s, run, few, mine, -, -⟩ := exists_reusedSlot
  have collected : Session.CollectedIn reusedSlot 0 :=
    ⟨Reply.ofMessage (.response 0 .ok 0 5), by simp [reusedSlot]⟩
  have told := (collected_ticket_spent run.freeRun collected mine).2.2 run few
  exact ⟨s, run, few, collected, mine, told⟩

/-- The response to the next request is reported for the ticket whose result was collected before,
and a withdrawal by that ticket takes the response away from the request. -/
theorem collected_ticket_not_inert :
    ∃ s : Session 1, Session.Run reusedSlot s ∧
      Session.CollectedIn reusedSlot 0 ∧ s.tickets 0 = some ⟨0, 0, true⟩ ∧
      s.tickets 1 = some ⟨0, 1, false⟩ ∧ Ticket.isDone ⟨0, 0, true⟩ s.pool = true ∧
      (Ticket.take? ⟨0, 1, false⟩ s.pool).1 = some (Reply.ofMessage (.response 1 .ok 0 7)) ∧
      (Ticket.take? ⟨0, 1, false⟩ (Ticket.cancel ⟨0, 0, true⟩ s.pool)).1 = none := by
  obtain ⟨s, run, few, mine, other, done⟩ := exists_reusedSlot
  refine ⟨s, run, ⟨Reply.ofMessage (.response 0 .ok 0 5), by simp [reusedSlot]⟩, mine, other,
    ?_, ?_, ((run.sound few).robbed other rfl rfl).1⟩
  · rw [Ticket.isDone_iff, done]
    trivial
  · rw [Ticket.take?_done rfl done]

end InterCore.Client
