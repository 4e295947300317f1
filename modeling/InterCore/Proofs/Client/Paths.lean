import InterCore.Proofs.Client.Delivery

/-!
# Paths of calls

What happens to a pool from one moment to another: any calls of its callers, and the number of
variables that becomes known. Every ticket that waits for a result keeps its slot (`Leased`), also
after the sequence numbers have started over. As long as they have not, what is found in a slot is
told from the calls on the way.
-/

namespace InterCore.Client

open InterCore.Config (Message Reply)

variable {n : Nat}

/-- A call on the ticket of request `k` that may use it up. -/
def Call.Uses (k : Nat) : Call → Prop
  | .take k' => k' = k
  | .cancel k' => k' = k
  | .drop k' => k' = k
  | _ => False

/-- The lists say nothing of the number of variables. -/
theorem Pool.Listed.cacheCount {p : Pool n} (h : p.Listed) (count : Nat) :
    (p.cacheCount count).Listed :=
  ⟨h.freeOnce, h.free, h.pendingOnce, h.pending⟩

namespace Session

/-- What calls that may be made lead to, with what was called and reported. -/
inductive Path (may : Call → Prop) (s : Session n) : List Event → Session n → Prop where
  | nil : Path may s [] s
  | call {past : List Event} {s' s'' : Session n} {c : Call} {r : Report} :
      Path may s past s' → may c → s'.Step c r s'' → Path may s (past ++ [(c, r)]) s''
  /-- The number of variables becomes known. -/
  | counted {past : List Event} {s' : Session n} (count : Nat) :
      Path may s past s' → Path may s past { s' with pool := s'.pool.cacheCount count }

/-- What any calls lead to from an unused pool. -/
abbrev Reached (past : List Event) (s : Session n) : Prop :=
  Path (fun _ => True) {} past s

/-- Calls of others than the one who has the ticket of request `k`. -/
abbrev Meanwhile (k : Nat) (s : Session n) (during : List Event) (s' : Session n) : Prop :=
  Path (fun c => ¬c.Uses k) s during s'

namespace Leased

variable {s : Session n}

theorem start (n : Nat) : ({} : Session n).Leased :=
  (Sound.start n).leased

/-- The slots that tickets wait for go on to be held for the same requests. -/
theorem withPool (h : s.Leased) {pool : Pool n} (listed : pool.Listed)
    (held : ∀ i, (s.pool.stateOf i).IsHeld →
      pool.seqOf i = s.pool.seqOf i ∧ (pool.stateOf i).IsHeld) :
    Leased { s with pool } := by
  refine ⟨listed, ?_, h.alone, h.unborn⟩
  intro k t mine unfinished
  obtain ⟨seq, held'⟩ := h.own k t mine unfinished
  obtain ⟨same, still⟩ := held t.slot held'
  exact ⟨same.trans seq, still⟩

/-- A ticket is used up, and with it at most its own slot changes. -/
theorem usedUp (h : s.Leased) {pool : Pool n} {k : Nat} {t : Ticket n} {after : Option (Ticket n)}
    (mine : s.tickets k = some t) (spent : ∀ t', after = some t' → t'.finished = true)
    (listed : pool.Listed)
    (others : ∀ i, (t.finished = false → i ≠ t.slot) →
      pool.stateOf i = s.pool.stateOf i ∧ pool.seqOf i = s.pool.seqOf i) :
    (s.withTicket pool k after).Leased := by
  -- Whoever else waits had a ticket before.
  have before {k' : Nat} {t' : Ticket n}
      (other : (s.withTicket pool k after).tickets k' = some t') (unfinished : t'.finished = false) :
      k' ≠ k ∧ s.tickets k' = some t' := by
    rcases of_tickets_withTicket other with ⟨-, used⟩ | others
    · rw [spent t' used] at unfinished
      cases unfinished
    · exact others
  refine ⟨listed, ?_, ?_, ?_⟩
  · intro k' t' other unfinished
    obtain ⟨apart, was⟩ := before other unfinished
    obtain ⟨state, seq⟩ := others t'.slot fun unfinished' =>
      h.alone k t k' t' mine unfinished' was unfinished apart
    show pool.seqOf t'.slot = t'.seq ∧ (pool.stateOf t'.slot).IsHeld
    rw [state, seq]
    exact h.own k' t' was unfinished
  · intro k₁ t₁ k₂ t₂ first unfinished₁ second unfinished₂
    exact h.alone k₁ t₁ k₂ t₂ (before first unfinished₁).2 unfinished₁ (before second unfinished₂).2
      unfinished₂
  · intro k' late
    have apart : k' ≠ k := by
      rintro rfl
      rw [h.unborn k' late] at mine
      cases mine
    rw [tickets_withTicket_of_ne _ _ _ apart]
    exact h.unborn k' late

theorem opened (h : s.Leased) {i : Fin n} {free : List (Fin n)} (top : s.pool.free = i :: free) :
    (s.withRequest (s.pool.opened i free) ⟨i, s.pool.nextSeq, false⟩).Leased := by
  -- The slot was free, so no ticket had it.
  have apart {k : Nat} {t : Ticket n} (mine : s.tickets k = some t)
      (unfinished : t.finished = false) : t.slot ≠ i := by
    rintro rfl
    exact (h.own k t mine unfinished).2.ne_free (h.listed.stateOf_top top)
  refine ⟨h.listed.opened top, ?_, ?_, ?_⟩
  · intro k t mine unfinished
    show (s.pool.opened i free).seqOf t.slot = t.seq ∧
      ((s.pool.opened i free).stateOf t.slot).IsHeld
    rw [Pool.seqOf_opened, Pool.stateOf_opened]
    rcases of_tickets_withRequest mine with ⟨-, rfl⟩ | ⟨-, old⟩
    · simp
    · rw [if_neg (apart old unfinished), if_neg (apart old unfinished)]
      exact h.own k t old unfinished
  · intro k t k' t' mine unfinished other unfinished' differ
    rcases of_tickets_withRequest mine with ⟨rfl, rfl⟩ | ⟨-, old⟩ <;>
      rcases of_tickets_withRequest other with ⟨rfl, rfl⟩ | ⟨-, old'⟩
    · exact absurd rfl differ
    · exact apart old' unfinished'
    · exact (apart old unfinished).symm
    · exact h.alone k t k' t' old unfinished old' unfinished' differ
  · intro k late
    rw [tickets_withRequest_of_ne _ _ _ (Nat.ne_of_gt late)]
    exact h.unborn k (Nat.le_of_succ_le late)

end Leased

variable {s s' s'' : Session n} {c : Call} {r : Report} {may : Call → Prop}
  {past during : List Event}

theorem Effect.leased (effect : s.Effect c r s') (h : s.Leased) : s'.Leased := by
  cases effect with
  | refused _ => exact h
  | unknown _ => exact h
  | seen _ => exact h
  | collectedBefore _ _ => exact h
  | notYet _ _ _ => exact h
  | started top => exact h.opened top
  | @answered m i rest _ waiting without =>
    refine h.withPool (h.listed.settled (by simp [waiting]) without _) ?_
    intro j held
    refine ⟨Pool.seqOf_setState _ i j _, ?_⟩
    rw [Pool.stateOf_setState]
    split
    · trivial
    · exact held
  | @late m i rest _ abandoned without =>
    refine h.withPool (h.listed.recycle (by simp [abandoned]) without) ?_
    intro j held
    have apart : j ≠ i := by
      rintro rfl
      rw [abandoned] at held
      exact held
    refine ⟨Pool.seqOf_recycle _ i j, ?_⟩
    rwa [Pool.stateOf_recycle, if_neg apart]
  | @collected k t result mine unfinished done =>
    refine h.usedUp mine ?_ (h.listed.recycle (by simp [done]) (h.listed.without_self (by simp [done])))
      ?_
    · rintro t' ⟨⟩
      rfl
    · intro j apart
      exact ⟨by rw [Pool.stateOf_recycle, if_neg (apart unfinished)], Pool.seqOf_recycle _ _ j⟩
  | @withdrawn k t rest mine unfinished without =>
    have busy := (h.own k t mine unfinished).2.ne_free
    refine h.usedUp mine (by simp) (h.listed.recycle busy without) ?_
    intro j apart
    exact ⟨by rw [Pool.stateOf_recycle, if_neg (apart unfinished), Pool.stateOf_withPending],
      Pool.seqOf_recycle _ _ j⟩
  | forgotten mine _ => exact h.usedUp mine (by simp) h.listed fun _ _ => ⟨rfl, rfl⟩
  | @abandoned k t mine unfinished waiting =>
    refine h.usedUp mine (by simp) (h.listed.forsaken waiting) ?_
    intro j apart
    exact ⟨Pool.stateOf_setState_of_ne _ _ (apart unfinished), Pool.seqOf_setState _ _ j _⟩
  | @discarded k t result mine unfinished done =>
    refine h.usedUp mine (by simp)
      (h.listed.recycle (by simp [done]) (h.listed.without_self (by simp [done]))) ?_
    intro j apart
    exact ⟨by rw [Pool.stateOf_recycle, if_neg (apart unfinished)], Pool.seqOf_recycle _ _ j⟩

/-! ## What a path keeps -/

namespace Path

theorem leased (path : s.Path may during s') (h : s.Leased) : s'.Leased := by
  induction path with
  | nil => exact h
  | call _ _ step ih => exact (ih.effect step).leased ih
  | counted count _ ih => exact ⟨ih.listed.cacheCount count, ih.own, ih.alone, ih.unborn⟩

theorem started_le (path : s.Path may during s') : s.started ≤ s'.started := by
  induction path with
  | nil => exact Nat.le_refl _
  | call _ _ step ih => exact ih.trans step.started_le
  | counted _ _ ih => exact ih

theorem sound (path : s.Path may during s') (h : s.Sound) (few : s'.started ≤ UInt32.size) :
    s'.Sound := by
  induction path with
  | nil => exact h
  | call _ _ step ih =>
    have before := ih (step.started_le.trans few)
    exact (before.effect step).sound before few
  | counted count _ ih =>
    have before := ih few
    exact ⟨before.listed.cacheCount count, before.few, before.next, before.issued, before.distinct, before.held,
      before.abandoned, before.numbered, before.awaited⟩

theorem delivered (path : s.Path may during s') (sound : s.Sound) (h : Delivered past s)
    (few : s'.started ≤ UInt32.size) : Delivered (past ++ during) s' := by
  induction path with
  | nil => rwa [List.append_nil]
  | call before _ step ih =>
    have earlier := step.started_le.trans few
    have sound' := before.sound sound earlier
    rw [← List.append_assoc]
    exact (ih earlier).effect sound' (sound'.effect step)
  | counted count _ ih =>
    have before := ih few
    exact ⟨before.numbers, before.unborn, before.results, before.collected, before.awaited⟩

theorem append (first : s.Path may past s') (second : s'.Path may during s'') :
    s.Path may (past ++ during) s'' := by
  induction second with
  | nil => rwa [List.append_nil]
  | call _ allowed step ih =>
    rw [← List.append_assoc]
    exact ih.call allowed step
  | counted count _ ih => exact ih.counted count

theorem mono {may' : Call → Prop} (path : s.Path may during s') (weaker : ∀ c, may c → may' c) :
    s.Path may' during s' := by
  induction path with
  | nil => exact .nil
  | call _ allowed step ih => exact ih.call (weaker _ allowed) step
  | counted count _ ih => exact ih.counted count

end Path

theorem Run.reached (run : Run past s) : Reached past s := by
  induction run with
  | start => exact .nil
  | call _ step ih => exact ih.call trivial step

namespace Reached

theorem extend (reached : Reached past s) (path : s.Path may during s') :
    Reached (past ++ during) s' :=
  Path.append reached (path.mono fun _ _ => trivial)

theorem leased (reached : Reached past s) : s.Leased :=
  Path.leased reached (Leased.start n)

theorem sound (reached : Reached past s) (few : s.started ≤ UInt32.size) : s.Sound :=
  Path.sound reached (Sound.start n) few

theorem delivered (reached : Reached past s) (few : s.started ≤ UInt32.size) :
    Delivered past s :=
  Path.delivered reached (Sound.start n) (Delivered.start n) few

end Reached

end Session

end InterCore.Client
