import InterCore.Proofs.Client.Slots
import Mathlib.Data.Fintype.Card
import Mathlib.Data.List.FinRange
import Mathlib.Data.List.Nodup
import Mathlib.Data.List.Perm.Basic

/-!
# The lists of a pool

The list of free slots and the pending list say again what the slots say of themselves (`Listed`).
Every change puts one slot to another use, and takes it on and off the two lists so that this goes
on to hold. So the lists and the slots that are done make up all slots, and neither list can
overflow.
-/

namespace InterCore.Client

open InterCore.Config (Message Reply)

/-- The last element takes the place of the one removed, so nothing else is lost. -/
theorem perm_cons_swapRemove {α : Type} {l : List α} {pos : Nat} (h : pos < l.length) :
    (l[pos] :: swapRemove l pos).Perm l := by
  rcases List.eq_nil_or_concat' l with rfl | ⟨init, last, rfl⟩
  · exact absurd h (Nat.not_lt_zero pos)
  · rw [swapRemove, List.getLast?_concat]
    rw [List.length_append, List.length_singleton] at h
    have rotate := (List.perm_append_singleton last init).symm
    rcases Nat.lt_or_eq_of_le (Nat.le_of_lt_succ h) with before | rfl
    · show ((init ++ [last])[pos] :: ((init ++ [last]).set pos last).dropLast).Perm _
      rw [List.set_append_left _ _ before, List.dropLast_concat, List.getElem_append_left before]
      have moved := (List.set_perm_cons_eraseIdx before last).cons init[pos]
      have whole := (List.getElem_cons_eraseIdx_perm before).cons last
      exact moved.trans ((List.Perm.swap ..).trans (whole.trans rotate))
    · show ((init ++ [last])[init.length] :: ((init ++ [last]).set init.length last).dropLast).Perm _
      rw [List.set_append_right _ _ (Nat.le_refl _), Nat.sub_self, List.getElem_concat_length rfl]
      show (last :: (init ++ [last]).dropLast).Perm _
      rw [List.dropLast_concat]
      exact rotate

namespace Pool

variable {n : Nat} {p : Pool n} {i : Fin n} {rest : List (UInt32 × Fin n)}

/-- The lists of a pool agree with its slots. -/
structure Listed (p : Pool n) : Prop where
  freeOnce : p.free.Nodup
  free : ∀ i, i ∈ p.free ↔ p.stateOf i = .free
  pendingOnce : p.pending.Nodup
  pending : ∀ seq i, (seq, i) ∈ p.pending ↔ seq = p.seqOf i ∧ (p.stateOf i).IsPending

/-- A pending list without what another says of a slot. -/
structure Without (p : Pool n) (i : Fin n) (rest : List (UInt32 × Fin n)) : Prop where
  once : rest.Nodup
  mem : ∀ seq j, (seq, j) ∈ rest ↔ (seq, j) ∈ p.pending ∧ j ≠ i

/-- The slots whose result was not collected. -/
def doneSlots (p : Pool n) : List (Fin n) :=
  (List.finRange n).filter fun i => (p.stateOf i).IsDone

theorem mem_doneSlots : i ∈ p.doneSlots ↔ (p.stateOf i).IsDone := by
  rw [doneSlots, List.mem_filter, decide_eq_true_iff]
  exact and_iff_right (List.mem_finRange i)

namespace Listed

theorem init (n : Nat) : ({} : Pool n).Listed := by
  have state (i : Fin n) : ({} : Pool n).stateOf i = .free := by
    show ((Vector.replicate n {} : Vector Slot n)[i.val]).state = .free
    rw [Vector.getElem_replicate]
  refine ⟨List.nodup_finRange n, ?_, List.nodup_nil, ?_⟩
  · intro i
    exact iff_of_true (List.mem_finRange i) (state i)
  · intro seq i
    rw [state]
    exact iff_of_false List.not_mem_nil And.right

theorem stateOf_top (h : p.Listed) {free : List (Fin n)} (top : p.free = i :: free) :
    p.stateOf i = .free := by
  apply (h.free i).mp
  rw [top]
  exact List.mem_cons_self

theorem free_length_lt (h : p.Listed) (busy : p.stateOf i ≠ .free) : p.free.length < n := by
  have once : (i :: p.free).Nodup :=
    List.nodup_cons.mpr ⟨fun mem => busy ((h.free i).mp mem), h.freeOnce⟩
  have few := once.length_le_card
  rwa [Fintype.card_fin] at few

theorem mem_pendingSlots (h : p.Listed) :
    i ∈ p.pending.map Prod.snd ↔ (p.stateOf i).IsPending := by
  rw [List.mem_map]
  constructor
  · rintro ⟨⟨seq, j⟩, mem, rfl⟩
    exact ((h.pending seq j).mp mem).2
  · intro pending
    exact ⟨(p.seqOf i, i), (h.pending _ _).mpr ⟨rfl, pending⟩, rfl⟩

theorem nodup_pendingSlots (h : p.Listed) : (p.pending.map Prod.snd).Nodup := by
  refine List.Nodup.map_on ?_ h.pendingOnce
  rintro ⟨seq, i⟩ mem ⟨seq', j⟩ mem' rfl
  rw [((h.pending seq i).mp mem).1, ((h.pending seq' i).mp mem').1]

/-- Every slot is free, pending or done, and only once. -/
theorem partition (h : p.Listed) :
    (p.free ++ p.pending.map Prod.snd ++ p.doneSlots).Perm (List.finRange n) := by
  have doneOnce : p.doneSlots.Nodup := (List.nodup_finRange n).filter _
  have once : (p.free ++ p.pending.map Prod.snd ++ p.doneSlots).Nodup := by
    rw [List.nodup_append, List.nodup_append]
    refine ⟨⟨h.freeOnce, h.nodup_pendingSlots, ?_⟩, doneOnce, ?_⟩
    · rintro i free _ pending rfl
      exact (h.mem_pendingSlots.mp pending).ne_free ((h.free i).mp free)
    · rintro i either _ done rfl
      rw [mem_doneSlots] at done
      rcases List.mem_append.mp either with free | pending
      · exact done.ne_free ((h.free i).mp free)
      · exact done.not_isPending (h.mem_pendingSlots.mp pending)
  apply (List.perm_ext_iff_of_nodup once (List.nodup_finRange n)).mpr
  intro i
  rw [List.mem_append, List.mem_append, h.free, h.mem_pendingSlots, mem_doneSlots]
  cases p.stateOf i <;> simp

theorem length_eq (h : p.Listed) : p.available + p.pendingCount + p.doneSlots.length = n := by
  have total := h.partition.length_eq
  rwa [List.length_append, List.length_append, List.length_map, List.length_finRange] at total

/-- A pool with a free slot has room on its pending list. -/
theorem pending_length_lt (h : p.Listed) (some : p.free ≠ []) : p.pending.length < n := by
  have total : p.free.length + p.pending.length + p.doneSlots.length = n := h.length_eq
  have first := List.length_pos_iff.mpr some
  omega

/-! ## Off the pending list -/

theorem without_self (h : p.Listed) (settled : ¬(p.stateOf i).IsPending) :
    p.Without i p.pending := by
  refine ⟨h.pendingOnce, ?_⟩
  intro seq j
  refine ⟨fun mem => ⟨mem, ?_⟩, And.left⟩
  rintro rfl
  exact settled ((h.pending seq j).mp mem).2

theorem without_of_perm (h : p.Listed) {seq : UInt32} (perm : ((seq, i) :: rest).Perm p.pending) :
    p.Without i rest := by
  have once := perm.nodup_iff.mpr h.pendingOnce
  obtain ⟨gone, restOnce⟩ := List.nodup_cons.mp once
  have own := ((h.pending seq i).mp (perm.mem_iff.mp List.mem_cons_self)).1
  refine ⟨restOnce, ?_⟩
  intro seq' j
  constructor
  · intro mem
    have before := perm.mem_iff.mp (List.mem_cons_of_mem _ mem)
    refine ⟨before, ?_⟩
    rintro rfl
    obtain rfl : seq' = seq := ((h.pending seq' j).mp before).1.trans own.symm
    exact gone mem
  · rintro ⟨before, other⟩
    rcases List.mem_cons.mp (perm.mem_iff.mpr before) with same | after
    · exact absurd (congrArg Prod.snd same) other
    · exact after

/-- Putting back what was left out gives the pending list. -/
theorem perm_without (h : p.Listed) {seq : UInt32} (mem : (seq, i) ∈ p.pending)
    (without : p.Without i rest) : ((seq, i) :: rest).Perm p.pending := by
  have gone : (seq, i) ∉ rest := fun mem' => ((without.mem seq i).mp mem').2 rfl
  refine (List.perm_ext_iff_of_nodup (List.nodup_cons.mpr ⟨gone, without.once⟩) h.pendingOnce).mpr ?_
  rintro ⟨seq', j⟩
  rw [List.mem_cons, without.mem]
  constructor
  · rintro (same | ⟨mem', -⟩)
    · rw [same]
      exact mem
    · exact mem'
  · intro mem'
    by_cases same : j = i
    · subst same
      left
      rw [((h.pending seq' j).mp mem').1, ((h.pending seq j).mp mem).1]
    · exact .inr ⟨mem', same⟩

theorem unlist (h : p.Listed) (i : Fin n) :
    ∃ rest, p.unlist i = p.withPending rest ∧ p.Without i rest := by
  unfold Pool.unlist
  cases found : p.pending.findIdx? (·.2 = i) with
  | none =>
    refine ⟨p.pending, rfl, h.pendingOnce, ?_⟩
    intro seq j
    refine ⟨fun mem => ⟨mem, ?_⟩, And.left⟩
    have other := List.findIdx?_eq_none_iff.mp found (seq, j) mem
    exact of_decide_eq_false other
  | some pos =>
    obtain ⟨inside, here, -⟩ := List.findIdx?_eq_some_iff_getElem.mp found
    obtain rfl : p.pending[pos].2 = i := of_decide_eq_true here
    exact ⟨_, rfl, h.without_of_perm (perm_cons_swapRemove inside)⟩

/-! ## The changes of a pool -/

end Listed

/-- Two pools differ at slot `i` at most. -/
structure SameBut (i : Fin n) (p q : Pool n) : Prop where
  free : ∀ j, j ≠ i → (j ∈ q.free ↔ j ∈ p.free)
  pending : ∀ seq j, j ≠ i → ((seq, j) ∈ q.pending ↔ (seq, j) ∈ p.pending)
  state : ∀ j, j ≠ i → q.stateOf j = p.stateOf j
  seq : ∀ j, j ≠ i → q.seqOf j = p.seqOf j

theorem SameBut.slot_eq {q : Pool n} (same : SameBut i p q) {j : Fin n} (apart : j ≠ i) :
    q.slots.get j = p.slots.get j := by
  show (⟨q.seqOf j, q.stateOf j⟩ : Slot) = ⟨p.seqOf j, p.stateOf j⟩
  rw [same.seq j apart, same.state j apart]

theorem sameBut_opened {free : List (Fin n)} (top : p.free = i :: free) :
    SameBut i p (p.opened i free) := by
  refine ⟨?_, ?_, ?_, ?_⟩
  · intro j apart
    rw [top, List.mem_cons, or_iff_right apart]
    rfl
  · intro seq j apart
    show (seq, j) ∈ p.pending ++ [(p.nextSeq, i)] ↔ _
    simp [apart]
  · intro j apart
    rw [stateOf_opened, if_neg apart]
  · intro j apart
    rw [seqOf_opened, if_neg apart]

theorem SameBut.trans {q r : Pool n} (first : SameBut i p q) (second : SameBut i q r) :
    SameBut i p r := by
  refine ⟨?_, ?_, ?_, ?_⟩
  · intro j apart
    rw [second.free j apart, first.free j apart]
  · intro seq j apart
    rw [second.pending seq j apart, first.pending seq j apart]
  · intro j apart
    rw [second.state j apart, first.state j apart]
  · intro j apart
    rw [second.seq j apart, first.seq j apart]

theorem Without.sameBut (without : p.Without i rest) : SameBut i p (p.withPending rest) := by
  refine ⟨fun _ _ => Iff.rfl, ?_, fun _ _ => rfl, fun _ _ => rfl⟩
  intro seq j apart
  exact (without.mem seq j).trans (and_iff_left apart)

theorem sameBut_setState (p : Pool n) (i : Fin n) (state : SlotState) :
    SameBut i p (p.setState i state) := by
  refine ⟨fun _ _ => Iff.rfl, fun _ _ _ => Iff.rfl, ?_, ?_⟩
  · intro j apart
    exact stateOf_setState_of_ne p state apart
  · intro j _
    exact seqOf_setState p i j state

theorem sameBut_release (p : Pool n) (i : Fin n) : SameBut i p (p.release i) := by
  refine ⟨?_, ?_, ?_, ?_⟩
  · intro j apart
    unfold release
    split
    · exact List.mem_cons.trans (or_iff_right apart)
    · rfl
  · intro seq j _
    rw [pending_release]
  · intro j _
    exact stateOf_release p i j
  · intro j _
    exact seqOf_release p i j

theorem sameBut_recycle (p : Pool n) (i : Fin n) : SameBut i p (p.recycle i) :=
  (sameBut_setState p i .free).trans (sameBut_release _ i)

namespace Listed

/-- After a change at slot `i` the lists agree with the slots if they agree with that slot. -/
theorem changed (h : p.Listed) {q : Pool n} (same : SameBut i p q) (freeOnce : q.free.Nodup)
    (pendingOnce : q.pending.Nodup) (free : i ∈ q.free ↔ q.stateOf i = .free)
    (pending : ∀ seq, (seq, i) ∈ q.pending ↔ seq = q.seqOf i ∧ (q.stateOf i).IsPending) :
    q.Listed := by
  refine ⟨freeOnce, ?_, pendingOnce, ?_⟩
  · intro j
    by_cases here : j = i
    · rw [here]
      exact free
    · rw [same.free j here, same.state j here]
      exact h.free j
  · intro seq j
    by_cases here : j = i
    · rw [here]
      exact pending seq
    · rw [same.pending seq j here, same.seq j here, same.state j here]
      exact h.pending seq j

theorem opened (h : p.Listed) {free : List (Fin n)} (top : p.free = i :: free) :
    (p.opened i free).Listed := by
  have once := h.freeOnce
  rw [top] at once
  obtain ⟨gone, freeOnce⟩ := List.nodup_cons.mp once
  have notPending (seq : UInt32) : (seq, i) ∉ p.pending := by
    intro mem
    exact ((h.pending seq i).mp mem).2.ne_free (h.stateOf_top top)
  have waiting : (p.opened i free).stateOf i = .waiting := by rw [stateOf_opened, if_pos rfl]
  have number : (p.opened i free).seqOf i = p.nextSeq := by rw [seqOf_opened, if_pos rfl]
  refine h.changed (sameBut_opened top) freeOnce ?_ ?_ ?_
  · refine List.nodup_append.mpr ⟨h.pendingOnce, List.nodup_singleton _, ?_⟩
    intro entry old _ new same
    rw [same, List.mem_singleton.mp new] at old
    exact notPending p.nextSeq old
  · rw [waiting]
    exact iff_of_false gone (by simp)
  · intro seq
    show (seq, i) ∈ p.pending ++ [(p.nextSeq, i)] ↔ _
    rw [waiting, number, List.mem_append, or_iff_right (notPending seq)]
    simp [SlotState.IsPending]

/-- A slot that is done is on neither list. -/
theorem settled (h : p.Listed) (busy : p.stateOf i ≠ .free) (without : p.Without i rest)
    (result : Answer Reply) : ((p.withPending rest).setState i (.done result)).Listed := by
  refine h.changed (without.sameBut.trans (sameBut_setState _ i _)) h.freeOnce without.once ?_ ?_
  · rw [stateOf_setState_self]
    exact iff_of_false (fun mem => busy ((h.free i).mp mem)) (by simp)
  · intro seq
    rw [stateOf_setState_self]
    exact iff_of_false (fun mem => ((without.mem seq i).mp mem).2 rfl) And.right

theorem forsaken (h : p.Listed) (waiting : p.stateOf i = .waiting) :
    (p.setState i .abandoned).Listed := by
  have abandoned : (p.setState i .abandoned).stateOf i = .abandoned := stateOf_setState_self p i _
  refine h.changed (sameBut_setState p i _) h.freeOnce h.pendingOnce ?_ ?_
  · show i ∈ p.free ↔ _
    rw [abandoned, h.free, waiting]
    simp
  · intro seq
    show (seq, i) ∈ p.pending ↔ _
    rw [abandoned, seqOf_setState, h.pending, waiting]
    rfl

theorem free_recycle (h : p.Listed) (busy : p.stateOf i ≠ .free) :
    ((p.withPending rest).recycle i).free = i :: p.free :=
  free_release (h.free_length_lt busy)

theorem recycle (h : p.Listed) (busy : p.stateOf i ≠ .free) (without : p.Without i rest) :
    ((p.withPending rest).recycle i).Listed := by
  have onto : ((p.withPending rest).recycle i).free = i :: p.free := h.free_recycle busy
  have free : ((p.withPending rest).recycle i).stateOf i = .free := by
    rw [stateOf_recycle, if_pos rfl]
  refine h.changed (without.sameBut.trans (sameBut_recycle _ i)) ?_ ?_ ?_ ?_
  · rw [onto]
    exact List.nodup_cons.mpr ⟨fun mem => busy ((h.free i).mp mem), h.freeOnce⟩
  · rw [pending_recycle]
    exact without.once
  · rw [onto, free]
    exact iff_of_true List.mem_cons_self rfl
  · intro seq
    rw [pending_recycle, free]
    exact iff_of_false (fun mem => ((without.mem seq i).mp mem).2 rfl) And.right

/-! ## The operations -/

/-- A transaction starts if a slot is free; there is always room for it on the pending list. -/
theorem start_cases (h : p.Listed) :
    (p.free = [] ∧ p.start = (.error .resourceExhausted, p)) ∨
      ∃ i free, p.free = i :: free ∧
        p.start = (.ok { slot := i, seq := p.nextSeq }, p.opened i free) := by
  unfold start
  cases top : p.free with
  | nil => exact .inl ⟨rfl, rfl⟩
  | cons i free =>
    have room : p.pending.length < n := h.pending_length_lt (by rw [top]; exact List.cons_ne_nil _ _)
    refine .inr ⟨i, free, rfl, ?_⟩
    show (if p.pending.length < n then _ else _) = _
    rw [if_pos room]
    rfl

/-- A response is unknown, or settles the slot that is pending under its sequence number. -/
theorem complete_cases (h : p.Listed) (m : Message) :
    ((∀ i, (m.seq, i) ∉ p.pending) ∧ p.complete m = (.error .unknownSequence, p)) ∨
      ∃ i rest, (m.seq, i) ∈ p.pending ∧ p.Without i rest ∧
        ((p.stateOf i = .waiting ∧
            p.complete m = (.ok (), (p.withPending rest).setState i (.done (Reply.ofMessage m)))) ∨
          p.stateOf i = .abandoned ∧ p.complete m = (.ok (), (p.withPending rest).recycle i)) := by
  unfold complete
  cases found : p.pending.findIdx? (·.1 = m.seq) with
  | none =>
    refine .inl ⟨?_, rfl⟩
    intro i mem
    have other := List.findIdx?_eq_none_iff.mp found _ mem
    exact of_decide_eq_false other rfl
  | some pos =>
    obtain ⟨inside, here, -⟩ := List.findIdx?_eq_some_iff_getElem.mp found
    have removed := perm_cons_swapRemove inside
    have entry : p.pending[pos]? = some p.pending[pos] := List.getElem?_eq_getElem inside
    have mem := List.getElem_mem inside
    generalize p.pending[pos] = x at here removed entry mem
    obtain ⟨seq, i⟩ := x
    obtain rfl : seq = m.seq := of_decide_eq_true here
    refine .inr ⟨i, swapRemove p.pending pos, mem, h.without_of_perm removed, ?_⟩
    have pending := ((h.pending _ i).mp mem).2
    have same : ({ p with pending := swapRemove p.pending pos } : Pool n).stateOf i = p.stateOf i :=
      rfl
    simp only [entry, same]
    cases state : p.stateOf i with
    | waiting => exact .inl ⟨rfl, rfl⟩
    | abandoned => exact .inr ⟨rfl, rfl⟩
    | free => exact absurd state pending.ne_free
    | done r =>
      rw [state] at pending
      exact pending.elim

/-- A response that is expected is taken in, and its number leaves the pending list. -/
theorem complete_of_pending (h : p.Listed) {m : Message} (mem : (m.seq, i) ∈ p.pending) :
    (p.complete m).1 = .ok () ∧
      (m.seq :: (p.complete m).2.pending.map Prod.fst).Perm (p.pending.map Prod.fst) := by
  rcases h.complete_cases m with ⟨unknown, -⟩ | ⟨j, rest, mem', without, settled⟩
  · exact absurd mem (unknown i)
  have fewer := (h.perm_without mem' without).map Prod.fst
  rcases settled with ⟨-, completed⟩ | ⟨-, completed⟩
  · rw [completed]
    exact ⟨rfl, fewer⟩
  · rw [completed, pending_recycle]
    exact ⟨rfl, fewer⟩

/-- A withdrawn request leaves the pending list, and its slot is freed. -/
theorem cancel (h : p.Listed) (t : Ticket n) :
    ∃ rest, t.cancel p = (p.withPending rest).recycle t.slot ∧ p.Without t.slot rest := by
  obtain ⟨rest, unlisted, without⟩ := h.unlist t.slot
  refine ⟨rest, ?_, without⟩
  rw [Ticket.cancel, unlisted]
  rfl

end Listed

/-! ## The end of a transaction -/

/-- A slot is freed, and is pending no more; nothing else changes. -/
structure Frees (i : Fin n) (p q : Pool n) : Prop where
  free : q.free = i :: p.free
  state : q.stateOf i = .free
  unlisted : ∀ seq, (seq, i) ∉ q.pending
  others : SameBut i p q
  nextSeq : q.nextSeq = p.nextSeq
  count : q.count = p.count

/-- A slot stays pending, but nobody waits for it any more; nothing else changes. -/
structure Forsakes (i : Fin n) (p q : Pool n) : Prop where
  state : q.stateOf i = .abandoned
  listed : (p.seqOf i, i) ∈ q.pending
  pending : q.pending = p.pending
  free : q.free = p.free
  others : SameBut i p q
  nextSeq : q.nextSeq = p.nextSeq
  count : q.count = p.count

namespace Listed

theorem frees (h : p.Listed) (busy : p.stateOf i ≠ .free) (without : p.Without i rest) :
    p.Frees i ((p.withPending rest).recycle i) where
  free := h.free_recycle busy
  state := by rw [stateOf_recycle, if_pos rfl]
  unlisted seq mem := by
    rw [pending_recycle] at mem
    exact ((without.mem seq i).mp mem).2 rfl
  others := without.sameBut.trans (sameBut_recycle _ i)
  nextSeq := nextSeq_recycle _ i
  count := count_recycle _ i

theorem frees_cancel (h : p.Listed) (t : Ticket n) (busy : p.stateOf t.slot ≠ .free) :
    p.Frees t.slot (t.cancel p) := by
  obtain ⟨rest, cancelled, without⟩ := h.cancel t
  rw [cancelled]
  exact h.frees busy without

theorem frees_of_isDone (h : p.Listed) (done : (p.stateOf i).IsDone) : p.Frees i (p.recycle i) :=
  h.frees done.ne_free (h.without_self done.not_isPending)

theorem forsakes (h : p.Listed) (waiting : p.stateOf i = .waiting) :
    p.Forsakes i (p.setState i .abandoned) where
  state := stateOf_setState_self p i _
  listed := (h.pending _ i).mpr ⟨rfl, by simp [waiting]⟩
  pending := rfl
  free := rfl
  others := sameBut_setState p i _
  nextSeq := rfl
  count := rfl

end Listed

end Pool

end InterCore.Client
