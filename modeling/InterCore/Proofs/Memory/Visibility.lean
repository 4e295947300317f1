import InterCore.Proofs.Memory.Replay
import Mathlib.Data.List.Perm.Subperm

/-!
# What the other core sees

A barrier makes all earlier writes visible. Of the writes since the last barrier the other core may
see any, in any order, and of a string of bytes any part; only a word of a ring is seen as a whole.
`Visible` is that relation, and `Visible.agreeOn_or_eq` what it comes to for work that writes,
raises a barrier, and then writes the one word that counts: as long as that word is not seen, all
that changed lies where the work wrote before, and once it is seen everything is.
-/

namespace InterCore

variable {start stop a b : Nat} {m m' : Memory}

/-- A point of two pieces of work is in the first, or in the second after all of the first. -/
theorem prefix_append_cases {α : Type} {point first later : List α} (h : point <+: first ++ later) :
    point <+: first ∨ ∃ behind, point = first ++ behind ∧ behind <+: later := by
  rcases List.prefix_or_prefix_of_prefix h (List.prefix_append first later) with early | ⟨behind, rfl⟩
  · exact .inl early
  · exact .inr ⟨behind, rfl, (List.prefix_append_right_inj first).mp h⟩

/-- A byte that is written changes no other. -/
theorem Memory.agreeOn_patch_one {addr : Nat} (byte : UInt8) (lower : m.base.toNat ≤ addr)
    (apart : addr + 1 ≤ a ∨ b ≤ addr) : m.AgreeOn (m.patch addr [byte]) a b := by
  intro i above below
  simp only [byteAt, patch, overlay]
  by_cases inWindow : m.base.toNat ≤ i
  · have other : addr - m.base.toNat ≠ i - m.base.toNat := by omega
    simp only [inWindow, if_true]
    rw [Array.getElem?_setIfInBounds_ne other]
  · simp only [inWindow, if_false]

namespace Event

/-- What may be seen of an event apart from the rest of it. A word between `start` and `stop` is
seen as a whole. -/
def parts (start stop : Nat) : Event → List Event
  | write addr bytes =>
    if start ≤ addr ∧ addr + bytes.length ≤ stop then [.write addr bytes]
    else bytes.zipIdx.map fun p => .write (addr + p.2) [p.1]
  | barrier => []
  | flush _ _ => []
  | notify => []

/-- An event that writes nothing. -/
def Quiet : Event → Prop
  | write _ _ => False
  | barrier => True
  | flush _ _ => True
  | notify => True

theorem Quiet.onMemory {e : Event} (h : e.Quiet) (m : Memory) : e.onMemory m = m := by
  cases e with
  | write addr bytes => cases h
  | _ => rfl

theorem Quiet.parts_eq {e : Event} (h : e.Quiet) : e.parts start stop = [] := by
  cases e with
  | write addr bytes => cases h
  | _ => rfl

/-- On every memory with the window of `m` an event changes nothing from one address up to
another. -/
def Spares (m : Memory) (a b : Nat) (e : Event) : Prop :=
  ∀ m' : Memory, m'.base = m.base → m'.size = m.size → m'.AgreeOn (e.onMemory m') a b

theorem Fits.spares {e : Event} (fits : e.Fits m) (misses : e.Misses a b) : e.Spares m a b := by
  intro m' base size
  have fits' : e.Fits m' := by
    cases e <;> simp only [Fits, Memory.Covers, base, size] at fits ⊢
    exact fits
  exact misses.agreeOn fits'

/-- A part of an event writes nowhere else. -/
theorem spares_of_mem_parts {e part : Event} (fits : e.Fits m) (misses : e.Misses a b)
    (mem : part ∈ e.parts start stop) : part.Spares m a b := by
  cases e with
  | write addr bytes =>
    simp only [parts] at mem
    split at mem
    case isTrue =>
      rw [List.mem_singleton.mp mem]
      exact fits.spares misses
    case isFalse =>
      obtain ⟨⟨byte, i⟩, here, rfl⟩ := List.mem_map.mp mem
      have inBytes : i < bytes.length := by
        have := (List.mem_zipIdx here).2.1
        omega
      intro m' base size
      refine Memory.agreeOn_patch_one byte ?_ ?_
      · have lower := fits.2.1
        rw [base]
        omega
      · simp only [Misses] at misses
        dsimp only
        omega
  | _ => cases mem

end Event

theorem Memory.agreeOn_of_spares {es : List Event} (h : ∀ e ∈ es, e.Spares m a b) :
    m.AgreeOn (m.after es) a b := by
  suffices ∀ m' : Memory, m'.base = m.base → m'.size = m.size → m'.AgreeOn (m'.after es) a b from
    this m rfl rfl
  induction es with
  | nil => exact fun _ _ _ _ _ _ => rfl
  | cons e es ih =>
    intro m' base size
    refine (h e List.mem_cons_self m' base size).trans ?_
    exact ih (fun e' mem => h e' (List.mem_cons_of_mem e mem)) _
      ((e.base_onMemory m').trans base) ((e.size_onMemory m').trans size)

theorem Memory.after_quiet {es : List Event} (h : ∀ e ∈ es, e.Quiet) : m.after es = m := by
  induction es with
  | nil => rfl
  | cons e es ih =>
    rw [after_cons, (h e List.mem_cons_self).onMemory]
    exact ih fun e' mem => h e' (List.mem_cons_of_mem e mem)

/-- The memory after work that writes, raises a barrier, and then writes one more word. -/
theorem Memory.after_covered (m : Memory) (ws : List Event) (w : Event) {rest : List Event}
    (quiet : ∀ e ∈ rest, e.Quiet) :
    m.after (ws ++ .barrier :: w :: .barrier :: rest) = w.onMemory (m.after ws) := by
  rw [after_append]
  exact after_quiet quiet

/-- What the other core may see of memory `m` when `done` was done to it: all that was written
before some moment after the last barrier, and any part of what was written since. -/
def Visible (start stop : Nat) (m : Memory) (done : List Event) (m' : Memory) : Prop :=
  ∃ before since seen, done = before ++ since ∧ .barrier ∉ since ∧
    seen.Subperm (since.flatMap (Event.parts start stop)) ∧ m' = (m.after before).after seen

/-- Some events raise a barrier and write nothing behind it. -/
def Settled (es : List Event) : Prop :=
  ∃ before behind, es = before ++ .barrier :: behind ∧ ∀ e ∈ behind, e.Quiet

theorem Settled.covered (ws : List Event) (w : Event) {rest : List Event}
    (quiet : ∀ e ∈ rest, e.Quiet) : Settled (ws ++ .barrier :: w :: .barrier :: rest) :=
  ⟨ws ++ [.barrier, w], rest, by simp, quiet⟩

theorem Settled.append_left {es : List Event} (h : Settled es) (earlier : List Event) :
    Settled (earlier ++ es) := by
  obtain ⟨before, behind, rfl, quiet⟩ := h
  exact ⟨earlier ++ before, behind, (List.append_assoc _ _ _).symm, quiet⟩

/-- Events without a barrier at the end of settled ones write nothing. -/
theorem Settled.quiet {before since : List Event} (h : Settled (before ++ since))
    (noBarrier : .barrier ∉ since) : ∀ e ∈ since, e.Quiet := by
  obtain ⟨before', behind, split, quiet⟩ := h
  rcases List.append_eq_append_iff.mp split with ⟨more, rfl, rfl⟩ | ⟨more, rfl, tail⟩
  · simp at noBarrier
  · cases more with
    | nil =>
      rw [List.nil_append] at tail
      rw [← tail] at noBarrier
      simp at noBarrier
    | cons first more =>
      obtain ⟨-, rfl⟩ := List.cons.inj tail
      exact fun e mem => quiet e (List.mem_append_right _ mem)

namespace Visible

variable {done ws rest es : List Event} {w : Event}

/-- What has a barrier behind it is seen. -/
theorem of_settled (settled : Settled es) (h : Visible start stop m (es ++ done) m') :
    Visible start stop (m.after es) done m' := by
  obtain ⟨before, since, seen, split, noBarrier, some, rfl⟩ := h
  rcases List.append_eq_append_iff.mp split with ⟨more, rfl, rfl⟩ | ⟨more, rfl, rfl⟩
  · exact ⟨more, since, seen, rfl, noBarrier, some, by rw [Memory.after_append]⟩
  · have quiet := settled.quiet fun mem => noBarrier (List.mem_append_left _ mem)
    refine ⟨[], done, seen, rfl, fun mem => noBarrier (List.mem_append_right _ mem), ?_, ?_⟩
    · have nothing : more.flatMap (Event.parts start stop) = [] :=
        List.flatMap_eq_nil_iff.mpr fun e mem => (quiet e mem).parts_eq
      rwa [List.flatMap_append, nothing, List.nil_append] at some
    · rw [Memory.after_append, Memory.after_quiet quiet]
      rfl

/-- The other core sees changes only where something was written. -/
theorem agreeOn (h : Visible start stop m done m') (away : ∀ e ∈ done, e.Fits m ∧ e.Misses a b) :
    m.AgreeOn m' a b := by
  obtain ⟨before, since, seen, rfl, -, some, rfl⟩ := h
  rw [← Memory.after_append]
  apply Memory.agreeOn_of_spares
  intro e mem
  rcases List.mem_append.mp mem with mem | mem
  · obtain ⟨fits, misses⟩ := away e (List.mem_append_left _ mem)
    exact fits.spares misses
  · obtain ⟨whole, written, part⟩ := List.mem_flatMap.mp (some.subset mem)
    obtain ⟨fits, misses⟩ := away whole (List.mem_append_right _ written)
    exact Event.spares_of_mem_parts fits misses part

/-- Where nothing was written nothing changes. -/
theorem eq_of_quiet (h : Visible start stop m done m') (quiet : ∀ e ∈ done, e.Quiet) : m' = m := by
  obtain ⟨before, since, seen, rfl, -, some, rfl⟩ := h
  have nothing : since.flatMap (Event.parts start stop) = [] :=
    List.flatMap_eq_nil_iff.mpr fun e mem => (quiet e (List.mem_append_right _ mem)).parts_eq
  rw [nothing, List.subperm_nil] at some
  rw [some, Memory.after_nil, Memory.after_quiet fun e mem => quiet e (List.mem_append_left _ mem)]

/-- A word that was written is seen or not. -/
theorem eq_or_eq_of_word (whole : w.parts start stop = [w]) (h : Visible start stop m [w] m') :
    m' = m ∨ m' = w.onMemory m := by
  obtain ⟨before, since, seen, split, -, some, rfl⟩ := h
  rcases List.append_eq_singleton_iff.mp split.symm with ⟨rfl, rfl⟩ | ⟨rfl, rfl⟩
  · have word : [w].flatMap (Event.parts start stop) = [w] := by
      rw [List.flatMap_singleton, whole]
    rw [word, List.subperm_singleton_iff] at some
    rcases some with rfl | rfl
    · exact .inl rfl
    · exact .inr rfl
  · rw [List.flatMap_nil, List.subperm_nil] at some
    rw [some]
    exact .inr rfl

/-- At every point of work that writes one word and raises a barrier that word is seen or not. -/
theorem eq_or_eq (h : Visible start stop m done m') (point : done <+: w :: .barrier :: rest)
    (whole : w.parts start stop = [w]) (quiet : ∀ e ∈ rest, e.Quiet) :
    m' = m ∨ m' = w.onMemory m := by
  rcases List.prefix_cons_iff.mp point with rfl | ⟨behind, rfl, later⟩
  · exact .inl (h.eq_of_quiet nofun)
  rcases List.prefix_cons_iff.mp later with rfl | ⟨rest', rfl, last⟩
  · exact h.eq_or_eq_of_word whole
  · have seen : Visible start stop (w.onMemory m) rest' m' := of_settled ⟨[w], [], rfl, nofun⟩ h
    exact .inr (seen.eq_of_quiet fun e mem => quiet e (last.subset mem))

/-- At every point of work that writes, raises a barrier, and then writes one more word: what the
other core sees differs only where was written before the barrier, or it sees everything. -/
theorem agreeOn_or_eq (h : Visible start stop m done m')
    (point : done <+: ws ++ .barrier :: w :: .barrier :: rest) (whole : w.parts start stop = [w])
    (quiet : ∀ e ∈ rest, e.Quiet) :
    (∀ a b, (∀ e ∈ ws, e.Fits m ∧ e.Misses a b) → m.AgreeOn m' a b) ∨
      m' = m.after (ws ++ .barrier :: w :: .barrier :: rest) := by
  rcases prefix_append_cases point with early | ⟨behind, rfl, later⟩
  · exact .inl fun a b away => h.agreeOn fun e mem => away e (early.subset mem)
  rcases List.prefix_cons_iff.mp later with rfl | ⟨behind, rfl, last⟩
  · rw [List.append_nil] at h
    exact .inl fun a b away => h.agreeOn away
  · -- The first barrier was raised.
    have seen : Visible start stop (m.after (ws ++ [.barrier])) behind m' := by
      refine of_settled ⟨ws, [], rfl, nofun⟩ ?_
      rwa [List.append_assoc]
    rw [Memory.after_append] at seen
    rcases seen.eq_or_eq last whole quiet with rfl | same
    · exact .inl fun a b away => Memory.agreeOn_after away
    · exact .inr (same.trans (m.after_covered ws w quiet).symm)

end Visible

end InterCore
