import InterCore.Proofs.Ring.Run

/-!
# A ring is two queues

What was offered comes out at the device in order, and what was handed back comes out at the driver
in order, for runs of any length. The answers are told from the record of the run alone
(`expected`): the next answer of a reading end is the first entry that was put in and not yet taken
out, and there is none exactly when all of them were taken out. The only promise of the callers is
that a ring never holds more entries than it has descriptors.
-/

namespace InterCore.Ring

/-- The descriptors that were offered, in order. -/
def offeredIn (past : List Record) : List UInt16 :=
  past.filterMap fun
    | (.offer idx, _) => some idx
    | _ => none

/-- The descriptors that the device took, in order. -/
def takenIn (past : List Record) : List UInt16 :=
  past.filterMap fun
    | (.take, .index (some idx)) => some idx
    | _ => none

/-- The elements that the device handed back, in order. -/
def publishedIn (past : List Record) : List UsedElem :=
  past.filterMap fun
    | (.publish idx len _, _) => some ⟨idx.toUInt32, len⟩
    | _ => none

/-- The elements that the driver took, in order. -/
def collectedIn (past : List Record) : List UsedElem :=
  past.filterMap fun
    | (.takeUsed, .elem (some x)) => some x
    | _ => none

theorem offeredIn_append (past later : List Record) :
    offeredIn (past ++ later) = offeredIn past ++ offeredIn later :=
  List.filterMap_append

theorem takenIn_append (past later : List Record) :
    takenIn (past ++ later) = takenIn past ++ takenIn later :=
  List.filterMap_append

theorem publishedIn_append (past later : List Record) :
    publishedIn (past ++ later) = publishedIn past ++ publishedIn later :=
  List.filterMap_append

theorem collectedIn_append (past later : List Record) :
    collectedIn (past ++ later) = collectedIn past ++ collectedIn later :=
  List.filterMap_append

/-- What a use answers after what was done before: the reading ends get the first entry that they
have not got yet, and the others see whether there is one. -/
def expected (past : List Record) : Use → Answer
  | .offer _ => .done
  | .take => .index (offeredIn past)[(takenIn past).length]?
  | .hasIncoming => .flag (decide ((takenIn past).length < (offeredIn past).length))
  | .publish _ _ _ => .done
  | .takeUsed => .elem (publishedIn past)[(collectedIn past).length]?
  | .hasUsed => .flag (decide ((collectedIn past).length < (publishedIn past).length))

/-- A use leaves at most `num` offered descriptors that were not taken, and at most `num` elements
that were not collected; only descriptors of the ring are handed back. -/
def WithinCapacity (num : Nat) (past : List Record) : Use → Prop
  | .offer _ => (offeredIn past).length < (takenIn past).length + num
  | .publish idx _ _ =>
    idx.toNat < num ∧ (publishedIn past).length < (collectedIn past).length + num
  | _ => True

instance (num : Nat) (past : List Record) : (u : Use) → Decidable (WithinCapacity num past u)
  | .offer _ => inferInstanceAs (Decidable (_ < _))
  | .publish _ _ _ => inferInstanceAs (Decidable (_ ∧ _))
  | .take => inferInstanceAs (Decidable True)
  | .hasIncoming => inferInstanceAs (Decidable True)
  | .takeUsed => inferInstanceAs (Decidable True)
  | .hasUsed => inferInstanceAs (Decidable True)

/-- The queues hold what was put in and not yet taken out. -/
structure Queues.Holds (q : Queues) (past : List Record) : Prop where
  offered : offeredIn past = takenIn past ++ q.offered
  returned : publishedIn past = collectedIn past ++ q.returned

namespace Queues.Holds

variable {q : Queues} {past : List Record}

theorem answer (h : q.Holds past) (u : Use) : (q.use u).1 = expected past u := by
  cases u with
  | offer idx => rfl
  | publish idx len kick => rfl
  | take =>
    rw [Queues.use, expected, h.offered, List.getElem?_append_right (Nat.le_refl _), Nat.sub_self,
      List.head?_eq_getElem?]
  | takeUsed =>
    rw [Queues.use, expected, h.returned, List.getElem?_append_right (Nat.le_refl _), Nat.sub_self,
      List.head?_eq_getElem?]
  | hasIncoming =>
    rw [Queues.use, expected, h.offered]
    cases q.offered <;> simp
  | hasUsed =>
    rw [Queues.use, expected, h.returned]
    cases q.returned <;> simp

theorem room (h : q.Holds past) {num : Nat} {u : Use} (admitted : WithinCapacity num past u) :
    q.Room num u := by
  cases u with
  | offer idx =>
    have count := congrArg List.length h.offered
    rw [List.length_append] at count
    have few : (offeredIn past).length < (takenIn past).length + num := admitted
    show q.offered.length < num
    omega
  | publish idx len kick =>
    have count := congrArg List.length h.returned
    rw [List.length_append] at count
    obtain ⟨inRing, few⟩ := admitted
    refine ⟨inRing, ?_⟩
    omega
  | _ => trivial

end Queues.Holds

/-- A use takes out of a queue what it answers and puts in what it was given. -/
theorem Queues.balance (q : Queues) (u : Use) :
    q.offered ++ offeredIn [(u, (q.use u).1)] =
        takenIn [(u, (q.use u).1)] ++ (q.use u).2.offered ∧
      q.returned ++ publishedIn [(u, (q.use u).1)] =
        collectedIn [(u, (q.use u).1)] ++ (q.use u).2.returned := by
  obtain ⟨offered, returned⟩ := q
  cases u with
  | offer idx => exact ⟨rfl, List.append_nil _⟩
  | publish idx len kick => exact ⟨List.append_nil _, rfl⟩
  | take =>
    refine ⟨?_, List.append_nil _⟩
    cases offered with
    | nil => rfl
    | cons first rest => exact List.append_nil _
  | takeUsed =>
    refine ⟨List.append_nil _, ?_⟩
    cases returned with
    | nil => rfl
    | cons first rest => exact List.append_nil _
  | hasIncoming => exact ⟨List.append_nil _, List.append_nil _⟩
  | hasUsed => exact ⟨List.append_nil _, List.append_nil _⟩

/-- A use keeps the account of what is in the queues. -/
theorem Queues.Holds.use {q : Queues} {past : List Record} (h : q.Holds past) (u : Use) :
    (q.use u).2.Holds (past ++ [(u, (q.use u).1)]) := by
  obtain ⟨offered, returned⟩ := q.balance u
  refine ⟨?_, ?_⟩
  · rw [offeredIn_append, takenIn_append, h.offered, List.append_assoc, offered, List.append_assoc]
  · rw [publishedIn_append, collectedIn_append, h.returned, List.append_assoc, returned,
      List.append_assoc]

variable {base : UInt32} {num : UInt16} {buffers bufSize : UInt32} {bus : Bus}

/-- A ring refines two queues: in every run within its capacity the descriptors that the device
takes are those that were offered and the elements that the driver collects are those that were
handed back, each in order, and every further use within the capacity succeeds with the answer that
the two queues give. -/
theorem ring_refines_queues (placed : Placed base num buffers bufSize bus.memory) :
    ∃ start, Ends.setUp base num buffers bufSize bus = .ok start ∧
      ∀ past e, start.Run (WithinCapacity num.toNat) past e →
        takenIn past <+: offeredIn past ∧ collectedIn past <+: publishedIn past ∧
          ∀ u, WithinCapacity num.toNat past u → ∃ e', e.use u = .ok (expected past u, e') := by
  obtain ⟨start, created, sound, empty, size⟩ := placed.setUp
  refine ⟨start, created, ?_⟩
  intro past e run
  have init : start.queues.Holds [] := by
    rw [empty]
    exact ⟨rfl, rfl⟩
  obtain ⟨soundNow, held, sizeNow⟩ :=
    run.invariant (P := fun past q => q.Holds past) (fun _ _ _ held => held.room)
      (fun _ _ u held _ => held.use u) sound (congrArg UInt16.toNat size) init
  refine ⟨⟨_, held.offered.symm⟩, ⟨_, held.returned.symm⟩, ?_⟩
  intro u admitted
  obtain ⟨e', used, -⟩ := soundNow.use (u := u) (by rw [sizeNow]; exact held.room admitted)
  exact ⟨e', by rw [used, held.answer]⟩

/-- A ring of two descriptors, filled up and read. -/
theorem ring_refines_queues_when_full :
    Placed 0x1000 2 0x8000 64 uncleared.memory ∧
      ∃ start e₁ e₂ e₃ e₄,
        Ends.setUp 0x1000 2 0x8000 64 uncleared = .ok start ∧
          start.use (.offer 1) = .ok (.done, e₁) ∧ e₁.use (.offer 0) = .ok (.done, e₂) ∧
          e₂.use .take = .ok (.index (some 1), e₃) ∧ e₃.use .hasUsed = .ok (.flag false, e₄) := by
  obtain ⟨start, created, answers⟩ := ring_refines_queues placed_uncleared
  have run₀ : start.Run (WithinCapacity 2) [] start := .start
  obtain ⟨e₁, used₁⟩ := (answers _ _ run₀).2.2 (.offer 1) (by decide)
  have run₁ := run₀.use (by decide) used₁
  obtain ⟨e₂, used₂⟩ := (answers _ _ run₁).2.2 (.offer 0) (by decide)
  have run₂ := run₁.use (by decide) used₂
  obtain ⟨e₃, used₃⟩ := (answers _ _ run₂).2.2 .take (by decide)
  have run₃ := run₂.use (by decide) used₃
  obtain ⟨e₄, used₄⟩ := (answers _ _ run₃).2.2 .hasUsed (by decide)
  exact ⟨placed_uncleared, start, e₁, e₂, e₃, e₄, created, used₁, used₂, used₃, used₄⟩

end InterCore.Ring
