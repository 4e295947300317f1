import InterCore.Proofs.Ring.Run
import Mathlib.Data.List.Nodup

/-!
# Who has which descriptor

If the driver offers only descriptors that it has, and the device hands back only those that it
took, every descriptor of the ring is at every moment in exactly one place: with the driver, in the
available ring, with the device, or in the used ring. `Custody` keeps the account of the two ends,
told from the record of the run; the other two places are the queues that lie in the memory. So no
queue outgrows the ring, and a descriptor goes round through all four places before the device can
take it once more.
-/

namespace InterCore.Ring

/-- A descriptor goes from one place to the next. -/
inductive Move where
  | offered (i : Nat)
  | taken (i : Nat)
  | published (i : Nat)
  | collected (i : Nat)
  deriving DecidableEq, Repr

/-- The descriptors that moved, in order. -/
def movesIn (past : List Record) : List Move :=
  past.filterMap fun
    | (.offer idx, _) => some (.offered idx.toNat)
    | (.take, .index (some idx)) => some (.taken idx.toNat)
    | (.publish idx _ _, _) => some (.published idx.toNat)
    | (.takeUsed, .elem (some x)) => some (.collected x.id.toNat)
    | _ => none

theorem movesIn_append (past later : List Record) :
    movesIn (past ++ later) = movesIn past ++ movesIn later :=
  List.filterMap_append

/-- The descriptors that either end has. -/
structure Custody where
  driver : List Nat
  device : List Nat
  deriving DecidableEq, Repr

namespace Custody

/-- Who has which descriptor after a move. -/
def after (c : Custody) : Move → Custody
  | .offered i => { c with driver := c.driver.erase i }
  | .taken i => { c with device := i :: c.device }
  | .published i => { c with device := c.device.erase i }
  | .collected i => { c with driver := i :: c.driver }

/-- An end gives only what it has. -/
def Allows (c : Custody) : Use → Prop
  | .offer idx => idx.toNat ∈ c.driver
  | .publish idx _ _ => idx.toNat ∈ c.device
  | _ => True

instance (c : Custody) : (u : Use) → Decidable (c.Allows u)
  | .offer idx => inferInstanceAs (Decidable (idx.toNat ∈ c.driver))
  | .publish idx _ _ => inferInstanceAs (Decidable (idx.toNat ∈ c.device))
  | .take => inferInstanceAs (Decidable True)
  | .hasIncoming => inferInstanceAs (Decidable True)
  | .takeUsed => inferInstanceAs (Decidable True)
  | .hasUsed => inferInstanceAs (Decidable True)

end Custody

/-- Who has which of `num` descriptors after what was done; at first the driver has them all. -/
def custody (num : Nat) (past : List Record) : Custody :=
  (movesIn past).foldl Custody.after ⟨List.range num, []⟩

/-- The ends give only what they have. -/
def Owned (num : Nat) (past : List Record) (u : Use) : Prop :=
  (custody num past).Allows u

instance (num : Nat) (past : List Record) (u : Use) : Decidable (Owned num past u) :=
  inferInstanceAs (Decidable ((custody num past).Allows u))

theorem custody_append (num : Nat) (past later : List Record) :
    custody num (past ++ later) = (movesIn later).foldl Custody.after (custody num past) := by
  rw [custody, movesIn_append, List.foldl_append]
  rfl

namespace Queues

/-- The descriptors in the available ring. -/
def offeredIds (q : Queues) : List Nat :=
  q.offered.map UInt16.toNat

/-- The descriptors in the used ring. -/
def returnedIds (q : Queues) : List Nat :=
  q.returned.map fun x => x.id.toNat

end Queues

/-- The descriptors in all four places. -/
def everywhere (c : Custody) (q : Queues) : List Nat :=
  c.driver ++ q.offeredIds ++ c.device ++ q.returnedIds

/-! ## No descriptor is lost or doubled -/

section Conservation

variable {c : Custody} {q : Queues} {u : Use}

theorem count_everywhere (c : Custody) (q : Queues) (i : Nat) :
    (everywhere c q).count i =
      c.driver.count i + q.offeredIds.count i + c.device.count i + q.returnedIds.count i := by
  rw [everywhere, List.count_append, List.count_append, List.count_append]

/-- A use moves at most one descriptor, and leaves it in one place. -/
theorem everywhere_use (allowed : c.Allows u) :
    (everywhere ((movesIn [(u, (q.use u).1)]).foldl Custody.after c) (q.use u).2).Perm
      (everywhere c q) := by
  obtain ⟨offered, returned⟩ := q
  apply List.perm_iff_count.mpr
  intro i
  cases u with
  | offer idx =>
    have moved := (List.perm_cons_erase (show idx.toNat ∈ c.driver from allowed)).count_eq i
    show (everywhere ⟨c.driver.erase idx.toNat, c.device⟩ ⟨offered ++ [idx], returned⟩).count i = _
    rw [List.count_cons] at moved
    simp only [count_everywhere, Queues.offeredIds, Queues.returnedIds, List.map_append,
      List.map_cons, List.map_nil, List.count_append, List.count_singleton]
    omega
  | publish idx len kick =>
    have moved := (List.perm_cons_erase (show idx.toNat ∈ c.device from allowed)).count_eq i
    show (everywhere ⟨c.driver, c.device.erase idx.toNat⟩
      ⟨offered, returned ++ [⟨idx.toUInt32, len⟩]⟩).count i = _
    rw [List.count_cons] at moved
    simp only [count_everywhere, Queues.offeredIds, Queues.returnedIds, List.map_append,
      List.map_cons, List.map_nil, List.count_append, List.count_singleton,
      UInt16.toNat_toUInt32]
    omega
  | take =>
    cases offered with
    | nil => rfl
    | cons first rest =>
      show (everywhere ⟨c.driver, first.toNat :: c.device⟩ ⟨rest, returned⟩).count i = _
      simp only [count_everywhere, Queues.offeredIds, Queues.returnedIds, List.map_cons,
        List.count_cons]
      omega
  | takeUsed =>
    cases returned with
    | nil => rfl
    | cons first rest =>
      show (everywhere ⟨first.id.toNat :: c.driver, c.device⟩ ⟨offered, rest⟩).count i = _
      simp only [count_everywhere, Queues.offeredIds, Queues.returnedIds, List.map_cons,
        List.count_cons]
      omega
  | hasIncoming => rfl
  | hasUsed => rfl

variable {num : Nat}

/-- Every descriptor of a ring is in exactly one place. -/
def Conserved (num : Nat) (c : Custody) (q : Queues) : Prop :=
  (everywhere c q).Perm (List.range num)

theorem Conserved.length_eq (h : Conserved num c q) :
    c.driver.length + q.offered.length + c.device.length + q.returned.length = num := by
  have total := List.Perm.length_eq h
  simp only [everywhere, Queues.offeredIds, Queues.returnedIds, List.length_append,
    List.length_map, List.length_range] at total
  exact total

theorem Conserved.count_le (h : Conserved num c q) (i : Nat) :
    c.driver.count i + q.offeredIds.count i + c.device.count i + q.returnedIds.count i ≤ 1 := by
  rw [← count_everywhere, List.Perm.count_eq h]
  exact List.nodup_iff_count_le_one.mp List.nodup_range i

theorem Conserved.lt_of_device (h : Conserved num c q) {i : Nat} (mem : i ∈ c.device) : i < num := by
  refine List.mem_range.mp ((List.Perm.mem_iff h).mp ?_)
  simp [everywhere, mem]

/-- The capacity of a ring follows from custody. -/
theorem Conserved.room (h : Conserved num c q) (allowed : c.Allows u) : q.Room num u := by
  have total := h.length_eq
  cases u with
  | offer idx =>
    have some : 0 < c.driver.length := List.length_pos_of_mem allowed
    show q.offered.length < num
    omega
  | publish idx len kick =>
    have some : 0 < c.device.length := List.length_pos_of_mem allowed
    refine ⟨h.lt_of_device allowed, ?_⟩
    omega
  | _ => trivial

theorem Conserved.use (h : Conserved num c q) (allowed : c.Allows u) :
    Conserved num ((movesIn [(u, (q.use u).1)]).foldl Custody.after c) (q.use u).2 :=
  (everywhere_use allowed).trans h

end Conservation

/-! ## A descriptor goes round -/

/-- The way of a descriptor from the device back to the available ring. -/
def roundOf (i : Nat) : List Move :=
  [.published i, .collected i, .offered i]

/-- How far a descriptor came since the device took it: where it is now tells which moves it made
meanwhile. -/
structure Since (i : Nat) (between : List Move) (c : Custody) (q : Queues) : Prop where
  returned : i ∈ q.returnedIds → List.Sublist [.published i] between
  driver : i ∈ c.driver → List.Sublist [.published i, .collected i] between
  offered : i ∈ q.offeredIds → (roundOf i).Sublist between

namespace Since

variable {c : Custody} {q : Queues} {u : Use} {num i : Nat} {between : List Move}

/-- A descriptor that the device has is nowhere else, so it made no move yet. -/
theorem start (h : Conserved num c q) (mem : i ∈ c.device) : Since i [] c q := by
  have once := h.count_le i
  have here := List.count_pos_iff.mpr mem
  refine ⟨?_, ?_, ?_⟩
  all_goals
    intro elsewhere
    have there := List.count_pos_iff.mpr elsewhere
    omega

/-- A use adds the move of the descriptor that it moves. -/
theorem use (h : Since i between c q) (allowed : c.Allows u) :
    Since i (between ++ movesIn [(u, (q.use u).1)])
      ((movesIn [(u, (q.use u).1)]).foldl Custody.after c) (q.use u).2 := by
  obtain ⟨offered, returned⟩ := q
  have returnedLater (m : List Move) (mem : i ∈ Queues.returnedIds ⟨offered, returned⟩) :=
    (h.returned mem).trans (List.sublist_append_left between m)
  have driverLater (m : List Move) (mem : i ∈ c.driver) :=
    (h.driver mem).trans (List.sublist_append_left between m)
  have offeredLater (m : List Move) (mem : i ∈ Queues.offeredIds ⟨offered, returned⟩) :=
    (h.offered mem).trans (List.sublist_append_left between m)
  cases u with
  | offer idx =>
    refine ⟨returnedLater _, fun mem => driverLater _ (List.mem_of_mem_erase mem), ?_⟩
    intro mem
    rw [Queues.offeredIds, Queues.use, List.map_append] at mem
    rcases List.mem_append.mp mem with old | new
    · exact offeredLater _ old
    · obtain rfl : i = idx.toNat := List.mem_singleton.mp new
      exact (h.driver allowed).append (List.Sublist.refl [Move.offered idx.toNat])
  | publish idx len kick =>
    refine ⟨?_, driverLater _, offeredLater _⟩
    intro mem
    rw [Queues.returnedIds, Queues.use, List.map_append] at mem
    rcases List.mem_append.mp mem with old | new
    · exact returnedLater _ old
    · obtain rfl : i = idx.toNat := List.mem_singleton.mp new
      exact List.sublist_append_right _ _
  | take =>
    cases offered with
    | nil => exact ⟨returnedLater _, driverLater _, offeredLater _⟩
    | cons first rest =>
      exact ⟨returnedLater _, driverLater _, fun mem => offeredLater _ (List.mem_cons_of_mem _ mem)⟩
  | takeUsed =>
    cases returned with
    | nil => exact ⟨returnedLater _, driverLater _, offeredLater _⟩
    | cons first rest =>
      refine ⟨fun mem => returnedLater _ (List.mem_cons_of_mem _ mem), ?_, offeredLater _⟩
      intro mem
      rcases List.mem_cons.mp mem with rfl | old
      · exact (h.returned List.mem_cons_self).append
          (List.Sublist.refl [Move.collected first.id.toNat])
      · exact driverLater _ old
  | hasIncoming => exact ⟨returnedLater _, driverLater _, offeredLater _⟩
  | hasUsed => exact ⟨returnedLater _, driverLater _, offeredLater _⟩

end Since

/-- A use moves at most one descriptor. -/
theorem length_movesIn_singleton (r : Record) : (movesIn [r]).length ≤ 1 :=
  List.length_filterMap_le _ [r]

/-- Where an element of a list stands to which at most one was added. -/
theorem append_eq_append_cons {α : Type} {past later before rest : List α} {x : α}
    (short : later.length ≤ 1) (h : past ++ later = before ++ x :: rest) :
    (∃ rest', past = before ++ x :: rest' ∧ rest = rest' ++ later) ∨
      past = before ∧ later = [x] ∧ rest = [] := by
  rcases List.append_eq_append_iff.mp h with ⟨more, rfl, eq⟩ | ⟨more, rfl, eq⟩
  · rw [eq, List.length_append, List.length_cons] at short
    obtain rfl : more = [] := List.length_eq_zero_iff.mp (by omega)
    obtain rfl : rest = [] := List.length_eq_zero_iff.mp (by omega)
    exact .inr ⟨(List.append_nil _).symm, eq, rfl⟩
  · cases more with
    | nil =>
      obtain rfl : later = x :: rest := eq.symm
      obtain rfl : rest = [] := List.length_eq_zero_iff.mp (by simpa using short)
      exact .inr ⟨List.append_nil _, rfl, rfl⟩
    | cons y rest' =>
      obtain ⟨rfl, rfl⟩ := List.cons.inj eq
      exact .inl ⟨rest', rfl, rfl⟩

/-- The device takes only what lies in the available ring. -/
theorem Queues.mem_offeredIds_of_taken {q : Queues} {u : Use} {i : Nat}
    (moved : movesIn [(u, (q.use u).1)] = [.taken i]) : i ∈ q.offeredIds := by
  obtain ⟨offered, returned⟩ := q
  cases u with
  | take =>
    cases offered with
    | nil => cases moved
    | cons first rest =>
      cases moved
      exact List.mem_cons_self
  | takeUsed => cases returned <;> cases moved
  | _ => cases moved

/-- What the record of a run and the queues tell of the descriptors. -/
structure Circulates (num : Nat) (past : List Record) (q : Queues) : Prop where
  conserved : Conserved num (custody num past) q
  since : ∀ i before between, movesIn past = before ++ .taken i :: between →
    Since i between (custody num past) q
  rounds : ∀ i before between after,
    movesIn past = (before ++ .taken i :: between) ++ .taken i :: after →
      (roundOf i).Sublist between

namespace Circulates

variable {num : Nat} {past : List Record} {q : Queues} {u : Use}

/-- At first the driver has every descriptor, and none has moved. -/
theorem start (num : Nat) : Circulates num [] {} := by
  refine ⟨?_, ?_, ?_⟩
  · simp [Conserved, everywhere, custody, movesIn, Queues.offeredIds, Queues.returnedIds]
  · intro i before between moves
    simp [movesIn] at moves
  · intro i before between after moves
    simp [movesIn] at moves

theorem use (h : Circulates num past q) (owned : Owned num past u) :
    Circulates num (past ++ [(u, (q.use u).1)]) (q.use u).2 := by
  have short := length_movesIn_singleton (u, (q.use u).1)
  refine ⟨?_, ?_, ?_⟩
  · rw [custody_append]
    exact h.conserved.use owned
  · intro i before between moves
    rw [movesIn_append] at moves
    rw [custody_append]
    rcases append_eq_append_cons short moves with ⟨rest, earlier, rfl⟩ | ⟨-, new, rfl⟩
    · exact (h.since i before rest earlier).use owned
    · refine Since.start (h.conserved.use owned) ?_
      rw [new]
      exact List.mem_cons_self
  · intro i before between after moves
    rw [movesIn_append] at moves
    rcases append_eq_append_cons short moves with ⟨rest, earlier, rfl⟩ | ⟨earlier, new, rfl⟩
    · exact h.rounds i before between rest earlier
    · -- The device takes from the available ring, the last place of the round.
      exact (h.since i before between earlier).offered (Queues.mem_offeredIds_of_taken new)

end Circulates

variable {base : UInt32} {num : UInt16} {buffers bufSize : UInt32} {bus : Bus}

/-- In every run in which the ends give only what they have, each descriptor of the ring is in
exactly one of its four places; neither queue outgrows the ring, every further such use succeeds as
the use of the two queues, and the device takes a descriptor again only after it went round. -/
theorem descriptors_conserved (placed : Placed base num buffers bufSize bus.memory) :
    ∃ start, Ends.setUp base num buffers bufSize bus = .ok start ∧
      ∀ past e, start.Run (Owned num.toNat) past e →
        Conserved num.toNat (custody num.toNat past) e.queues ∧
          e.queues.offered.length ≤ num.toNat ∧ e.queues.returned.length ≤ num.toNat ∧
          (∀ u, Owned num.toNat past u → ∃ e',
            e.use u = .ok ((e.queues.use u).1, e') ∧ e'.queues = (e.queues.use u).2) ∧
          ∀ i before between after,
            movesIn past = (before ++ .taken i :: between) ++ .taken i :: after →
              (roundOf i).Sublist between := by
  obtain ⟨start, created, sound, empty, size⟩ := placed.setUp
  refine ⟨start, created, ?_⟩
  intro past e run
  have init : Circulates num.toNat [] start.queues := by
    rw [empty]
    exact .start num.toNat
  obtain ⟨soundNow, circulates, sizeNow⟩ :=
    run.invariant (fun _ _ _ h => h.conserved.room) (fun _ _ _ h => h.use) sound
      (congrArg UInt16.toNat size) init
  have total := circulates.conserved.length_eq
  refine ⟨circulates.conserved, by omega, by omega, ?_, circulates.rounds⟩
  intro u owned
  obtain ⟨e', used, -, queues', -⟩ :=
    soundNow.use (u := u) (by rw [sizeNow]; exact circulates.conserved.room owned)
  exact ⟨e', used, queues'⟩

/-- The driver offers one descriptor of a ring of two. -/
theorem descriptors_conserved_after_offer :
    Placed 0x1000 2 0x8000 64 uncleared.memory ∧
      ∃ start e,
        Ends.setUp 0x1000 2 0x8000 64 uncleared = .ok start ∧
          start.use (.offer 1) = .ok (.done, e) ∧ Conserved 2 ⟨[0], []⟩ e.queues := by
  obtain ⟨start, created, holds⟩ := descriptors_conserved placed_uncleared
  have run₀ : start.Run (Owned 2) [] start := .start
  obtain ⟨-, -, -, answers, -⟩ := holds _ _ run₀
  obtain ⟨e, used, -⟩ := answers (.offer 1) (by decide)
  have run₁ := run₀.use (by decide) used
  exact ⟨placed_uncleared, start, e, created, used, (holds _ _ run₁).1⟩

end InterCore.Ring
