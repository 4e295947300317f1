import InterCore.Proofs.Memory.Visibility
import InterCore.Proofs.Ring.Handover

/-!
# No half-made entry is seen

Both ends write an entry, raise a barrier, and then move the index that covers the entry. So the
other core sees the queue as it was, whatever else it sees, until it sees the index; from then on it
sees the queue with the new entry. This needs room in the ring, without which the entry would go to
a slot that still counts, and room is what the custody of the descriptors gives.
-/

namespace InterCore

namespace Ring

open LittleEndian (encode16 encode32)

variable {m m' : Memory} {tail : UInt16}

/-- Where the live entries are the same the queue is. -/
theorem entriesUpTo_congr {α : Type} {read read' : UInt16 → α} {start head : UInt16}
    (same : ∀ k < (head - start).toNat,
      read' (start + UInt16.ofNat k) = read (start + UInt16.ofNat k)) :
    entriesUpTo read' start head = entriesUpTo read start head :=
  List.map_congr_left fun k mem => same k (List.mem_range.mp mem)

namespace Layout

variable {l : Layout}

/-- This is true of what the other core sees, at every point of some work on a memory. A word of the
ring is seen as a whole. What was written elsewhere before the work may not be seen yet. -/
def Throughout (l : Layout) (m : Memory) (es : List Event) (P : Memory → Prop) : Prop :=
  ∀ m₀ earlier done m', m = m₀.after earlier →
    (∀ e ∈ earlier, e.Fits m₀ ∧ e.Misses l.avail l.ringEnd) → done <+: es →
      Visible l.base.toNat l.ringEnd m₀ (earlier ++ done) m' → P m'

namespace Throughout

variable {es ws rest : List Event} {w : Event} {P Q : Memory → Prop}

theorem mono (h : l.Throughout m es P) (weaker : ∀ m', P m' → Q m') : l.Throughout m es Q :=
  fun m₀ earlier done m' start outside point seen =>
    weaker m' (h m₀ earlier done m' start outside point seen)

/-- Before the work has begun only what was written elsewhere may not be seen. -/
theorem nil (h : ∀ m', m.AgreeOn m' l.avail l.ringEnd → P m') : l.Throughout m [] P := by
  rintro m₀ earlier done m' rfl before point seen
  obtain rfl := List.prefix_nil.mp point
  rw [List.append_nil] at seen
  exact h m' ((Memory.agreeOn_after before).symm.trans (seen.agreeOn before))

/-- Work that writes outside the two rings, and then other work. -/
theorem prepend (outside : ∀ e ∈ ws, e.Fits m ∧ e.Misses l.avail l.ringEnd)
    (first : ∀ m', m.AgreeOn m' l.avail l.ringEnd → P m') (later : l.Throughout (m.after ws) es P) :
    l.Throughout m (ws ++ es) P := by
  rintro m₀ earlier done m' rfl before point seen
  have both : ∀ e ∈ earlier ++ ws, e.Fits m₀ ∧ e.Misses l.avail l.ringEnd := by
    intro e mem
    rcases List.mem_append.mp mem with mem | mem
    · exact before e mem
    · obtain ⟨fits, misses⟩ := outside e mem
      exact ⟨(Event.fits_after e earlier m₀).mp fits, misses⟩
  rcases prefix_append_cases point with early | ⟨behind, rfl, late⟩
  · refine first m' ((Memory.agreeOn_after before).symm.trans (seen.agreeOn fun e mem => ?_))
    exact both e (((List.prefix_append_right_inj earlier).mpr early).subset mem)
  · rw [← List.append_assoc] at seen
    exact later m₀ (earlier ++ ws) behind m' (Memory.after_append _ _ _).symm both late seen

/-- Work in two parts, of which the first ends with a barrier. -/
theorem append (settled : Settled es) (first : l.Throughout m es P)
    (later : l.Throughout (m.after es) rest P) : l.Throughout m (es ++ rest) P := by
  rintro m₀ earlier done m' rfl before point seen
  rcases prefix_append_cases point with early | ⟨behind, rfl, late⟩
  · exact first m₀ earlier done m' rfl before early seen
  · rw [← List.append_assoc] at seen
    have seen := seen.of_settled (settled.append_left earlier)
    exact later _ [] behind m' (by rw [Memory.after_append]; rfl) nofun late seen

/-- Work that writes, raises a barrier, and then writes one more word. Until that word is seen, the
rings differ only where the work wrote before. -/
theorem of_covered (whole : w.parts l.base.toNat l.ringEnd = [w]) (quiet : ∀ e ∈ rest, e.Quiet) :
    l.Throughout m (ws ++ .barrier :: w :: .barrier :: rest) fun m' =>
      (∀ a b, l.avail ≤ a → b ≤ l.ringEnd → (∀ e ∈ ws, e.Fits m ∧ e.Misses a b) →
        m.AgreeOn m' a b) ∨ m' = m.after (ws ++ .barrier :: w :: .barrier :: rest) := by
  rintro m₀ earlier done m' rfl before point seen
  have point : earlier ++ done <+: (earlier ++ ws) ++ .barrier :: w :: .barrier :: rest := by
    rw [List.append_assoc]
    exact (List.prefix_append_right_inj earlier).mpr point
  rcases seen.agreeOn_or_eq point whole quiet with same | all
  · refine .inl fun a b lower upper away => ?_
    have here := (Memory.agreeOn_after before).mono lower upper
    refine here.symm.trans (same a b fun e mem => ?_)
    rcases List.mem_append.mp mem with mem | mem
    · obtain ⟨fits, misses⟩ := before e mem
      exact ⟨fits, misses.mono lower upper⟩
    · obtain ⟨fits, misses⟩ := away e mem
      exact ⟨(Event.fits_after e earlier m₀).mp fits, misses⟩
  · rw [all, List.append_assoc, Memory.after_append]
    exact .inr rfl

end Throughout

theorem parts_eq {addr : Nat} {bytes : List UInt8} (lower : l.base.toNat ≤ addr)
    (upper : addr + bytes.length ≤ l.ringEnd) :
    (Event.write addr bytes).parts l.base.toNat l.ringEnd = [.write addr bytes] :=
  if_pos ⟨lower, upper⟩

end Layout

/-! ## Offers -/

namespace Driver

variable {d : Driver} {idx : UInt16}

/-- Until the index of an offer is seen, the queue is as it was. -/
theorem offer_throughout (within : d.layout.Within m)
    (head : m.word16 d.layout.availIdxAddr = d.head)
    (room : (d.layout.offered m tail).length < d.layout.num.toNat) (idx : UInt16) :
    d.layout.Throughout m (d.offerEvents idx) fun m' =>
      m'.word16 d.layout.availIdxAddr = d.head ∧
        d.layout.offered m' tail = d.layout.offered m tail ∨ m' = m.after (d.offerEvents idx) := by
  have base := d.layout.avail_eq
  have areas := d.layout.avail_add_le_used
  have ends := d.layout.ringEnd_eq
  have index := d.layout.availIdxAddr_eq
  have entry := d.layout.availEntry_bounds d.head
  have whole : (Event.write d.layout.availIdxAddr (encode16 (d.head + 1))).parts
      d.layout.base.toNat d.layout.ringEnd = [_] :=
    Layout.parts_eq (by omega) (by rw [LittleEndian.length_encode16]; omega)
  have points := @Layout.Throughout.of_covered m d.layout
    [.write (d.layout.availEntryAddr d.head) (encode16 idx)] [] _ whole nofun
  refine points.mono ?_
  rintro m' (same | all)
  · have away {a b : Nat} (lower : d.layout.avail ≤ a) (upper : b ≤ d.layout.ringEnd)
        (apart : d.layout.availEntryAddr d.head + 2 ≤ a ∨ b ≤ d.layout.availEntryAddr d.head) :
        m.AgreeOn m' a b := by
      refine same a b lower upper fun e mem => ?_
      rw [List.mem_singleton.mp mem]
      refine ⟨by simpa [Event.Fits] using within.covers_availEntry _, ?_⟩
      simpa only [Event.Misses, LittleEndian.length_encode16] using apart
    have word : m'.word16 d.layout.availIdxAddr = m.word16 d.layout.availIdxAddr :=
      (away (by omega) (by omega) (.inr (by omega))).word16 (Nat.le_refl _) (Nat.le_refl _)
    refine .inl ⟨word.trans head, ?_⟩
    rw [Layout.offered, length_entriesUpTo, head] at room
    rw [Layout.offered, Layout.offered, word, head]
    refine entriesUpTo_congr fun k live => ?_
    have slot := d.layout.availEntry_bounds (tail + UInt16.ofNat k)
    -- The ring is not full, so the entry went to a slot that no live entry has.
    have apart := Layout.availEntry_apart (Layout.slot_ne_of_live live room)
    exact (away (by omega) (by omega) (by omega)).word16 (Nat.le_refl _) (Nat.le_refl _)
  · exact .inr all

/-- At every point of an offer the other core sees the queue as it was or as it will be, the latter
once it sees the index. -/
theorem seen_offer (within : d.layout.Within m) (head : m.word16 d.layout.availIdxAddr = d.head)
    (room : (d.layout.offered m tail).length < d.layout.num.toNat) (idx : UInt16) :
    d.layout.Throughout m (d.offerEvents idx) fun m' =>
      m'.word16 d.layout.availIdxAddr = d.head ∧
        d.layout.offered m' tail = d.layout.offered m tail ∨
      m'.word16 d.layout.availIdxAddr = d.head + 1 ∧
        d.layout.offered m' tail = d.layout.offered m tail ++ [idx] := by
  refine (offer_throughout within head room idx).mono ?_
  rintro m' (before | rfl)
  · exact .inl before
  · have onBus : d.layout.Within ({ memory := m } : Bus).memory := within
    have appended := offered_after_offer onBus head room idx
    rw [Bus.memory_after] at appended
    exact .inr ⟨word16_offer within, appended⟩

end Driver

/-! ## Returns -/

namespace Device

variable {d : Device} {idx : UInt16} {len : UInt32}

/-- Handing a descriptor back writes up to a barrier, and then moves the index. -/
theorem publishEvents_eq (d : Device) (m : Memory) (idx : UInt16) (len : UInt32) (kick : Bool) :
    d.publishEvents m idx len kick = (d.unchainEvents m idx ++
      [.write (d.layout.usedEntryAddr (m.word16 d.layout.usedIdxAddr) + UsedElem.idOffset)
          (encode32 idx.toUInt32),
        .write (d.layout.usedEntryAddr (m.word16 d.layout.usedIdxAddr) + UsedElem.lenOffset)
          (encode32 len)]) ++
      .barrier :: .write d.layout.usedIdxAddr (encode16 (m.word16 d.layout.usedIdxAddr + 1)) ::
        .barrier :: (.flush d.layout.base.toNat d.layout.len :: kickEvents kick) := by
  simp [publishEvents, returnEvents]

/-- The events before the index moves write into one descriptor and into the slot behind the live
elements. -/
theorem publishEvents_before (within : d.layout.Within m) (inRing : idx.toNat < d.layout.num.toNat)
    {m₁ : Memory} {a b : Nat} {e : Event} (lower : d.layout.used ≤ a)
    (apart : d.layout.usedEntryAddr (m.word16 d.layout.usedIdxAddr) + 8 ≤ a ∨
      b ≤ d.layout.usedEntryAddr (m.word16 d.layout.usedIdxAddr))
    (mem : e ∈ d.unchainEvents m₁ idx ++
      [.write (d.layout.usedEntryAddr (m.word16 d.layout.usedIdxAddr) + UsedElem.idOffset)
          (encode32 idx.toUInt32),
        .write (d.layout.usedEntryAddr (m.word16 d.layout.usedIdxAddr) + UsedElem.lenOffset)
          (encode32 len)]) : e.Fits m ∧ e.Misses a b := by
  have areas := d.layout.avail_add_le_used
  simp only [List.mem_append, List.mem_cons, List.not_mem_nil, or_false] at mem
  rcases mem with mem | rfl | rfl
  · obtain ⟨fits, inside⟩ := unchainEvents_inside within inRing mem
    have bounds := Layout.descriptor_bounds inRing
    exact ⟨fits, inside.misses (.inr (by omega))⟩
  · refine ⟨by simpa [Event.Fits] using within.covers_usedEntry _ (by decide), ?_⟩
    simp only [Event.Misses, UsedElem.idOffset, LittleEndian.length_encode32]
    omega
  · refine ⟨by simpa [Event.Fits] using within.covers_usedEntry _ (by decide), ?_⟩
    simp only [Event.Misses, UsedElem.lenOffset, LittleEndian.length_encode32]
    omega

/-- Behind the second barrier nothing is written. -/
theorem quiet_kickEvents (d : Device) (kick : Bool) :
    ∀ e ∈ .flush d.layout.base.toNat d.layout.len :: kickEvents kick, e.Quiet := by
  intro e mem
  rcases List.mem_cons.mp mem with rfl | mem
  · trivial
  · cases kick with
    | true =>
      rw [List.mem_singleton.mp mem]
      trivial
    | false => cases mem

/-- Until the index of an element is seen, the queue is as it was. -/
theorem publish_throughout (within : d.layout.Within m) (inRing : idx.toNat < d.layout.num.toNat)
    (len : UInt32) (kick : Bool) (room : (d.layout.returned m tail).length < d.layout.num.toNat) :
    d.layout.Throughout m (d.publishEvents m idx len kick) fun m' =>
      m'.word16 d.layout.usedIdxAddr = m.word16 d.layout.usedIdxAddr ∧
        d.layout.returned m' tail = d.layout.returned m tail ∨
      m' = m.after (d.publishEvents m idx len kick) := by
  have base := d.layout.avail_eq
  have areas := d.layout.avail_add_le_used
  have ends := d.layout.ringEnd_eq
  have index := d.layout.usedIdxAddr_eq
  have entry := d.layout.usedEntry_bounds (m.word16 d.layout.usedIdxAddr)
  have whole : (Event.write d.layout.usedIdxAddr
      (encode16 (m.word16 d.layout.usedIdxAddr + 1))).parts d.layout.base.toNat d.layout.ringEnd =
        [_] :=
    Layout.parts_eq (by omega) (by rw [LittleEndian.length_encode16]; omega)
  rw [publishEvents_eq]
  refine (Layout.Throughout.of_covered whole (d.quiet_kickEvents kick)).mono ?_
  rintro m' (same | all)
  · have away {a b : Nat} (lower : d.layout.used ≤ a) (upper : b ≤ d.layout.ringEnd)
        (apart : d.layout.usedEntryAddr (m.word16 d.layout.usedIdxAddr) + 8 ≤ a ∨
          b ≤ d.layout.usedEntryAddr (m.word16 d.layout.usedIdxAddr)) : m.AgreeOn m' a b :=
      same a b (by omega) upper fun e mem => publishEvents_before within inRing lower apart mem
    have word : m'.word16 d.layout.usedIdxAddr = m.word16 d.layout.usedIdxAddr :=
      (away (by omega) (by omega) (.inr (by omega))).word16 (Nat.le_refl _) (Nat.le_refl _)
    refine .inl ⟨word, ?_⟩
    rw [Layout.returned, length_entriesUpTo] at room
    rw [Layout.returned, Layout.returned, word]
    refine entriesUpTo_congr fun k live => ?_
    have slot := d.layout.usedEntry_bounds (tail + UInt16.ofNat k)
    -- The ring is not full, so the element went to a slot that no live element has.
    have apart := Layout.usedEntry_apart (Layout.slot_ne_of_live live room)
    have agree := away (Nat.le_trans (Nat.le_add_right _ _) slot.1) slot.2 (by omega)
    unfold Layout.usedElem UsedElem.idOffset UsedElem.lenOffset
    rw [agree.word32 (by omega) (by omega), agree.word32 (by omega) (by omega)]
  · exact .inr all

/-- Each write of handing a descriptor back has a barrier behind it. -/
theorem settled_publish (d : Device) (m : Memory) (idx : UInt16) (len : UInt32) (kick : Bool) :
    Settled (d.publishEvents m idx len kick) := by
  rw [publishEvents_eq]
  exact .covered _ _ (d.quiet_kickEvents kick)

/-- Handing a descriptor back moves the index of the used ring. -/
theorem word16_publish (within : d.layout.Within m) (idx : UInt16) (len : UInt32) (kick : Bool) :
    (m.after (d.publishEvents m idx len kick)).word16 d.layout.usedIdxAddr =
      m.word16 d.layout.usedIdxAddr + 1 := by
  rw [publishEvents_eq, Memory.after_covered _ _ _ (d.quiet_kickEvents kick)]
  exact Memory.word16_patch_self _ ((Memory.covers_after _).mpr within.covers_usedIdx)

/-- Handing a descriptor back appends an element to the queue, if there is room. -/
theorem returned_publish (within : d.layout.Within m) (inRing : idx.toNat < d.layout.num.toNat)
    (len : UInt32) (kick : Bool) (room : (d.layout.returned m tail).length < d.layout.num.toNat) :
    d.layout.returned (m.after (d.publishEvents m idx len kick)) tail =
      d.layout.returned m tail ++ [⟨idx.toUInt32, len⟩] := by
  have onBus : d.layout.Within ({ memory := m } : Bus).memory := within
  have appended := returned_after_publish onBus inRing len kick room
  rwa [Bus.memory_after] at appended

theorem returned_handBack (within : d.layout.Within m) (inRing : idx.toNat < d.layout.num.toNat)
    (len : UInt32) (room : (d.layout.returned m tail).length < d.layout.num.toNat) :
    d.layout.returned (m.after (d.handBackEvents m idx len)) tail =
      d.layout.returned m tail ++ [⟨idx.toUInt32, len⟩] := by
  rw [handBackEvents, if_pos inRing]
  exact returned_publish within inRing len true room

/-- At every point of handing a descriptor back the other core sees the queue as it was or as it
will be, the latter once it sees the index. -/
theorem seen_publish (within : d.layout.Within m) (inRing : idx.toNat < d.layout.num.toNat)
    (len : UInt32) (kick : Bool) (room : (d.layout.returned m tail).length < d.layout.num.toNat) :
    d.layout.Throughout m (d.publishEvents m idx len kick) fun m' =>
      m'.word16 d.layout.usedIdxAddr = m.word16 d.layout.usedIdxAddr ∧
        d.layout.returned m' tail = d.layout.returned m tail ∨
      m'.word16 d.layout.usedIdxAddr = m.word16 d.layout.usedIdxAddr + 1 ∧
        d.layout.returned m' tail = d.layout.returned m tail ++ [⟨idx.toUInt32, len⟩] := by
  refine (publish_throughout within inRing len kick room).mono ?_
  rintro m' (before | rfl)
  · exact .inl before
  · exact .inr ⟨word16_publish within idx len kick, returned_publish within inRing len kick room⟩

end Device

/-! ## The states of a ring in use -/

namespace Ends

/-- The states that a ring comes to from `start` when its ends give only what they have. Between two
uses anyone may write outside of what the two ends write: other memory, buffers and descriptors. -/
inductive Reaches (start : Ends) : List Record → Ends → Prop where
  | start : Reaches start [] start
  | use {past : List Record} {e e' : Ends} {u : Use} {a : Answer} (before : Reaches start past e)
      (owned : Owned start.driver.layout.num.toNat past u) (used : e.use u = .ok (a, e')) :
      Reaches start (past ++ [(u, a)]) e'
  | elsewhere {past : List Record} {e : Ends} {bus : Bus} (before : Reaches start past e)
      (base : bus.memory.base = e.bus.memory.base) (size : bus.memory.size = e.bus.memory.size)
      (agree : e.bus.memory.AgreeOn bus.memory e.driver.layout.avail e.driver.layout.ringEnd) :
      Reaches start past { e with bus }

variable {start e : Ends} {past : List Record}

theorem Reaches.circulates (h : start.Reaches past e) (sound : start.Sound)
    (empty : start.queues = {}) : e.Sound ∧ e.driver.layout = start.driver.layout ∧
      Circulates start.driver.layout.num.toNat past e.queues := by
  induction h with
  | start =>
    refine ⟨sound, rfl, ?_⟩
    rw [empty]
    exact .start _
  | use before owned used ih =>
    obtain ⟨soundNow, layout, circulates⟩ := ih
    have room := circulates.conserved.room owned
    rw [← layout] at room
    obtain ⟨rfl, sound', queues, layout'⟩ := soundNow.of_use room used
    refine ⟨sound', layout'.trans layout, ?_⟩
    rw [queues]
    exact circulates.use owned
  | @elsewhere past e bus before base size agree ih =>
    obtain ⟨soundNow, layout, circulates⟩ := ih
    have within : e.driver.layout.Within bus.memory := by
      rw [Layout.Within, base, size]
      exact soundNow.within
    obtain ⟨sound', queues⟩ := soundNow.of_on.elsewhere within agree
    have queues : ({ e with bus } : Ends).queues = e.queues := queues
    refine ⟨⟨sound'.oneRing, sound'.within, sound'.head⟩, layout, ?_⟩
    rw [queues]
    exact circulates

/-- On an empty ring the driver can offer its first descriptor. -/
theorem Reaches.first_offer (sound : start.Sound) (empty : start.queues = {}) :
    ∃ e, start.Reaches [(.offer 0, .done)] e ∧ e.queues = ⟨[0], []⟩ ∧
      e.driver.layout = start.driver.layout ∧
        e.bus = start.bus.after (start.driver.offerEvents 0) := by
  have owned : Owned start.driver.layout.num.toNat [] (.offer 0) :=
    List.mem_range.mpr start.driver.layout.num_pos
  have room : start.queues.Room start.driver.layout.num.toNat (.offer 0) := by
    rw [empty]
    exact start.driver.layout.num_pos
  have used : start.use (.offer 0) =
      .ok (.done, ⟨start.bus.after (start.driver.offerEvents 0), start.driver.offering, start.device⟩) := by
    rw [Ends.use, Driver.offer_eq sound.within]
    rfl
  refine ⟨_, .use .start owned used, ?_, rfl, rfl⟩
  rw [(sound.of_use room used).2.2.1, empty]
  rfl

end Ends

end Ring

end InterCore
