import InterCore.Proofs.Ring.Handover

/-!
# Buffers of a ring that was set up

Setting up a ring writes nothing outside of it, and afterwards each descriptor points to its buffer:
the buffers follow each other.
-/

namespace InterCore.Ring

open LittleEndian (encode16 encode32)

variable {l : Layout} {m : Memory} {buffers bufSize : UInt32} {idx : UInt16} {e : Event}

/-- A descriptor is written in its place. -/
theorem Layout.descriptorEvents_inside (within : l.Within m) (inRing : idx.toNat < l.num.toNat)
    {d : Descriptor} (mem : e ∈ l.descriptorEvents idx d) :
    e.Fits m ∧ e.Inside (l.descriptorAddr idx) (l.descriptorAddr idx + 16) := by
  simp only [descriptorEvents, List.mem_cons, List.not_mem_nil, or_false] at mem
  rcases mem with rfl | rfl | rfl | rfl | rfl
  all_goals
    refine ⟨?_, ?_⟩
    · simpa [Event.Fits] using within.covers_descriptor inRing (by decide)
    · simp [Event.Inside, Descriptor.addrOffset, Descriptor.addrHighOffset, Descriptor.lenOffset,
        Descriptor.flagsOffset, Descriptor.nextOffset]

/-- A descriptor that was written points to its buffer. -/
theorem Layout.buffer_descriptorEvents (within : l.Within m) (inRing : idx.toNat < l.num.toNat)
    (d : Descriptor) : l.buffer (m.after (l.descriptorEvents idx d)) idx = ⟨d.addr, d.len⟩ := by
  have fits16 {m' : Memory} (within' : l.Within m') (w : UInt16) {offset : Nat}
      (fits : offset + 2 ≤ 16) : m'.Covers (l.descriptorAddr idx + offset) (encode16 w).length := by
    rw [LittleEndian.length_encode16]
    exact within'.covers_descriptor inRing fits
  have fits32 {m' : Memory} (within' : l.Within m') (w : UInt32) {offset : Nat}
      (fits : offset + 4 ≤ 16) : m'.Covers (l.descriptorAddr idx + offset) (encode32 w).length := by
    rw [LittleEndian.length_encode32]
    exact within'.covers_descriptor inRing fits
  let m₁ := m.patch (l.descriptorAddr idx + Descriptor.addrOffset) (encode32 d.addr)
  let m₂ := m₁.patch (l.descriptorAddr idx + Descriptor.addrHighOffset) (encode32 d.addrHigh)
  let m₃ := m₂.patch (l.descriptorAddr idx + Descriptor.lenOffset) (encode32 d.len)
  let m₄ := m₃.patch (l.descriptorAddr idx + Descriptor.flagsOffset) (encode16 d.flags)
  have within₁ : l.Within m₁ := within.patch _ _
  have within₂ : l.Within m₂ := within₁.patch _ _
  have within₃ : l.Within m₃ := within₂.patch _ _
  have within₄ : l.Within m₄ := within₃.patch _ _
  -- The address and the length stand before flags and chain.
  have rest : m₃.AgreeOn (m₄.patch (l.descriptorAddr idx + Descriptor.nextOffset) (encode16 d.next))
      (l.descriptorAddr idx) (l.descriptorAddr idx + 12) := by
    refine (Memory.agreeOn_patch (fits16 within₃ d.flags (by decide)) (.inr ?_)).trans
      (Memory.agreeOn_patch (fits16 within₄ d.next (by decide)) (.inr ?_))
    · simp only [Descriptor.flagsOffset, Nat.le_refl]
    · simp only [Descriptor.nextOffset]
      omega
  have addr : m₃.word32 (l.descriptorAddr idx + Descriptor.addrOffset) = d.addr := by
    refine (Memory.word32_patch_apart (fits32 within₂ d.len (by decide)) (.inr ?_)).trans
      ((Memory.word32_patch_apart (fits32 within₁ d.addrHigh (by decide)) (.inr ?_)).trans
        (Memory.word32_patch_self _ (within.covers_descriptor inRing (by decide))))
    · simp only [Descriptor.addrOffset, Descriptor.lenOffset]
      omega
    · simp only [Descriptor.addrOffset, Descriptor.addrHighOffset]
      omega
  have len : m₃.word32 (l.descriptorAddr idx + Descriptor.lenOffset) = d.len :=
    Memory.word32_patch_self _ (within₂.covers_descriptor inRing (by decide))
  refine (buffer_agree rest).trans ?_
  rw [buffer, addr, len]

namespace Driver

theorem toNat_ofNat_idx {i : Nat} (h : i < l.num.toNat) : (UInt16.ofNat i).toNat = i := by
  have bound := l.num_le
  rw [UInt16.toNat_ofNat', Nat.mod_eq_of_lt (by omega)]

theorem pointEvents_inside {count i : Nat} (within : l.Within m) (inRing : i + count ≤ l.num.toNat)
    (mem : e ∈ pointEvents l buffers bufSize count i) :
    e.Fits m ∧ e.Inside (l.base.toNat + 16 * i) l.avail := by
  induction count generalizing i with
  | zero => cases mem
  | succ count ih =>
    have idx := toNat_ofNat_idx (l := l) (i := i) (by omega)
    have addr : l.descriptorAddr (UInt16.ofNat i) = l.base.toNat + 16 * i := by
      rw [Layout.descriptorAddr, idx, descriptorSize]
    have avail := l.avail_eq
    rcases List.mem_append.mp mem with mem | mem
    · obtain ⟨fits, inside⟩ := Layout.descriptorEvents_inside within (by omega) mem
      exact ⟨fits, inside.mono (by omega) (by omega)⟩
    · obtain ⟨fits, inside⟩ := ih (by omega) mem
      exact ⟨fits, inside.mono (by omega) (Nat.le_refl _)⟩

theorem clearEvents_inside (within : l.Within m) (mem : e ∈ clearEvents l) :
    e.Fits m ∧ e.Inside l.avail l.ringEnd := by
  have areas := l.avail_add_le_used
  have ends := l.ringEnd_eq
  simp only [clearEvents, List.mem_cons, List.not_mem_nil, or_false] at mem
  rcases mem with rfl | rfl | rfl | rfl | rfl
  · refine ⟨by simpa [Event.Fits] using within.covers_availFlags, ?_⟩
    simp only [Event.Inside, Layout.availFlagsAddr_eq, LittleEndian.length_encode16]
    omega
  · refine ⟨by simpa [Event.Fits] using within.covers_availIdx, ?_⟩
    simp only [Event.Inside, Layout.availIdxAddr_eq, LittleEndian.length_encode16]
    omega
  · refine ⟨by simpa [Event.Fits] using within.covers_usedFlags, ?_⟩
    simp only [Event.Inside, Layout.usedFlagsAddr_eq, LittleEndian.length_encode16]
    omega
  · refine ⟨by simpa [Event.Fits] using within.covers_usedIdx, ?_⟩
    simp only [Event.Inside, Layout.usedIdxAddr_eq, LittleEndian.length_encode16]
    omega
  · exact ⟨trivial, trivial⟩

/-- Setting up a ring writes into the ring. -/
theorem createEvents_inside (within : l.Within m) (mem : e ∈ createEvents l buffers bufSize) :
    e.Fits m ∧ e.Inside l.base.toNat l.ringEnd := by
  have areas := l.avail_add_le_used
  have avail := l.avail_eq
  have ends := l.ringEnd_eq
  rcases List.mem_append.mp mem with mem | mem
  · obtain ⟨fits, inside⟩ := pointEvents_inside within (by omega) mem
    exact ⟨fits, inside.mono (by omega) (by omega)⟩
  · obtain ⟨fits, inside⟩ := clearEvents_inside within mem
    exact ⟨fits, inside.mono (by omega) (Nat.le_refl _)⟩

theorem buffer_pointEvents {count i : Nat} (within : l.Within m) (inRing : i + count ≤ l.num.toNat)
    (lower : i ≤ idx.toNat) (upper : idx.toNat < i + count) :
    l.buffer (m.after (pointEvents l buffers bufSize count i)) idx =
      ⟨UInt32.ofNat (buffers.toNat + idx.toNat * bufSize.toNat), bufSize⟩ := by
  induction count generalizing m i with
  | zero => omega
  | succ count ih =>
    rw [pointEvents, Memory.after_append]
    have within' := within.replay
      (l.descriptorEvents (UInt16.ofNat i) (bufferDescriptor buffers bufSize i))
    by_cases first : idx.toNat = i
    · have own : idx.toNat < l.num.toNat := by omega
      have same : UInt16.ofNat i = idx := by rw [← first, UInt16.ofNat_toNat]
      rw [same] at within' ⊢
      have later : ∀ e ∈ pointEvents l buffers bufSize count (i + 1),
          e.Fits (m.after (l.descriptorEvents idx (bufferDescriptor buffers bufSize i))) ∧
            e.Misses (l.descriptorAddr idx) (l.descriptorAddr idx + 12) := by
        intro e mem
        obtain ⟨fits, inside⟩ := pointEvents_inside within' (by omega) mem
        refine ⟨fits, inside.misses (.inl ?_)⟩
        rw [Layout.descriptorAddr, descriptorSize]
        omega
      rw [Layout.buffer_agree (Memory.agreeOn_after later),
        Layout.buffer_descriptorEvents within own, first]
      rfl
    · exact ih within' (by omega) (by omega) (by omega)

/-- After a ring was set up each descriptor points to its buffer. -/
theorem buffer_create (within : l.Within m) (inRing : idx.toNat < l.num.toNat) :
    l.buffer (m.after (createEvents l buffers bufSize)) idx =
      ⟨UInt32.ofNat (buffers.toNat + idx.toNat * bufSize.toNat), bufSize⟩ := by
  have bounds := Layout.descriptor_bounds inRing
  rw [createEvents, Memory.after_append]
  refine (Layout.buffer_agree (Memory.agreeOn_after ?_)).trans
    (buffer_pointEvents within (by omega) (Nat.zero_le _) (by omega))
  intro e mem
  obtain ⟨fits, inside⟩ := clearEvents_inside (within.replay _) mem
  exact ⟨fits, inside.misses (.inl (by omega))⟩

end Driver

/-- A ring that was set up is empty, and its ends agree on it. -/
theorem Ends.sound_create (within : l.Within m) (buffers bufSize : UInt32) :
    (on (m.after (Driver.createEvents l buffers bufSize)) { layout := l } { layout := l }).Sound ∧
      (on (m.after (Driver.createEvents l buffers bufSize)) { layout := l } { layout := l }).queues =
        {} := by
  have onBus : l.Within ({ memory := m } : Bus).memory := within
  obtain ⟨head, offered, returned⟩ := Driver.queues_after_create onBus buffers bufSize
  rw [Bus.memory_after] at head offered returned
  exact ⟨⟨rfl, within.replay _, head⟩, congrArg₂ Queues.mk offered returned⟩

/-- What is set up elsewhere does not matter to a ring. -/
theorem agreeOn_create {start stop : Nat} (within : l.Within m) (buffers bufSize : UInt32)
    (apart : stop ≤ l.base.toNat ∨ l.ringEnd ≤ start) :
    m.AgreeOn (m.after (Driver.createEvents l buffers bufSize)) start stop := by
  apply Memory.agreeOn_after
  intro e mem
  obtain ⟨fits, inside⟩ := Driver.createEvents_inside within mem
  exact ⟨fits, inside.misses apart⟩

end InterCore.Ring
