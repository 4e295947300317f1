import InterCore.Proofs.Ring.Fifo
import InterCore.Proofs.Ring.Handover

/-!
# The account of a ring

`Ends.Kept` says all that is known of a ring whose ends give only what they have: the ends agree,
every descriptor is in one place, and the queues hold what was put in and not taken out. Each thing
that an end does, told from the memory alone, keeps it.
-/

namespace InterCore.Ring

namespace Ends

/-- Both ends of a ring of `num` descriptors after what was done. -/
structure Kept (num : Nat) (past : List Record) (e : Ends) : Prop where
  sound : e.Sound
  size : e.driver.layout.num.toNat = num
  circulates : Circulates num past e.queues
  holds : e.queues.Holds past

namespace Kept

variable {num : Nat} {past : List Record} {m m' : Memory} {driver : Driver} {device : Device}
  {idx : UInt16} {len : UInt32} {x : UsedElem}

theorem start {e : Ends} (sound : e.Sound) (size : e.driver.layout.num.toNat = num)
    (empty : e.queues = {}) : Kept num [] e := by
  refine ⟨sound, size, ?_, ?_⟩
  · rw [empty]
    exact .start num
  · rw [empty]
    exact ⟨rfl, rfl⟩

theorem elsewhere (h : (on m driver device).Kept num past) (within : driver.layout.Within m')
    (agree : m.AgreeOn m' driver.layout.avail driver.layout.ringEnd) :
    (on m' driver device).Kept num past := by
  obtain ⟨sound, queues⟩ := h.sound.elsewhere within agree
  refine ⟨sound, h.size, ?_, ?_⟩
  · rw [queues]
    exact h.circulates
  · rw [queues]
    exact h.holds

/-- The account after a use of the two queues. -/
theorem of_use {e e' : Ends} {u : Use} {answer : Answer} (h : e.Kept num past)
    (owned : Owned num past u) (answered : (e.queues.use u).1 = answer) (sound : e'.Sound)
    (size : e'.driver.layout = e.driver.layout) (queues : e'.queues = (e.queues.use u).2) :
    e'.Kept num (past ++ [(u, answer)]) := by
  have circulates := h.circulates.use owned
  have holds := h.holds.use u
  rw [answered, ← queues] at circulates holds
  exact ⟨sound, by rw [size]; exact h.size, circulates, holds⟩

theorem offering (h : (on m driver device).Kept num past) (owned : Owned num past (.offer idx)) :
    (on (m.after (driver.offerEvents idx)) driver.offering device).Kept num
      (past ++ [(.offer idx, .done)]) := by
  have room : (on m driver device).queues.offered.length < driver.layout.num.toNat := by
    rw [show driver.layout.num.toNat = num from h.size]
    exact h.circulates.conserved.room owned
  obtain ⟨sound, queues⟩ := @Ends.Sound.offering m driver device idx h.sound room
  exact h.of_use owned rfl sound rfl queues

theorem advancing (h : (on m driver device).Kept num past) (next : device.next? m = some idx) :
    (on m driver device.advance).Kept num (past ++ [(.take, .index (some idx))]) := by
  obtain ⟨sound, queues, head⟩ := h.sound.advancing next
  refine h.of_use trivial ?_ sound rfl queues
  rw [Queues.use, head]

theorem handingBack (h : (on m driver device).Kept num past)
    (owned : Owned num past (.publish idx len true)) :
    (on (m.after (device.handBackEvents m idx len)) driver device).Kept num
      (past ++ [(.publish idx len true, .done)]) := by
  obtain ⟨inRing, room⟩ := h.circulates.conserved.room owned
  rw [← show driver.layout.num.toNat = num from h.size] at inRing room
  obtain ⟨sound, queues⟩ := @Ends.Sound.handingBack m driver device idx len h.sound inRing room
  exact h.of_use owned rfl sound rfl queues

theorem collecting (h : (on m driver device).Kept num past) (next : driver.nextUsed? m = some x) :
    (on m driver.collecting device).Kept num (past ++ [(.takeUsed, .elem (some x))]) := by
  obtain ⟨sound, queues, head⟩ := h.sound.collecting next
  refine h.of_use trivial ?_ sound rfl queues
  rw [Queues.use]
  exact congrArg Answer.elem head

/-- What an end has is a descriptor of the ring. -/
theorem lt_of_driver {e : Ends} {i : Nat} (h : e.Kept num past) (mem : i ∈ (custody num past).driver) :
    i < num := by
  refine List.mem_range.mp ((List.Perm.mem_iff h.circulates.conserved).mp ?_)
  simp [everywhere, mem]

/-- What lies in the available ring is a descriptor of the ring that neither end has. -/
theorem of_offered {e : Ends} (h : e.Kept num past) (mem : idx ∈ e.queues.offered) :
    idx.toNat < num ∧ idx.toNat ∉ (custody num past).driver := by
  have mem' : idx.toNat ∈ e.queues.offeredIds := List.mem_map_of_mem mem
  refine ⟨?_, ?_⟩
  · refine List.mem_range.mp ((List.Perm.mem_iff h.circulates.conserved).mp ?_)
    simp [everywhere, mem']
  · intro owned
    have once := h.circulates.conserved.count_le idx.toNat
    have counted := List.count_pos_iff.mpr mem'
    have counted' := List.count_pos_iff.mpr owned
    omega

end Kept

end Ends

end InterCore.Ring
