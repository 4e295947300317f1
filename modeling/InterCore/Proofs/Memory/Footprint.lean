import InterCore.Proofs.Memory.Replay
import Mathlib.Order.Interval.Set.Basic

/-!
# Footprints

The footprint of an event is the set of the addresses that it writes. Events whose footprints lie in
one part of the address space leave every byte outside that part as it was
(`Memory.sameOutside_after`). Of work on the bus `Bus.WritesIn` says that all its writes lie in one
part.
-/

namespace InterCore

/-- The addresses that an event writes. -/
def Event.footprint : Event → Set Nat
  | write addr bytes => Set.Ico addr (addr + bytes.length)
  | barrier => ∅
  | flush _ _ => ∅
  | notify => ∅

theorem Event.Inside.footprint_subset {e : Event} {start stop : Nat} (h : e.Inside start stop) :
    e.footprint ⊆ Set.Ico start stop := by
  cases e with
  | write addr bytes => exact Set.Ico_subset_Ico h.1 h.2
  | _ => exact Set.empty_subset _

namespace Memory

/-- Nothing changes but what is in one part of the address space. -/
structure SameOutside (m : Memory) (part : Set Nat) (m' : Memory) : Prop where
  base : m'.base = m.base
  size : m'.size = m.size
  byteAt : ∀ a ∉ part, m'.byteAt a = m.byteAt a

variable {m m' m'' : Memory} {part part' : Set Nat} {e : Event} {es : List Event}

namespace SameOutside

theorem refl (m : Memory) (part : Set Nat) : m.SameOutside part m :=
  ⟨rfl, rfl, fun _ _ => rfl⟩

theorem trans (h : m.SameOutside part m') (h' : m'.SameOutside part m'') :
    m.SameOutside part m'' :=
  ⟨h'.base.trans h.base, h'.size.trans h.size,
    fun a outside => (h'.byteAt a outside).trans (h.byteAt a outside)⟩

/-- An area that is apart from the part that may change holds what it held. -/
theorem agreeOn {start stop : Nat} (h : m.SameOutside part m')
    (apart : ∀ a ∈ part, a < start ∨ stop ≤ a) : m.AgreeOn m' start stop := by
  intro a lower upper
  refine h.byteAt a fun inside => ?_
  have := apart a inside
  omega

end SameOutside

theorem sameOutside_onMemory (fits : e.Fits m) (own : e.footprint ⊆ part) :
    m.SameOutside part (e.onMemory m) := by
  cases e with
  | write addr bytes =>
    refine ⟨rfl, Memory.size_patch _ _ _, ?_⟩
    intro a outside
    have elsewhere : ¬ (addr ≤ a ∧ a < addr + bytes.length) := fun inside => outside (own inside)
    exact (byteAt_patch fits).trans (if_neg elsewhere)
  | _ => exact .refl m part

theorem sameOutside_after (h : ∀ e ∈ es, e.Fits m ∧ e.footprint ⊆ part) :
    m.SameOutside part (m.after es) := by
  induction es generalizing m with
  | nil => exact .refl m part
  | cons e es ih =>
    obtain ⟨fits, own⟩ := h e List.mem_cons_self
    refine (sameOutside_onMemory fits own).trans (ih ?_)
    intro e' mem
    obtain ⟨fits', own'⟩ := h e' (List.mem_cons_of_mem e mem)
    exact ⟨(e.fits_onMemory e' m).mpr fits', own'⟩

end Memory

/-- What was done on the bus from one moment to another wrote in one part of the address space. -/
def Bus.WritesIn (bus : Bus) (part : Set Nat) (bus' : Bus) : Prop :=
  ∃ es, bus' = bus.after es ∧ ∀ e ∈ es, e.Fits bus.memory ∧ e.footprint ⊆ part

namespace Bus.WritesIn

variable {bus bus' bus'' : Bus} {part part' : Set Nat}

theorem trans (h : bus.WritesIn part bus') (h' : bus'.WritesIn part bus'') :
    bus.WritesIn part bus'' := by
  obtain ⟨es, rfl, own⟩ := h
  obtain ⟨fs, rfl, own'⟩ := h'
  refine ⟨es ++ fs, (Bus.after_append _ _ _).symm, ?_⟩
  intro e mem
  rcases List.mem_append.mp mem with first | second
  · exact own e first
  · obtain ⟨fits, inside⟩ := own' e second
    rw [Bus.memory_after, Event.fits_after] at fits
    exact ⟨fits, inside⟩

theorem mono (h : bus.WritesIn part bus') (larger : part ⊆ part') : bus.WritesIn part' bus' := by
  obtain ⟨es, same, own⟩ := h
  exact ⟨es, same, fun e mem => ⟨(own e mem).1, (own e mem).2.trans larger⟩⟩

theorem sameOutside (h : bus.WritesIn part bus') : bus.memory.SameOutside part bus'.memory := by
  obtain ⟨es, rfl, own⟩ := h
  rw [Bus.memory_after]
  exact Memory.sameOutside_after own

end Bus.WritesIn

end InterCore
