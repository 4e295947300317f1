import InterCore.Proofs.Link.Order
import InterCore.Proofs.Link.Polling

/-!
# No packet is left behind

Kicks and packets are counted apart: a poll takes one kick and then handles all packets that are
there. If the peer raises one kick after each packet, the packets that wait are never more than the
kicks that are counted and those that the peer still owes (`Path.waiting_le`). So where no kick is
owed and a packet waits, the next poll takes a kick and leaves no packet.
-/

namespace InterCore

namespace KickCounter

theorem take?_eq_some {counter k : KickCounter} (h : counter.take? = some k) :
    counter.pending.toNat = k.pending.toNat + 1 := by
  unfold take? at h
  split at h
  case isTrue => cases h
  case isFalse some =>
    cases h
    have pos : counter.pending.toNat ≠ 0 := fun none => some (UInt32.toNat_inj.mp none)
    have bound := counter.pending.toNat_lt
    show _ = (counter.pending - 1).toNat + 1
    rw [UInt32.toNat_sub, UInt32.toNat_one]
    omega

/-- A kick is counted unless the counter is full. -/
theorem pending_signal (counter : KickCounter) :
    counter.signal.pending.toNat = counter.pending.toNat + 1 ∨
      counter.signal = counter ∧ counter.pending.toNat + 1 = UInt32.size := by
  unfold signal
  split
  case isTrue full =>
    refine .inr ⟨rfl, ?_⟩
    rw [full]
    rfl
  case isFalse room =>
    refine .inl ?_
    have different : counter.pending.toNat ≠ 4294967295 := fun same => room (UInt32.toNat_inj.mp same)
    have bound := counter.pending.toNat_lt
    show (counter.pending + 1).toNat = _
    rw [UInt32.toNat_add, UInt32.toNat_one]
    omega

end KickCounter

namespace Link

open InterCore.Ring

/-- The peer offered a packet. -/
def Act.offersRx : Act → Bool
  | offeredRx _ => true
  | _ => false

/-- How many packets the peer offered. -/
def packetsIn (acts : List Act) : Nat :=
  acts.countP Act.offersRx

/-- How many kicks of the incoming direction the peer raised. -/
def kicksIn (acts : List Act) : Nat :=
  acts.count .kickedRx

/-- How many packets the peer offered without having raised their kicks. -/
def owed (acts : List Act) : Nat :=
  packetsIn acts - kicksIn acts

namespace Cores

variable {c₀ c c' : Cores} {acts : List Act} {act : Act}

theorem SameRings.orderly (h : SameRings c c') (orderly : c.Orderly act) : c'.Orderly act := by
  cases act with
  | offeredTx idx =>
    show idx.toNat < c'.tx.layout.num.toNat
    rw [h.tx]
    exact orderly
  | wrote addr bytes =>
    unfold Orderly
    rw [h.tx, h.rx]
    exact orderly
  | _ => trivial

/-- No more packets wait than kicks are counted or owed. -/
structure Covered (acts : List Act) (c : Cores) : Prop where
  kicks : kicksIn acts ≤ packetsIn acts
  packets : c.incoming.length ≤ c.rxKicks.pending.toNat + owed acts

/-- A step that neither offers a packet nor raises or takes a kick. -/
theorem Covered.quiet (h : Covered acts c) (packets : packetsIn [act] = 0)
    (kicks : kicksIn [act] = 0) (counter : c'.rxKicks = c.rxKicks)
    (waiting : c'.incoming.length ≤ c.incoming.length) : Covered (acts ++ [act]) c' := by
  obtain ⟨inOrder, bound⟩ := h
  have packetsNow : packetsIn (acts ++ [act]) = packetsIn acts := by
    rw [packetsIn, List.countP_append, ← packetsIn, ← packetsIn, packets, Nat.add_zero]
  have kicksNow : kicksIn (acts ++ [act]) = kicksIn acts := by
    rw [kicksIn, List.count_append, ← kicksIn, ← kicksIn, kicks, Nat.add_zero]
  refine ⟨by rwa [packetsNow, kicksNow], ?_⟩
  rw [owed, packetsNow, kicksNow, counter, ← owed]
  exact Nat.le_trans waiting bound

theorem Covered.step (h : Covered acts c) (order : c.InOrder) (orderly : c.Orderly act)
    (step : Step c act c') (kick : act = .kickedRx → owed acts ≠ 0) :
    Covered (acts ++ [act]) c' := by
  obtain ⟨inOrder, bound⟩ := id h
  have packetsNow : packetsIn (acts ++ [act]) = packetsIn acts + packetsIn [act] :=
    List.countP_append
  have kicksNow : kicksIn (acts ++ [act]) = kicksIn acts + kicksIn [act] := List.count_append
  have taken (quiet : ∀ idx, act ≠ .offeredRx idx) :
      c.incoming.length = act.taken.toList.length + c'.incoming.length := by
    rw [step.incoming_eq order orderly quiet, List.length_append]
  unfold owed at bound kick
  cases step with
  | offeredRx idx =>
    have more := Step.length_incoming_le (.offeredRx idx) order
    have one : packetsIn [.offeredRx idx] = 1 := rfl
    have none : kicksIn [.offeredRx idx] = 0 := rfl
    refine ⟨by omega, ?_⟩
    unfold owed
    dsimp only at more ⊢
    omega
  | kickedRx =>
    have same := taken nofun
    have one : kicksIn [.kickedRx] = 1 := rfl
    have none : packetsIn [.kickedRx] = 0 := rfl
    have owes := kick rfl
    have few := c.length_incoming_lt
    have wide : UInt16.size < UInt32.size := by decide
    refine ⟨by omega, ?_⟩
    unfold owed
    dsimp only [Act.taken, Option.toList, List.length_nil] at same ⊢
    rcases c.rxKicks.pending_signal with counted | ⟨full, top⟩
    · omega
    · have counter : c.rxKicks.signal.pending.toNat = c.rxKicks.pending.toNat := by rw [full]
      omega
  | wokeInVain counter next =>
    have empty : c.incoming = [] := Device.offered_of_next?_none next
    have same := taken nofun
    have kicks : kicksIn [.woke none] = 0 := rfl
    have packets : packetsIn [.woke none] = 0 := rfl
    rw [empty] at same
    refine ⟨by omega, ?_⟩
    unfold owed
    dsimp only [List.length_nil] at same ⊢
    omega
  | @woke k idx counter next =>
    have fewer := taken nofun
    have counted := KickCounter.take?_eq_some counter
    have kicks : kicksIn [.woke (some idx)] = 0 := rfl
    have packets : packetsIn [.woke (some idx)] = 0 := rfl
    refine ⟨by omega, ?_⟩
    unfold owed
    dsimp only [Act.taken, Option.toList, List.length_cons, List.length_nil] at fewer ⊢
    omega
  | _ =>
    have fewer := taken nofun
    exact h.quiet rfl rfl rfl (by omega)

end Cores

/-- Where a packet waits and no kick is owed, one is counted. -/
theorem Cores.Covered.counted {c : Cores} {acts : List Act} (h : Covered acts c)
    (raised : owed acts = 0) (waits : c.incoming ≠ []) : c.rxKicks.pending ≠ 0 := by
  intro zero
  have bound := h.packets
  rw [raised, zero] at bound
  exact absurd bound (by simpa using waits)

end Link

end InterCore
