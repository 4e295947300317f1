import InterCore.Proofs.Config.Mirroring

/-!
# Servers on a store that is lent out

A store that is lent out has the values, ranges, texts and hooks of its lender, but samples and
writes as any store does that has no way of its own. A server on it is as good as one on the lender
just as long as the lender has none either. Requests that neither read nor write make no difference.
-/

namespace InterCore

open Config (Message)
open Variable (limit)

namespace VarStore

/-- As far as a server can tell, a store samples and writes as its hooks say. -/
structure FollowsHooks (S : Type) [VarStore S] : Prop where
  sample_eq : ∀ (s : S) (i : Nat), i < count s → i < 0x80000000 →
    sample s i = (value (onRead s i) i, onRead s i)
  write_eq : ∀ (s : S) (i : Nat) (v : Int32), i < count s → i < 0x80000000 →
    (write s i v).2 = onWrite (store s i (limit v (VarStore.min s i) (VarStore.max s i))) i

theorem Lawful.followsHooks (S : Type) [VarStore S] [Lawful S] : FollowsHooks S where
  sample_eq s i _ _ := Lawful.sample_eq s i
  write_eq s i v _ _ := by rw [Lawful.write_eq]

end VarStore

open VarStore (FollowsHooks)

namespace Config.Server

variable {S : Type} [VarStore S]

/-- A server on the lent store gives the responses of one on its lender, and leaves the lender as
that one does. -/
def Transparent (s : S) (reqs : List Message) : Prop :=
  answers (Lent.mk s) reqs = answers s reqs ∧ (after (Lent.mk s) reqs).lender = after s reqs

variable {s : S} {req : Message}

theorem alike_lent (s : S) : VarStore.Alike s (Lent.mk s) :=
  ⟨rfl, rfl, rfl, rfl, rfl, rfl⟩

/-- Whatever ways of its own the lender has, other requests do not use them. -/
theorem handledAlike_of_other (s : S)
    (other : req.requestKind ≠ .ok .read ∧ req.requestKind ≠ .ok .write) :
    HandledAlike Lent.mk s req :=
  handledAlike (alike_lent s) (fun asked => absurd asked other.1) fun asked => absurd asked other.2

theorem lt_of_asksFor {i : Nat} (here : AsksFor s req i) : i < 0x80000000 := by
  have bound := req.index.toInt_lt
  have there := here.1
  omega

theorem handledAlike_of_followsHooks (follows : FollowsHooks S) (s : S) (req : Message) :
    HandledAlike Lent.mk s req := by
  refine handledAlike (alike_lent s) ?_ ?_
  · intro _ i here
    rw [follows.sample_eq s i here.2 (lt_of_asksFor here)]
    rfl
  · intro _ i here
    rw [follows.write_eq s i _ here.2 (lt_of_asksFor here)]
    rfl

theorem transparent_of_handledAlike {reqs : List Message}
    (all : ∀ (s : S), ∀ req ∈ reqs, HandledAlike Lent.mk s req) (s : S) : Transparent s reqs := by
  obtain ⟨responses, final⟩ := HandledAlike.run all s
  exact ⟨responses, congrArg Lent.lender final⟩

/-! ## Stores with ways of their own -/

section One

variable {i : Nat} {index : Int32} (there : index? (VarStore.count s) index = some i)

include there

theorem handle_read : handle s (.request 0 .read index 0) =
    (.response 0 .value index (VarStore.sample s i).1, (VarStore.sample s i).2) := by
  have asked : (Message.request 0 .read index 0).requestKind = .ok .read := rfl
  have spot : (Message.request 0 .read index 0).index = index := rfl
  simp only [handle, asked, spot, there]
  rfl

theorem handle_write (value : Int32) : handle s (.request 0 .write index value) =
    (.response 0 .ok index 0, (VarStore.write s i value).2) := by
  have asked : (Message.request 0 .write index value).requestKind = .ok .write := rfl
  have spot : (Message.request 0 .write index value).index = index := rfl
  simp only [handle, asked, spot, there]
  rfl

end One

/-- One read and one write of every variable tell a store from its lender, unless its hooks say it
all. -/
theorem followsHooks_of_transparent
    (transparent : ∀ (s : S) (reqs : List Message), Transparent s reqs) : FollowsHooks S := by
  have place {s : S} {i : Nat} (inside : i < VarStore.count s) (small : i < 0x80000000) :
      index? (VarStore.count s) (Int32.ofNat i) = some i :=
    index?_eq_some.mpr ⟨Int32.toInt_ofNat_of_lt small, inside⟩
  refine ⟨?_, ?_⟩
  · intro s i inside small
    have here := place inside small
    have lent : index? (VarStore.count (Lent.mk s)) (Int32.ofNat i) = some i := here
    obtain ⟨responses, final⟩ := transparent s [.request 0 .read (Int32.ofNat i) 0]
    simp only [answers, handle_read here, handle_read lent, List.cons.injEq, and_true] at responses
    simp only [after, List.foldl_cons, List.foldl_nil, handle_read here, handle_read lent] at final
    exact Prod.ext (congrArg Message.value responses).symm final.symm
  · intro s i value inside small
    have here := place inside small
    have lent : index? (VarStore.count (Lent.mk s)) (Int32.ofNat i) = some i := here
    obtain ⟨-, final⟩ := transparent s [.request 0 .write (Int32.ofNat i) value]
    simp only [after, List.foldl_cons, List.foldl_nil, handle_write here, handle_write lent] at final
    exact final.symm

end Config.Server

open Config.Server (Transparent answers)

/-- Lending goes unnoticed, whatever is asked, for the stores that sample and write as their hooks
say and for no others. With any store it goes unnoticed as long as nothing is read or written. -/
theorem lending_unnoticed_iff (S : Type) [VarStore S] :
    ((∀ (s : S) (reqs : List Message), Transparent s reqs) ↔ FollowsHooks S) ∧
      ∀ (s : S) (reqs : List Message),
        (∀ req ∈ reqs, req.requestKind ≠ .ok .read ∧ req.requestKind ≠ .ok .write) →
          Transparent s reqs := by
  refine ⟨⟨Config.Server.followsHooks_of_transparent, ?_⟩, ?_⟩
  · intro follows s reqs
    refine Config.Server.transparent_of_handledAlike ?_ s
    intro s req _
    exact Config.Server.handledAlike_of_followsHooks follows s req
  · intro s reqs others
    refine Config.Server.transparent_of_handledAlike ?_ s
    intro s req mem
    exact Config.Server.handledAlike_of_other s (others req mem)

/-- Variables that the other core may look at and not set. -/
structure Sealed where
  inner : PlainStore

/-- A sealed store keeps to itself what the other core writes. -/
instance : VarStore Sealed where
  count s := VarStore.count s.inner
  value s := VarStore.value s.inner
  store s i v := ⟨VarStore.store s.inner i v⟩
  min s := VarStore.min s.inner
  max s := VarStore.max s.inner
  name s := VarStore.name s.inner
  description s := VarStore.description s.inner
  write s i _ := (VarStore.value s.inner i, s)

/-- One variable that is not to be set. -/
def sealedOne : Sealed :=
  ⟨⟨[⟨1, "serial", "Serial number", 3, 0, 100, none, none⟩]⟩⟩

/-- A table is lent unnoticed. Of a sealed store that is so at least for its names and bounds. -/
theorem lending_unnoticed_of_table_of_sealedOne :
    (∀ (t : VarTable) (reqs : List Message), Transparent t reqs) ∧
      Transparent sealedOne [.request 0 .name 0 0, .request 1 .max 0 0] := by
  refine ⟨(lending_unnoticed_iff VarTable).1.mpr (VarStore.Lawful.followsHooks VarTable), ?_⟩
  refine (lending_unnoticed_iff Sealed).2 sealedOne _ ?_
  decide

/-- Lent out, a sealed store is set by the first write that comes. -/
theorem sealed_store_set_when_lent :
    ∃ (s : Sealed) (reqs : List Message), reqs = [.request 0 .write 0 7, .request 1 .read 0 0] ∧
      (answers s reqs).map (·.value) = [0, 3] ∧
      (answers (Lent.mk s) reqs).map (·.value) = [0, 7] ∧ ¬Transparent s reqs := by
  have told : (answers sealedOne [.request 0 .write 0 7, .request 1 .read 0 0]).map (·.value) =
      [0, 3] := rfl
  have lent : (answers (Lent.mk sealedOne)
      [.request 0 .write 0 7, .request 1 .read 0 0]).map (·.value) = [0, 7] := rfl
  refine ⟨sealedOne, _, rfl, told, lent, ?_⟩
  intro ⟨same, _⟩
  rw [same, told] at lent
  exact absurd lent (by decide)

end InterCore
