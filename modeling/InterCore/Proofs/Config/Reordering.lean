import InterCore.Proofs.Config.Mirroring
import InterCore.Variable.Hooks

/-!
# Requests in another order

Where each variable has its own part of a store, a request has to do with the part of the variable
that it asks for, and with no other. So what a variable has gone through, and what was answered to
the requests for it, is what these requests alone would have come to (`exchanges_filter`), and
requests for different variables can be handled in any order.
-/

namespace InterCore

open Config (Message)
open Variable (Call Conduct limit)

namespace VarStore

/-- A store in which each variable has a part for itself. What is told of a variable and what
becomes of it depends on its part alone, and what is done to it changes no other part. -/
class Separable (S : Type) [VarStore S] where
  Part : Type
  part : S → Nat → Part
  value_congr : ∀ {s s' : S} {i : Nat}, part s i = part s' i → value s i = value s' i
  min_congr : ∀ {s s' : S} {i : Nat}, part s i = part s' i → VarStore.min s i = VarStore.min s' i
  max_congr : ∀ {s s' : S} {i : Nat}, part s i = part s' i → VarStore.max s i = VarStore.max s' i
  name_congr : ∀ {s s' : S} {i : Nat}, part s i = part s' i → name s i = name s' i
  description_congr : ∀ {s s' : S} {i : Nat}, part s i = part s' i →
    description s i = description s' i
  sample_congr : ∀ {s s' : S} {i : Nat}, part s i = part s' i →
    (sample s i).1 = (sample s' i).1 ∧ part (sample s i).2 i = part (sample s' i).2 i
  write_congr : ∀ {s s' : S} {i : Nat} (v : Int32), part s i = part s' i →
    part (write s i v).2 i = part (write s' i v).2 i
  part_sample : ∀ (s : S) {i j : Nat}, i ≠ j → part (sample s i).2 j = part s j
  part_write : ∀ (s : S) {i j : Nat} (v : Int32), i ≠ j → part (write s i v).2 j = part s j
  count_sample : ∀ (s : S) (i : Nat), count (sample s i).2 = count s
  count_write : ∀ (s : S) (i : Nat) (v : Int32), count (write s i v).2 = count s

end VarStore

open VarStore.Separable (part)

namespace Config.Server

variable {S : Type} [VarStore S]

/-- The requests and the responses to them. -/
def exchanges (s : S) (reqs : List Message) : List (Message × Message) :=
  reqs.zip (answers s reqs)

/-- Those of them that are for an index. -/
def exchangesAt (index : Int32) (s : S) (reqs : List Message) : List (Message × Message) :=
  (exchanges s reqs).filter (·.1.index = index)

/-- For each index there are the same requests in the same order. -/
def SameByIndex (reqs reqs' : List Message) : Prop :=
  ∀ index, reqs.filter (·.index = index) = reqs'.filter (·.index = index)

theorem after_cons (s : S) (req : Message) (reqs : List Message) :
    after s (req :: reqs) = after (handle s req).2 reqs := rfl

theorem exchangesAt_cons (index : Int32) (s : S) (req : Message) (reqs : List Message) :
    exchangesAt index s (req :: reqs) =
      (if req.index = index then [(req, (handle s req).1)] else []) ++
        exchangesAt index (handle s req).2 reqs := by
  show ((req, (handle s req).1) :: exchanges (handle s req).2 reqs).filter _ = _
  by_cases own : req.index = index
  · rw [List.filter_cons_of_pos (by simpa using own), if_pos own]
    rfl
  · rw [List.filter_cons_of_neg (by simpa using own), if_neg own]
    rfl

theorem SameByIndex.symm {reqs reqs' : List Message} (h : SameByIndex reqs reqs') :
    SameByIndex reqs' reqs :=
  fun index => (h index).symm

theorem SameByIndex.mem {reqs reqs' : List Message} {req : Message} (h : SameByIndex reqs reqs')
    (mem : req ∈ reqs) : req ∈ reqs' := by
  have own : req ∈ reqs.filter (·.index = req.index) := List.mem_filter.mpr ⟨mem, by simp⟩
  rw [h] at own
  exact (List.mem_filter.mp own).1

/-- In what order requests for different variables are handled makes no difference to a store, as
far as `view` shows of it, nor to the responses. -/
structure Reorderable {α : Type*} (view : S → α) (s : S) : Prop where
  final : ∀ reqs reqs', SameByIndex reqs reqs' → view (after s reqs) = view (after s reqs')
  /-- At each index every request has the same response. -/
  responses : ∀ reqs reqs', SameByIndex reqs reqs' →
    ∀ index, exchangesAt index s reqs = exchangesAt index s reqs'
  pair : ∀ a b, a.index ≠ b.index →
    (handle (handle s b).2 a).1 = (handle s a).1 ∧ (handle (handle s a).2 b).1 = (handle s b).1 ∧
      view (handle (handle s a).2 b).2 = view (handle (handle s b).2 a).2

theorem Reorderable.mono {α β : Type*} {view : S → α} {view' : S → β} {s : S} (h : Reorderable view s)
    (told : ∀ s s', view s = view s' → view' s = view' s') : Reorderable view' s where
  final reqs reqs' same := told _ _ (h.final reqs reqs' same)
  responses := h.responses
  pair _ _ apart :=
    have ⟨first, second, last⟩ := h.pair _ _ apart
    ⟨first, second, told _ _ last⟩

/-- What is true of a store that stands for another is true of the other. -/
theorem Reorderable.of_alike {S' : Type} [VarStore S'] {α : Type*} {f : S → S'} {view : S' → α}
    {s : S} (h : Reorderable view (f s)) (all : ∀ s req, HandledAlike f s req) :
    Reorderable (fun s => view (f s)) s := by
  have run (reqs : List Message) : answers (f s) reqs = answers s reqs ∧
      after (f s) reqs = f (after s reqs) := HandledAlike.run (fun s req _ => all s req) s
  have one (s : S) (req : Message) : handle (f s) req = ((handle s req).1, f (handle s req).2) :=
    all s req
  refine ⟨?_, ?_, ?_⟩
  · intro reqs reqs' same
    rw [← (run reqs).2, ← (run reqs').2]
    exact h.final reqs reqs' same
  · intro reqs reqs' same index
    have told := h.responses reqs reqs' same index
    rwa [exchangesAt, exchangesAt, exchanges, exchanges, (run reqs).1, (run reqs').1] at told
  · intro a b apart
    have told := h.pair a b apart
    simp only [one] at told
    exact told

/-! ## One request -/

/-- A request leaves the store as it was, or samples or writes the variable that it asks for. -/
theorem handle_store_cases (s : S) (req : Message) : (handle s req).2 = s ∨
    ∃ i, AsksFor s req i ∧ ((handle s req).2 = (VarStore.sample s i).2 ∨
      (handle s req).2 = (VarStore.write s i req.value).2) := by
  cases place : index? (VarStore.count s) req.index with
  | none =>
    left
    rcases asked : req.requestKind with e | kind
    · simp only [handle, asked, place]
    · cases kind <;> simp only [handle, asked, place]
  | some i =>
    have here : AsksFor s req i := index?_eq_some.mp place
    rcases asked : req.requestKind with e | kind
    · left
      simp only [handle, asked, place]
    · cases kind with
      | write => exact .inr ⟨i, here, .inr (by simp only [handle, asked, place])⟩
      | read => exact .inr ⟨i, here, .inl (by simp only [handle, asked, place])⟩
      | _ => exact .inl (by simp only [handle, asked, place])

variable [VarStore.Separable S] {s s' : S} {req : Message}

theorem count_handle (s : S) (req : Message) :
    VarStore.count (handle s req).2 = VarStore.count s := by
  rcases handle_store_cases s req with same | ⟨i, -, sampled | written⟩
  · rw [same]
  · rw [sampled, VarStore.Separable.count_sample]
  · rw [written, VarStore.Separable.count_write]

/-- A request changes no part but that of its own variable. -/
theorem part_handle {i : Nat} (other : req.index.toInt ≠ i) :
    part (handle s req).2 i = part s i := by
  rcases handle_store_cases s req with same | ⟨j, here, changed⟩
  · rw [same]
  · have apart : j ≠ i := by
      rintro rfl
      exact other here.1
    rcases changed with sampled | written
    · rw [sampled, VarStore.Separable.part_sample s apart]
    · rw [written, VarStore.Separable.part_write s _ apart]

/-- The response to a request, and what becomes of its variable, depends on the variable's part. -/
theorem handle_congr_part (size : VarStore.count s' = VarStore.count s)
    (same : ∀ i : Nat, req.index.toInt = i → part s' i = part s i) :
    (handle s' req).1 = (handle s req).1 ∧
      ∀ i : Nat, req.index.toInt = i → part (handle s' req).2 i = part (handle s req).2 i := by
  cases place : index? (VarStore.count s) req.index with
  | none =>
    rcases asked : req.requestKind with e | kind
    · simp only [handle, asked, size, place, true_and]
      exact same
    · cases kind <;> simp only [handle, asked, size, place, true_and] <;> exact same
  | some i =>
    have there : req.index.toInt = i := (index?_eq_some.mp place).1
    have here := same i there
    obtain ⟨sampled, partSampled⟩ := VarStore.Separable.sample_congr here
    have partWritten := VarStore.Separable.write_congr req.value here
    have only (j : Nat) (there' : req.index.toInt = j) : j = i := by omega
    constructor
    · rcases asked : req.requestKind with e | kind
      · simp only [handle, asked, size, place]
      · cases kind <;> simp only [handle, asked, size, place, VarStore.Separable.value_congr here,
          VarStore.Separable.min_congr here, VarStore.Separable.max_congr here,
          VarStore.Separable.name_congr here, VarStore.Separable.description_congr here, sampled]
    · intro j there'
      obtain rfl := only j there'
      rcases asked : req.requestKind with e | kind
      · simp only [handle, asked, size, place, here]
      · cases kind <;> simp only [handle, asked, size, place, here, partSampled, partWritten]

/-! ## Any number of requests -/

theorem part_after {i : Nat} (reqs : List Message) (others : ∀ req ∈ reqs, req.index.toInt ≠ i) :
    part (after s reqs) i = part s i := by
  induction reqs generalizing s with
  | nil => rfl
  | cons req rest ih =>
    obtain ⟨other, more⟩ := List.forall_mem_cons.mp others
    rw [after_cons, ih more, part_handle other]

/-- What becomes of a variable, and what is answered to the requests for it, is what comes of these
requests alone. -/
theorem exchanges_filter (index : Int32) (reqs : List Message)
    (size : VarStore.count s' = VarStore.count s)
    (same : ∀ i : Nat, index.toInt = i → part s' i = part s i) :
    exchangesAt index s' reqs = exchangesAt index s (reqs.filter (·.index = index)) ∧
      ∀ i : Nat, index.toInt = i →
        part (after s' reqs) i = part (after s (reqs.filter (·.index = index))) i := by
  induction reqs generalizing s s' with
  | nil => exact ⟨rfl, same⟩
  | cons req rest ih =>
    rw [exchangesAt_cons, after_cons]
    by_cases own : req.index = index
    · subst own
      obtain ⟨response, kept⟩ := handle_congr_part size same
      obtain ⟨later, last⟩ := ih
        ((count_handle s' req).trans (size.trans (count_handle s req).symm)) kept
      rw [List.filter_cons_of_pos (by simp), exchangesAt_cons, after_cons, response, later]
      exact ⟨rfl, last⟩
    · have other (i : Nat) (there : index.toInt = i) : req.index.toInt ≠ i := by
        rw [← there]
        exact fun equal => own (Int32.toInt_inj.mp equal)
      rw [List.filter_cons_of_neg (by simpa using own), if_neg own]
      exact ih ((count_handle s' req).trans size)
        fun i there => (part_handle (other i there)).trans (same i there)

theorem exchangesAt_congr {reqs reqs' : List Message} (h : SameByIndex reqs reqs')
    (index : Int32) (s : S) : exchangesAt index s reqs = exchangesAt index s reqs' := by
  rw [(exchanges_filter index reqs rfl fun _ _ => rfl).1, h,
    ← (exchanges_filter index reqs' rfl fun _ _ => rfl).1]

theorem part_after_congr {reqs reqs' : List Message} (h : SameByIndex reqs reqs') (s : S) (i : Nat) :
    part (after s reqs) i = part (after s reqs') i := by
  by_cases asked : ∃ req ∈ reqs, req.index.toInt = i
  · obtain ⟨req, -, there⟩ := asked
    rw [(exchanges_filter req.index reqs rfl fun _ _ => rfl).2 i there, h,
      ← (exchanges_filter req.index reqs' rfl fun _ _ => rfl).2 i there]
  · have others : ∀ req ∈ reqs, req.index.toInt ≠ i := by
      intro req mem there
      exact asked ⟨req, mem, there⟩
    have others' : ∀ req ∈ reqs', req.index.toInt ≠ i :=
      fun req mem => others req (h.symm.mem mem)
    rw [part_after reqs others, part_after reqs' others']

/-- Neighbours change places. -/
theorem SameByIndex.swap {a b : Message} (apart : a.index ≠ b.index) (past later : List Message) :
    SameByIndex (past ++ a :: b :: later) (past ++ b :: a :: later) := by
  intro index
  rw [List.filter_append, List.filter_append]
  congr 1
  by_cases own : a.index = index
  · have other : b.index ≠ index := fun same => apart (own.trans same.symm)
    simp [own, other]
  · simp [List.filter_cons, own]

/-- A request is answered as if no request for another variable had come before. -/
theorem response_after {a b : Message} (apart : a.index ≠ b.index) :
    (handle (handle s b).2 a).1 = (handle s a).1 := by
  refine (handle_congr_part (count_handle s b) ?_).1
  intro i there
  refine part_handle ?_
  rw [← there]
  exact fun same => apart (Int32.toInt_inj.mp same).symm

theorem reorderable_part (s : S) : Reorderable part s where
  final _ _ same := funext (part_after_congr same s)
  responses _ _ same index := exchangesAt_congr same index s
  pair _ _ apart :=
    ⟨response_after apart, response_after apart.symm,
      funext (part_after_congr (SameByIndex.swap apart [] []) s)⟩

end Config.Server

/-! ## Tables -/

namespace VarTable

variable {t t' : VarTable} {i j : Nat} {f : Variable → Variable × List Call}

theorem getElem?_update_congr (same : t.vars[i]? = t'.vars[i]?) :
    (t.update i f).vars[i]? = (t'.update i f).vars[i]? := by
  cases here : t.vars[i]? with
  | none =>
    have here' := same.symm.trans here
    rw [update, update, here, here']
    exact same
  | some v =>
    have here' := same.symm.trans here
    rw [update_eq here, update_eq here',
      List.getElem?_set_self (List.getElem?_eq_some_iff.mp here).1,
      List.getElem?_set_self (List.getElem?_eq_some_iff.mp here').1]

theorem aspect_congr {α : Type} [Inhabited α] (g : Variable → α)
    (same : t.vars[i]? = t'.vars[i]?) : t.aspect g i = t'.aspect g i := by
  rw [aspect, aspect, same]

theorem getElem?_store_congr (value : Int32) (same : t.vars[i]? = t'.vars[i]?) :
    (VarStore.store t i (limit value (VarStore.min t i) (VarStore.max t i))).vars[i]? =
      (VarStore.store t' i (limit value (VarStore.min t' i) (VarStore.max t' i))).vars[i]? := by
  have min : VarStore.min t i = VarStore.min t' i := aspect_congr _ same
  have max : VarStore.max t i = VarStore.max t' i := aspect_congr _ same
  rw [min, max]
  exact getElem?_update_congr same

end VarTable

/-- In a table with hooks of any kind a variable has itself for its part, as long as no hook looks
at what was run before. -/
instance {conduct : Conduct} : VarStore.Separable (TableWith fun _ => conduct) where
  Part := Option Variable
  part t i := t.table.vars[i]?
  value_congr := VarTable.aspect_congr _
  min_congr := VarTable.aspect_congr _
  max_congr := VarTable.aspect_congr _
  name_congr := VarTable.aspect_congr _
  description_congr := VarTable.aspect_congr _
  sample_congr same :=
    have after := VarTable.getElem?_update_congr same
    ⟨VarTable.aspect_congr _ after, after⟩
  write_congr value same :=
    VarTable.getElem?_update_congr (VarTable.getElem?_store_congr value same)
  part_sample _ _ _ apart := VarTable.getElem?_update_of_ne apart
  part_write _ _ _ _ apart :=
    (VarTable.getElem?_update_of_ne apart).trans (VarTable.getElem?_update_of_ne apart)
  count_sample _ _ := VarTable.length_update ..
  count_write _ _ _ := (VarTable.length_update ..).trans (VarTable.length_update ..)

open Config.Server (Reorderable SameByIndex after exchangesAt handle)

/-- The requests for a variable are answered by what was asked of this variable before, and the
requests for others can come before them or after them: neither the responses nor the final
variables change. That holds of every store whose variables have parts of their own, and so of
tables, whatever the hooks of a variable do to it. Indices need not be those of variables. -/
theorem requests_reorderable :
    (∀ (S : Type) [VarStore S] [VarStore.Separable S] (s : S), Reorderable (part (S := S)) s) ∧
      (∀ (conduct : Conduct) (t : TableWith fun _ => conduct), Reorderable (·.table.vars) t) ∧
      ∀ t : VarTable, Reorderable (·.vars) t := by
  have tables (conduct : Conduct) (t : TableWith fun _ => conduct) :
      Reorderable (·.table.vars) t := by
    refine (Config.Server.reorderable_part t).mono ?_
    intro t t' same
    exact List.ext_getElem? (congrFun same)
  refine ⟨?_, tables, ?_⟩
  · intro S _ _ s
    exact Config.Server.reorderable_part s
  · intro t
    exact (tables Variable.reactions t.reacting).of_alike VarTable.handledAlike_reacting

/-- A request that has the first variable written and then read, and one that writes the second. -/
theorem requests_reorderable_of_chained :
    SameByIndex [.request 3 .read 0 0, .request 4 .write 1 1, .request 5 .name 0 0]
        [.request 4 .write 1 1, .request 3 .read 0 0, .request 5 .name 0 0] ∧
      (after chained [.request 4 .write 1 1, .request 3 .read 0 0, .request 5 .name 0 0]).values =
        [15, 1] ∧
      (exchangesAt 0 chained [.request 4 .write 1 1, .request 3 .read 0 0, .request 5 .name 0 0]).map
        (·.2.value) = [15, 15] := by
  obtain ⟨-, -, tables⟩ := requests_reorderable
  have same : SameByIndex [.request 3 .read 0 0, .request 4 .write 1 1, .request 5 .name 0 0]
      [.request 4 .write 1 1, .request 3 .read 0 0, .request 5 .name 0 0] :=
    SameByIndex.swap (by decide) [] _
  have final := (tables chained).final _ _ same
  have responses := (tables chained).responses _ _ same 0
  refine ⟨same, ?_, ?_⟩
  · rw [VarTable.values, ← final]
    rfl
  · rw [← responses]
    rfl

end InterCore
