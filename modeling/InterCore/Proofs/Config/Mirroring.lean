import InterCore.Proofs.Config.History
import InterCore.Proofs.Config.Responses
import InterCore.Variable.Conduct

/-!
# Stores that stand for others

A server knows of a store what it asks of it. If a store that stands for another tells the same of
its variables, and what is read and written leaves a store that stands for what it leaves of the
other, then the server gives the same responses (`HandledAlike.run`). So a table whose hooks react
once stands for itself among the tables with hooks of any kind.
-/

namespace InterCore

open Config (Message)

/-- Two stores tell the same of their variables. -/
structure VarStore.Alike {S S' : Type} [VarStore S] [VarStore S'] (s : S) (s' : S') : Prop where
  count : count s' = count s
  value : value s' = value s
  min : VarStore.min s' = VarStore.min s
  max : VarStore.max s' = VarStore.max s
  name : name s' = name s
  description : description s' = description s

namespace Config.Server

variable {S S' : Type} [VarStore S] [VarStore S'] {f : S → S'} {s : S} {req : Message}
  {reqs : List Message}

/-- A request is handled on the store that stands for another as it is on the other. -/
def HandledAlike (f : S → S') (s : S) (req : Message) : Prop :=
  handle (f s) req = ((handle s req).1, f (handle s req).2)

theorem handledAlike (alike : VarStore.Alike s (f s))
    (reads : req.requestKind = .ok .read → ∀ i, AsksFor s req i →
      VarStore.sample (f s) i = ((VarStore.sample s i).1, f (VarStore.sample s i).2))
    (writes : req.requestKind = .ok .write → ∀ i, AsksFor s req i →
      (VarStore.write (f s) i req.value).2 = f (VarStore.write s i req.value).2) :
    HandledAlike f s req := by
  unfold HandledAlike
  cases place : index? (VarStore.count s) req.index with
  | none =>
    rcases asked : req.requestKind with e | kind
    · simp only [handle, asked, alike.count, place]
    · cases kind <;> simp only [handle, asked, alike.count, place]
  | some i =>
    have here : AsksFor s req i := index?_eq_some.mp place
    rcases asked : req.requestKind with e | kind
    · simp only [handle, asked, alike.count, place]
    · cases kind with
      | read => simp only [handle, asked, alike.count, place, reads asked i here]
      | write => simp only [handle, asked, alike.count, place, writes asked i here]
      | _ => simp only [handle, asked, alike.count, place, alike.value, alike.min, alike.max,
          alike.name, alike.description]

theorem HandledAlike.run (all : ∀ (s : S), ∀ req ∈ reqs, HandledAlike f s req) (s : S) :
    answers (f s) reqs = answers s reqs ∧ after (f s) reqs = f (after s reqs) := by
  induction reqs generalizing s with
  | nil => exact ⟨rfl, rfl⟩
  | cons req rest ih =>
    have first : handle (f s) req = ((handle s req).1, f (handle s req).2) :=
      all s req List.mem_cons_self
    obtain ⟨responses, final⟩ :=
      ih (fun s req mem => all s req (List.mem_cons_of_mem _ mem)) (handle s req).2
    refine ⟨?_, ?_⟩
    · rw [answers, answers, first, responses]
    · rw [after, List.foldl_cons, first]
      exact final

end Config.Server

/-! ## Tables whose hooks react once -/

namespace Variable

theorem conducted_reactions_read (v : Variable) : conducted reactions .read v = v.fireRead :=
  Prod.ext v.fireRead_fst.symm rfl

theorem conducted_reactions_write (v : Variable) : conducted reactions .write v = v.fireWrite :=
  Prod.ext v.fireWrite_fst.symm rfl

end Variable

namespace VarTable

variable {id value : Int32} {i : Nat}

/-- To change a variable twice is one change. -/
theorem update_update (t : VarTable) (i : Nat) (f g : Variable → Variable × List Variable.Call) :
    (t.update i f).update i g =
      t.update i fun v => ((g (f v).1).1, (f v).2 ++ (g (f v).1).2) := by
  cases here : t.vars[i]? with
  | none =>
    have unchanged (h : Variable → Variable × List Variable.Call) : t.update i h = t := by
      rw [update, here]
    rw [unchanged, unchanged, unchanged]
  | some v =>
    have inside := (List.getElem?_eq_some_iff.mp here).1
    rw [update_eq here, update_eq (List.getElem?_set_self inside), update_eq here, List.set_set,
      List.append_assoc]

theorem onRead_reacting (t : VarTable) (i : Nat) :
    VarStore.onRead t.reacting i = (VarStore.onRead t i).reacting := by
  show reacting (t.update i (Variable.conducted Variable.reactions .read)) = _
  rw [funext Variable.conducted_reactions_read]
  rfl

theorem onWrite_reacting (t : VarTable) (i : Nat) :
    VarStore.onWrite t.reacting i = (VarStore.onWrite t i).reacting := by
  show reacting (t.update i (Variable.conducted Variable.reactions .write)) = _
  rw [funext Variable.conducted_reactions_write]
  rfl

theorem sample_reacting (t : VarTable) (i : Nat) : VarStore.sample t.reacting i =
    ((VarStore.sample t i).1, (VarStore.sample t i).2.reacting) := by
  show (VarStore.value (VarStore.onRead t.reacting i) i, VarStore.onRead t.reacting i) = _
  rw [onRead_reacting]
  rfl

theorem write_reacting (t : VarTable) (i : Nat) (value : Int32) : VarStore.write t.reacting i value =
    ((VarStore.write t i value).1, (VarStore.write t i value).2.reacting) :=
  Prod.ext rfl (onWrite_reacting _ i)

theorem setLimited_reacting (t : VarTable) (i : Nat) (value : Int32) (trigger : Bool) :
    t.reacting.setLimited i value trigger =
      ((t.setLimited i value trigger).1, (t.setLimited i value trigger).2.reacting) := by
  cases trigger with
  | false => rfl
  | true =>
    refine Prod.ext rfl ((onWrite_reacting _ i).trans (congrArg reacting ?_))
    exact update_update t i (fun v => (v.setLimited value, [])) Variable.fireWrite

theorem setById_reacting (t : VarTable) (id value : Int32) (trigger : Bool) :
    t.reacting.setById id value trigger =
      ((t.setById id value trigger).1, (t.setById id value trigger).2.reacting) := by
  have same : t.reacting.table = t := rfl
  cases found : t.indexOfId? id with
  | none => simp only [TableWith.setById, setById, same, found]
  | some i => simp only [TableWith.setById, setById, same, found, setLimited_reacting]

theorem handledAlike_reacting (t : VarTable) (req : Message) :
    Config.Server.HandledAlike reacting t req :=
  Config.Server.handledAlike ⟨rfl, rfl, rfl, rfl, rfl, rfl⟩ (fun _ i _ => sample_reacting t i)
    fun _ i _ => congrArg Prod.snd (write_reacting t i req.value)

end VarTable

end InterCore
