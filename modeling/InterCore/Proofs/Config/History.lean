import InterCore.Proofs.Config.Sequential
import Mathlib.Data.List.Induction

/-!
# What a server tells after any requests

A table without hooks remembers of a variable what was last written to it, brought into its range.
Nothing else that was ever asked makes a difference to what is told of its value, whatever kinds,
indices and values came, and whether or not they make sense.
-/

namespace InterCore

open Config (Message RequestKind ResponseKind)

open Variable (limit)

/-- The lower end of an empty range, and else the value or the end that it is beyond. -/
theorem Variable.limit_cases (value lo hi : Int32) :
    limit value lo hi =
      if hi < lo then lo else if value < lo then lo else if hi < value then hi else value := by
  rw [limit]
  grind [Int32.lt_iff_toInt_lt]

/-- No variable of the table has a hook. -/
def VarTable.Hookless (t : VarTable) : Prop :=
  ∀ v ∈ t.vars, v.Hookless

namespace Config

/-- The value that a request writes to the variable at an index. -/
def Message.writes? (index : Int32) (req : Message) : Option Int32 :=
  match req.requestKind with
  | .ok .write => if req.index = index then some req.value else none
  | _ => none

/-- What was written to the variable at an index, in order. -/
def writesTo (index : Int32) (past : List Message) : List Int32 :=
  past.filterMap (·.writes? index)

end Config

/-- The variable after values were written to it. -/
def Variable.written (v : Variable) (values : List Int32) : Variable :=
  { v with value := (values.getLast?.map fun value => limit value v.min v.max).getD v.value }

namespace Config.Server

variable {S : Type} [VarStore S]

/-- The store after requests that were handled one after another. -/
def after (s : S) (reqs : List Message) : S :=
  reqs.foldl (fun s req => (handle s req).2) s

/-- The responses to requests that are handled one after another. -/
def answers : S → List Message → List Message
  | _, [] => []
  | s, req :: rest => (handle s req).1 :: answers (handle s req).2 rest

theorem after_snoc (s : S) (reqs : List Message) (req : Message) :
    after s (reqs ++ [req]) = (handle (after s reqs) req).2 :=
  List.foldl_append ..

theorem getElem?_answers (s : S) (past later : List Message) (req : Message) :
    (answers s (past ++ req :: later))[past.length]? = some (handle (after s past) req).1 := by
  induction past generalizing s with
  | nil => rfl
  | cons first rest ih => exact ih (handle s first).2

end Config.Server

/-! ## One request -/

namespace VarTable.Hookless

variable {t : VarTable}

theorem at_index (h : t.Hookless) {index : Int32} {v : Variable}
    (here : variableAt? t.vars index = some v) : v.Hookless :=
  h v (List.mem_of_getElem? (Config.Server.index?_of_some here).2)

theorem set (h : t.Hookless) {i : Nat} {v : Variable} (quiet : v.Hookless) :
    VarTable.Hookless ⟨t.vars.set i v, t.calls⟩ := by
  intro w mem
  rcases List.mem_or_eq_of_mem_set mem with old | rfl
  · exact h w old
  · exact quiet

end VarTable.Hookless

theorem nonneg_of_variableAt? {vars : List Variable} {index : Int32} {v : Variable}
    (here : variableAt? vars index = some v) : 0 ≤ index.toInt := by
  rw [variableAt?] at here
  split at here
  case isTrue nonneg => exact nonneg
  case isFalse => cases here

theorem variableAt?_set {vars : List Variable} {index : Int32} {v : Variable}
    (here : variableAt? vars index = some v) (w : Variable) (other : Int32) :
    variableAt? (vars.set index.toInt.toNat w) other =
      if other = index then some w else variableAt? vars other := by
  have inside := (List.getElem?_eq_some_iff.mp (Config.Server.index?_of_some here).2).1
  have nonneg := nonneg_of_variableAt? here
  by_cases same : other = index
  · rw [if_pos same, same, variableAt?, if_pos nonneg, List.getElem?_set_self inside]
  · rw [if_neg same, variableAt?, variableAt?]
    by_cases nonneg' : 0 ≤ other.toInt
    · have apart : index.toInt.toNat ≠ other.toInt.toNat := by
        intro equal
        have : other.toInt = index.toInt := by omega
        exact same (Int32.toInt_inj.mp this)
      rw [if_pos nonneg', if_pos nonneg', List.getElem?_set_ne apart]
    · rw [if_neg nonneg', if_neg nonneg']

/-- A response tells the value of a variable, if the request asks for it or for a text that comes
with it. -/
structure Tells (req rsp : Message) (v : Variable) : Prop where
  read : req.requestKind = .ok .read → rsp = .response req.seq .value req.index v.value
  name : req.requestKind = .ok .name →
    rsp = (Message.response req.seq .name req.index v.value).setData (Text.toBytes v.name)
  description : req.requestKind = .ok .description →
    rsp = (Message.response req.seq .description req.index v.value).setData
      (Text.toBytes v.description)

namespace Config.Server

variable {t : VarTable} {req : Message} {v : Variable}

/-- A request changes at most the variable that it writes to. -/
theorem handle_store (hookless : t.Hookless) (req : Message) :
    (handle t req).2 =
      match req.requestKind, variableAt? t.vars req.index with
      | .ok .write, some v =>
        ⟨t.vars.set req.index.toInt.toNat (v.clampedTo req.value), t.calls⟩
      | _, _ => t := by
  have count : VarStore.count t = t.vars.length := rfl
  cases inTable : variableAt? t.vars req.index with
  | none =>
    have nowhere := index?_of_none inTable
    rcases asked : req.requestKind with e | kind
    · simp only [handle, asked, count, nowhere]
    · cases kind <;> simp only [handle, asked, count, nowhere]
  | some v =>
    obtain ⟨somewhere, here⟩ := index?_of_some inTable
    have quiet := hookless.at_index inTable
    rcases asked : req.requestKind with e | kind
    · simp only [handle, asked, count, somewhere]
    · cases kind <;> simp only [handle, asked, count, somewhere,
        VarTable.sample_hookless here quiet, VarTable.write_hookless here quiet]

theorem handle_tells (hookless : t.Hookless) (here : variableAt? t.vars req.index = some v) :
    Tells req (handle t req).1 v := by
  have count : VarStore.count t = t.vars.length := rfl
  obtain ⟨somewhere, there⟩ := index?_of_some here
  obtain ⟨current, -, -, name, description⟩ := VarTable.fields_eq there
  refine ⟨?_, ?_, ?_⟩
  · intro asked
    simp only [handle, asked, count, somewhere,
      VarTable.sample_hookless there (hookless.at_index here)]
  · intro asked
    simp only [handle, asked, count, somewhere, current, name]
  · intro asked
    simp only [handle, asked, count, somewhere, current, description]

/-- A response depends on no other variable than the one that is asked for. -/
theorem handle_congr {t' : VarTable} (hookless : t.Hookless) (hookless' : t'.Hookless)
    (size : t'.vars.length = t.vars.length)
    (same : variableAt? t'.vars req.index = variableAt? t.vars req.index) :
    (handle t' req).1 = (handle t req).1 := by
  have count : VarStore.count t = t.vars.length := rfl
  have count' : VarStore.count t' = t.vars.length := size
  cases inTable : variableAt? t.vars req.index with
  | none =>
    have nowhere := index?_of_none inTable
    rcases asked : req.requestKind with e | kind
    · simp only [handle, asked, count, count', nowhere]
    · cases kind <;> simp only [handle, asked, count, count', nowhere]
  | some v =>
    rw [inTable] at same
    obtain ⟨somewhere, there⟩ := index?_of_some inTable
    have there' := (index?_of_some same).2
    obtain ⟨value, least, greatest, name, description⟩ := VarTable.fields_eq there
    obtain ⟨value', least', greatest', name', description'⟩ := VarTable.fields_eq there'
    have sampled := VarTable.sample_hookless there (hookless.at_index inTable)
    have sampled' := VarTable.sample_hookless there' (hookless'.at_index same)
    rcases asked : req.requestKind with e | kind
    · simp only [handle, asked, count, count', somewhere]
    · cases kind <;> simp only [handle, asked, count, count', somewhere, sampled, sampled', value,
        value', least, least', greatest, greatest', name, name', description, description']

end Config.Server

/-! ## Any number of requests -/

namespace Variable

variable {v : Variable}

/-- A value that is written last is brought into the range, and those before it are forgotten. -/
theorem written_snoc (values : List Int32) (value : Int32) :
    (v.written values).clampedTo value = v.written (values ++ [value]) := by
  rw [written, written, List.getLast?_concat, clampedTo, ← limit_eq_clamp]
  rfl

end Variable

namespace Config

theorem writesTo_snoc (index : Int32) (past : List Message) (req : Message) :
    writesTo index (past ++ [req]) = writesTo index past ++ (req.writes? index).toList := by
  rw [writesTo, List.filterMap_append, List.filterMap_cons]
  cases req.writes? index <;> rfl

/-- A table after requests: each variable was written what the requests say, and nothing else has
changed. -/
structure Remembers (t : VarTable) (past : List Message) (t' : VarTable) : Prop where
  hookless : t'.Hookless
  size : t'.vars.length = t.vars.length
  calls : t'.calls = t.calls
  vars : ∀ index, variableAt? t'.vars index =
    (variableAt? t.vars index).map (·.written (writesTo index past))

namespace Remembers

variable {t t' : VarTable} {past : List Message}

/-- A request that writes to no variable of the table. -/
theorem kept (h : Remembers t past t') {req : Message}
    (other : ∀ index v, variableAt? t.vars index = some v → req.writes? index = none) :
    Remembers t (past ++ [req]) t' := by
  refine ⟨h.hookless, h.size, h.calls, ?_⟩
  intro index
  rw [h.vars, writesTo_snoc]
  cases inTable : variableAt? t.vars index with
  | none => rfl
  | some v =>
    rw [other index v inTable]
    simp

theorem written (h : Remembers t past t') {req : Message} {v : Variable}
    (asked : req.requestKind = .ok .write) (here : variableAt? t'.vars req.index = some v) :
    Remembers t (past ++ [req])
      ⟨t'.vars.set req.index.toInt.toNat (v.clampedTo req.value), t'.calls⟩ := by
  have quiet := h.hookless.at_index here
  refine ⟨h.hookless.set quiet, by rw [List.length_set, h.size], h.calls, ?_⟩
  intro index
  rw [variableAt?_set here, writesTo_snoc, Message.writes?, asked]
  have before := h.vars index
  by_cases same : index = req.index
  · subst same
    rw [if_pos rfl]
    obtain ⟨v₀, was, rfl⟩ := Option.map_eq_some_iff.mp (before.symm.trans here)
    rw [was, Variable.written_snoc]
    simp
  · rw [if_neg same, before]
    simp [Ne.symm same]

theorem handle (h : Remembers t past t') (req : Message) :
    Remembers t (past ++ [req]) (Server.handle t' req).2 := by
  rw [Server.handle_store h.hookless]
  split
  case h_1 v asked here => exact h.written asked here
  case h_2 harmless =>
    apply h.kept
    intro index v inTable
    rw [Message.writes?]
    split
    case h_1 asked =>
      rw [if_neg]
      rintro rfl
      have here : variableAt? t'.vars req.index = some (v.written (writesTo req.index past)) := by
        rw [h.vars, inTable]
        rfl
      exact harmless _ asked here
    case h_2 => rfl

end Remembers

/-- What a table without hooks has become after any requests. -/
theorem Server.remembers {t : VarTable} (hookless : t.Hookless) (past : List Message) :
    Remembers t past (after t past) := by
  induction past using List.reverseRecOn with
  | nil =>
    refine ⟨hookless, rfl, rfl, ?_⟩
    intro index
    exact Option.map_id'.symm
  | append_singleton past req ih =>
    rw [after_snoc]
    exact ih.handle req

end Config

/-- After any requests a table without hooks tells as the value of a variable what was last written
to it, brought into its range, or the first value, as it was, if nothing was written; a name or a
description comes with the same value. Nothing but the writes to the variable makes a difference to
what is told of it. -/
theorem server_tells_last_write {t : VarTable} (hookless : t.Hookless) (past later : List Message)
    {req : Message} {v : Variable} (here : variableAt? t.vars req.index = some v) :
    (∃ rsp, (Config.Server.answers t (past ++ req :: later))[past.length]? = some rsp ∧
        Tells req rsp (v.written (Config.writesTo req.index past))) ∧
      (∀ past', Config.writesTo req.index past' = Config.writesTo req.index past →
        (Config.Server.handle (Config.Server.after t past') req).1 =
          (Config.Server.handle (Config.Server.after t past) req).1) ∧
      ∀ value, limit value v.min v.max =
        if v.max < v.min then v.min
        else if value < v.min then v.min else if v.max < value then v.max else value := by
  have remembers := Config.Server.remembers hookless past
  have now : variableAt? (Config.Server.after t past).vars req.index =
      some (v.written (Config.writesTo req.index past)) := by
    rw [remembers.vars, here]
    rfl
  refine ⟨?_, ?_, fun value => Variable.limit_cases value v.min v.max⟩
  · exact ⟨_, Config.Server.getElem?_answers t past later req,
      Config.Server.handle_tells remembers.hookless now⟩
  · intro past' same
    have remembers' := Config.Server.remembers hookless past'
    refine Config.Server.handle_congr remembers.hookless remembers'.hookless
      (remembers'.size.trans remembers.size.symm) ?_
    rw [remembers'.vars, remembers.vars, same]

/-- Two variables: the first value of one is out of its range, and the range of the other is
empty. -/
def oddPair : VarTable :=
  ⟨[⟨1, "gain", "", 500, -100, 100, none, none⟩, ⟨2, "led", "", 0, 10, -10, none, none⟩], []⟩

/-- A write to the second variable, one to no variable, and a request of an unknown kind. -/
def oddPast : List Message :=
  [.request 0 .write 1 7, .request 1 .write (-1) 3, ⟨2, 99, 1, 4, 0, Area.ofBytes _ []⟩]

theorem server_tells_last_write_of_oddPair :
    oddPair.Hookless ∧
      ((Config.Server.answers oddPair (oddPast ++ [.request 3 .read 0 0]))[3]? =
        some (.response 3 .value 0 500)) ∧
      (Config.Server.answers oddPair (oddPast ++ [.request 3 .read 1 0]))[3]? =
        some (.response 3 .value 1 10) := by
  have hookless : oddPair.Hookless := by
    intro v mem
    simp only [oddPair, List.mem_cons, List.not_mem_nil, or_false] at mem
    rcases mem with rfl | rfl <;> exact ⟨rfl, rfl⟩
  have tells (index : Int32) {v : Variable}
      (here : variableAt? oddPair.vars (Message.request 3 .read index 0).index = some v) :
      (Config.Server.answers oddPair (oddPast ++ [.request 3 .read index 0]))[3]? =
        some (.response 3 .value index (v.written (Config.writesTo index oddPast)).value) := by
    obtain ⟨rsp, told, tells⟩ := (server_tells_last_write hookless oddPast [] here).1
    rw [tells.read rfl] at told
    exact told
  exact ⟨hookless, tells 0 rfl, tells 1 rfl⟩

end InterCore
