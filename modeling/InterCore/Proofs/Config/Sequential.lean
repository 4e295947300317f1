import InterCore.Config.Reply
import InterCore.Config.Server
import InterCore.Proofs.Config.Codec
import InterCore.Variable.Table

/-!
# A table that is asked one request at a time

`Request.answer` says what a client learns that has a list of variables to itself. The server
answers so on a table without hooks, for a request that comes as bytes and an answer that is read
from bytes.
-/

namespace InterCore

open Config (Message Reply RequestKind ResponseKind)

/-- A value brought between two ends. Where the upper one is below the lower one, the lower one
wins. -/
def clamp (lo hi value : Int32) : Int32 :=
  max lo (min value hi)

/-- The variable with a value brought into its range. -/
def Variable.clampedTo (v : Variable) (value : Int32) : Variable :=
  { v with value := clamp v.min v.max value }

/-- Nothing is run when the variable is read or written. -/
def Variable.Hookless (v : Variable) : Prop :=
  v.onRead = none ∧ v.onWrite = none

/-- Variables whose indices are 32-bit numbers, none of them with a hook. -/
structure Ordinary (vars : List Variable) : Prop where
  hookless : ∀ v ∈ vars, v.Hookless
  few : vars.length < 0x80000000

/-- The variable at an index. There is none at a negative one. -/
def variableAt? (vars : List Variable) (index : Int32) : Option Variable :=
  if 0 ≤ index.toInt then vars[index.toInt.toNat]? else none

namespace Config

namespace Reply

/-- The reply to a request that asks for nothing. -/
def done : Reply := ⟨.ok, 0, []⟩

/-- A number comes with its decimal form. -/
def number (kind : ResponseKind) (v : Int32) : Reply := ⟨kind, v, numberText v⟩

/-- A count comes with its decimal form. -/
def counted (n : Nat) : Reply :=
  ⟨.count, Int32.ofNat n, Text.toBytes (String.ofList (Text.decimal n) ++ "\n")⟩

/-- A text comes with the variable's value, and only as much of it as a message has room for. -/
def worded (kind : ResponseKind) (v : Int32) (text : String) : Reply :=
  ⟨kind, v, (Text.toBytes text).take maxReplyText⟩

end Reply

/-- What a client asks: the kind of its request, and the index and the value that go with it. -/
structure Request where
  kind : RequestKind
  index : Int32
  value : Int32

namespace Request

/-- The request under a sequence number. -/
def toMessage (q : Request) (seq : UInt32) : Message :=
  .request seq q.kind q.index q.value

/-- The answer to a request, and the variables after it. -/
def answer (q : Request) (vars : List Variable) : Answer Reply × List Variable :=
  match q.kind, variableAt? vars q.index with
  | .nop, _ => (.ok .done, vars)
  | .count, _ => (.ok (.counted vars.length), vars)
  | _, none => (.error .badIndex, vars)
  | .read, some v => (.ok (.number .value v.value), vars)
  | .write, some v => (.ok .done, vars.set q.index.toInt.toNat (v.clampedTo q.value))
  | .min, some v => (.ok (.number .min v.min), vars)
  | .max, some v => (.ok (.number .max v.max), vars)
  | .name, some v => (.ok (.worded .name v.value v.name), vars)
  | .description, some v => (.ok (.worded .description v.value v.description), vars)

end Request

/-- The answers to numbered requests that are applied one after another. -/
def answersTo : List Variable → List (Request × Nat) → List (Answer Reply × Nat)
  | _, [] => []
  | vars, (q, k) :: rest => ((q.answer vars).1, k) :: answersTo (q.answer vars).2 rest

/-- The variables after requests that were applied one after another. -/
def variablesAfter (vars : List Variable) : List (Request × Nat) → List Variable
  | [] => vars
  | (q, _) :: rest => variablesAfter (q.answer vars).2 rest

end Config

theorem limit_eq_clamp (value lo hi : Int32) : Variable.limit value lo hi = clamp lo hi value := by
  have upper : (if value > hi then hi else value) = min value hi := by
    show _ = if value ≤ hi then value else hi
    by_cases above : value > hi
    · rw [if_pos above, if_neg (Int32.not_le.mpr above)]
    · rw [if_neg above, if_pos (Int32.not_lt.mp above)]
  show (if (if value > hi then hi else value) < lo then lo
    else if value > hi then hi else value) = if lo ≤ min value hi then min value hi else lo
  rw [upper]
  by_cases below : min value hi < lo
  · rw [if_pos below, if_neg (Int32.not_le.mpr below)]
  · rw [if_neg below, if_pos (Int32.not_lt.mp below)]

/-! ## A table without hooks -/

namespace VarTable

variable {t : VarTable} {i : Nat} {v : Variable}

theorem aspect_eq {α : Type} [Inhabited α] (here : t.vars[i]? = some v) (f : Variable → α) :
    t.aspect f i = f v := by
  rw [aspect, here]

theorem update_eq (here : t.vars[i]? = some v) (f : Variable → Variable × List Variable.Call) :
    t.update i f = ⟨t.vars.set i (f v).1, t.calls ++ (f v).2⟩ := by
  rw [update, here]

theorem fields_eq (here : t.vars[i]? = some v) :
    VarStore.value t i = v.value ∧ VarStore.min t i = v.min ∧ VarStore.max t i = v.max ∧
      VarStore.name t i = v.name ∧ VarStore.description t i = v.description :=
  ⟨aspect_eq here _, aspect_eq here _, aspect_eq here _, aspect_eq here _, aspect_eq here _⟩

theorem sample_hookless (here : t.vars[i]? = some v) (hookless : v.Hookless) :
    VarStore.sample t i = (v.value, t) := by
  have same : t.update i Variable.fireRead = t := by
    obtain ⟨inside, rfl⟩ := List.getElem?_eq_some_iff.mp here
    rw [update_eq here, Variable.fireRead, hookless.1, List.append_nil, List.set_getElem_self]
  show ((t.update i Variable.fireRead).aspect (·.value) i, t.update i Variable.fireRead) = _
  rw [same, aspect_eq here]

theorem write_hookless (here : t.vars[i]? = some v) (hookless : v.Hookless) (value : Int32) :
    (VarStore.write t i value).2 = ⟨t.vars.set i (v.clampedTo value), t.calls⟩ := by
  have limited : Variable.limit value (t.aspect (·.min) i) (t.aspect (·.max) i) =
      clamp v.min v.max value := by
    rw [aspect_eq here, aspect_eq here, limit_eq_clamp]
  have stored : VarStore.store t i (clamp v.min v.max value) =
      ⟨t.vars.set i (v.clampedTo value), t.calls⟩ := by
    show t.update i _ = _
    rw [update_eq here, List.append_nil]
    rfl
  have inside := (List.getElem?_eq_some_iff.mp here).1
  have there : (t.vars.set i (v.clampedTo value))[i]? = some (v.clampedTo value) :=
    List.getElem?_set_self inside
  have quiet : (v.clampedTo value).fireWrite = (v.clampedTo value, []) := by
    rw [Variable.fireWrite, show (v.clampedTo value).onWrite = none from hookless.2]
  show (VarStore.store t i (Variable.limit value (t.aspect (·.min) i) (t.aspect (·.max) i))).update
    i Variable.fireWrite = _
  rw [limited, stored, update_eq there, quiet, List.append_nil, List.set_set]

end VarTable

namespace Config

namespace Server

theorem index?_eq_some {count i : Nat} {index : Int32} :
    index? count index = some i ↔ index.toInt = i ∧ i < count := by
  rw [index?]
  split
  · rw [Option.some_inj]
    omega
  · simp only [reduceCtorEq, false_iff]
    omega

theorem index?_of_none {vars : List Variable} {index : Int32}
    (nowhere : variableAt? vars index = none) : index? vars.length index = none := by
  refine Option.eq_none_iff_forall_not_mem.mpr ?_
  intro i mem
  obtain ⟨same, inside⟩ := index?_eq_some.mp mem
  rw [variableAt?, if_pos (by omega), List.getElem?_eq_none_iff] at nowhere
  omega

theorem index?_of_some {vars : List Variable} {index : Int32} {v : Variable}
    (here : variableAt? vars index = some v) :
    index? vars.length index = some index.toInt.toNat ∧ vars[index.toInt.toNat]? = some v := by
  rw [variableAt?] at here
  split at here
  case isTrue nonneg =>
    have inside := (List.getElem?_eq_some_iff.mp here).1
    exact ⟨index?_eq_some.mpr ⟨(Int.toNat_of_nonneg nonneg).symm, inside⟩, here⟩
  case isFalse => cases here

end Server

namespace Reply

variable {n : Nat} {seq : UInt32} {index v : Int32} {text : String}

theorem ofMessage_counted (few : n < 0x80000000) :
    ofMessage (.response seq .count index (Int32.ofNat n)) = .ok (.counted n) := by
  have exact : (Int32.ofNat n).toInt = n := Int32.toInt_ofNat_of_lt few
  have shown : Text.renderChars (n : Int) = Text.decimal n := by
    rw [Text.renderChars, if_neg (Int.not_lt.mpr (Int.natCast_nonneg n)), Int.natAbs_natCast]
  show Except.ok (number .count (Int32.ofNat n)) = _
  rw [number, numberText, Text.render, exact, shown]
  rfl

theorem ofMessage_name :
    ofMessage ((Message.response seq .name index v).setData (Text.toBytes text)) =
      .ok (.worded .name v text) := by
  rw [worded, maxReplyText, ← Message.validData_setData (.response seq .name index v)]
  rfl

theorem ofMessage_description :
    ofMessage ((Message.response seq .description index v).setData (Text.toBytes text)) =
      .ok (.worded .description v text) := by
  rw [worded, maxReplyText, ← Message.validData_setData (.response seq .description index v)]
  rfl

end Reply

namespace Server

theorem requestKind_toMessage (q : Request) (seq : UInt32) :
    (q.toMessage seq).requestKind = .ok q.kind := by
  obtain ⟨kind, index, value⟩ := q
  cases kind <;> rfl

/-- The server answers a request as a table that has no other. -/
theorem handle_request {t : VarTable} (ordinary : Ordinary t.vars) (q : Request) (seq : UInt32) :
    (handle t (q.toMessage seq)).1.seq = seq ∧
      (Reply.ofMessage (handle t (q.toMessage seq)).1, (handle t (q.toMessage seq)).2.vars) =
        q.answer t.vars := by
  have asked := requestKind_toMessage q seq
  have count : VarStore.count t = t.vars.length := rfl
  have spot : (q.toMessage seq).index = q.index := rfl
  have value : (q.toMessage seq).value = q.value := rfl
  cases inTable : variableAt? t.vars q.index with
  | none =>
    have nowhere := index?_of_none inTable
    cases kind : q.kind with
    | count =>
      simp only [handle, asked, kind, count, Request.answer, Reply.ofMessage_counted ordinary.few]
      exact ⟨rfl, trivial⟩
    | _ =>
      simp only [handle, asked, kind, spot, count, nowhere, Request.answer, inTable]
      exact ⟨rfl, rfl⟩
  | some v =>
    obtain ⟨somewhere, here⟩ := index?_of_some inTable
    have quiet := ordinary.hookless v (List.mem_of_getElem? here)
    obtain ⟨current, least, greatest, name, description⟩ := VarTable.fields_eq here
    cases kind : q.kind with
    | nop =>
      simp only [handle, asked, kind, Request.answer]
      exact ⟨rfl, rfl⟩
    | count =>
      simp only [handle, asked, kind, count, Request.answer, Reply.ofMessage_counted ordinary.few]
      exact ⟨rfl, trivial⟩
    | write =>
      simp only [handle, asked, kind, spot, value, count, somewhere, Request.answer, inTable,
        VarTable.write_hookless here quiet]
      exact ⟨rfl, rfl⟩
    | read =>
      simp only [handle, asked, kind, spot, count, somewhere, Request.answer, inTable,
        VarTable.sample_hookless here quiet]
      exact ⟨rfl, rfl⟩
    | min =>
      simp only [handle, asked, kind, spot, count, somewhere, Request.answer, inTable, least]
      exact ⟨rfl, rfl⟩
    | max =>
      simp only [handle, asked, kind, spot, count, somewhere, Request.answer, inTable, greatest]
      exact ⟨rfl, rfl⟩
    | name =>
      simp only [handle, asked, kind, spot, count, somewhere, Request.answer, inTable, current, name,
        Reply.ofMessage_name]
      exact ⟨rfl, trivial⟩
    | description =>
      simp only [handle, asked, kind, spot, count, somewhere, Request.answer, inTable, current,
        description, Reply.ofMessage_description]
      exact ⟨rfl, trivial⟩

/-- What comes back for a request that comes as bytes. -/
theorem receive_request {t : VarTable} (ordinary : Ordinary t.vars) (q : Request) (seq : UInt32) :
    ∃ m t', receive t (q.toMessage seq).encode = ([m.encode], t') ∧ m.seq = seq ∧
      Reply.ofMessage m = (q.answer t.vars).1 ∧ t'.vars = (q.answer t.vars).2 := by
  obtain ⟨same, told⟩ := handle_request ordinary q seq
  refine ⟨_, _, ?_, same, congrArg Prod.fst told, congrArg Prod.snd told⟩
  rw [receive, Message.decode_encode]

end Server

end Config

namespace Ordinary

open Config (Request)

variable {vars : List Variable}

theorem set (h : Ordinary vars) {i : Nat} {v : Variable} (here : vars[i]? = some v)
    (value : Int32) : Ordinary (vars.set i (v.clampedTo value)) := by
  refine ⟨?_, by rw [List.length_set]; exact h.few⟩
  intro w mem
  rcases List.mem_or_eq_of_mem_set mem with old | rfl
  · exact h.hookless w old
  · exact h.hookless v (List.mem_of_getElem? here)

theorem answer (h : Ordinary vars) (q : Request) : Ordinary (q.answer vars).2 := by
  cases inTable : variableAt? vars q.index with
  | none => cases kind : q.kind <;> simpa only [Request.answer, kind, inTable]
  | some v =>
    obtain ⟨-, here⟩ := Config.Server.index?_of_some inTable
    cases kind : q.kind with
    | write =>
      simp only [Request.answer, kind, inTable]
      exact h.set here q.value
    | _ => simpa only [Request.answer, kind, inTable]

theorem variablesAfter (h : Ordinary vars) (qs : List (Request × Nat)) :
    Ordinary (Config.variablesAfter vars qs) := by
  induction qs generalizing vars with
  | nil => exact h
  | cons q rest ih => exact ih (h.answer q.1)

end Ordinary

namespace Config

variable (vars : List Variable) (qs : List (Request × Nat)) (q : Request) (k : Nat)

theorem answersTo_append : answersTo vars (qs ++ [(q, k)]) =
    answersTo vars qs ++ [((q.answer (variablesAfter vars qs)).1, k)] := by
  induction qs generalizing vars with
  | nil => rfl
  | cons first rest ih =>
    show _ :: answersTo _ (rest ++ [(q, k)]) = _ :: _
    rw [ih]
    rfl

theorem variablesAfter_append : variablesAfter vars (qs ++ [(q, k)]) =
    (q.answer (variablesAfter vars qs)).2 := by
  induction qs generalizing vars with
  | nil => rfl
  | cons first rest ih => exact ih _

/-- The numbers of the answers are those of the requests. -/
theorem map_snd_answersTo : (answersTo vars qs).map Prod.snd = qs.map Prod.snd := by
  induction qs generalizing vars with
  | nil => rfl
  | cons first rest ih =>
    show first.2 :: (answersTo _ rest).map Prod.snd = first.2 :: rest.map Prod.snd
    rw [ih]

end Config

end InterCore
