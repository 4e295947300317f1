import InterCore.Proofs.Config.Sequential
import InterCore.Variable.Conduct
import InterCore.Variable.Hooks

/-!
# The responses of a server

What a server answers to a message, whatever its words and its data are, and what it does to its
store. The hooks of the store may be any functions that change nothing but the value of the variable
that is read or written.
-/

namespace InterCore

open Config (Message RequestKind ResponseKind)

namespace VarStore

variable {S : Type} [VarStore S]

/-- Two stores differ in the value of variable `i` at most. -/
structure SameBut (i : Nat) (s s' : S) : Prop where
  count : count s' = count s
  value : ∀ j, j ≠ i → value s' j = value s j
  min : VarStore.min s' = VarStore.min s
  max : VarStore.max s' = VarStore.max s
  name : name s' = name s
  description : description s' = description s

/-- A store that samples and writes as its hooks say, and whose hooks change nothing but the value
of their own variable. -/
class Lawful (S : Type) [VarStore S] : Prop where
  sample_eq : ∀ (s : S) (i : Nat), sample s i = (value (onRead s i) i, onRead s i)
  write_eq : ∀ (s : S) (i : Nat) (v : Int32), write s i v =
    (Variable.limit v (VarStore.min s i) (VarStore.max s i),
      onWrite (store s i (Variable.limit v (VarStore.min s i) (VarStore.max s i))) i)
  value_store : ∀ (s : S) (i : Nat) (v : Int32), i < count s → value (store s i v) i = v
  sameBut_store : ∀ (s : S) (i : Nat) (v : Int32), SameBut i s (store s i v)
  sameBut_onRead : ∀ (s : S) (i : Nat), SameBut i s (onRead s i)
  sameBut_onWrite : ∀ (s : S) (i : Nat), SameBut i s (onWrite s i)

theorem SameBut.refl (i : Nat) (s : S) : SameBut i s s :=
  ⟨rfl, fun _ _ => rfl, rfl, rfl, rfl, rfl⟩

theorem SameBut.trans {i : Nat} {s s' s'' : S} (first : SameBut i s s') (second : SameBut i s' s'') :
    SameBut i s s'' where
  count := second.count.trans first.count
  value j apart := (second.value j apart).trans (first.value j apart)
  min := second.min.trans first.min
  max := second.max.trans first.max
  name := second.name.trans first.name
  description := second.description.trans first.description

/-- A store that is lent out is as good as its lender. -/
theorem SameBut.lent {i : Nat} {s s' : S} (same : SameBut i s s') :
    SameBut i (Lent.mk s) (Lent.mk s') :=
  ⟨same.count, same.value, same.min, same.max, same.name, same.description⟩

/-- Lending a store out keeps its laws, and makes those of `sample` and `write` hold by
definition. -/
instance [Lawful S] : Lawful (Lent S) where
  sample_eq _ _ := rfl
  write_eq _ _ _ := rfl
  value_store s := Lawful.value_store s.lender
  sameBut_store s i v := (Lawful.sameBut_store s.lender i v).lent
  sameBut_onRead s i := (Lawful.sameBut_onRead s.lender i).lent
  sameBut_onWrite s i := (Lawful.sameBut_onWrite s.lender i).lent

end VarStore

namespace Config

/-- A message asks for something known, or its kind is none of the eight. -/
theorem Message.requestKind_cases (req : Message) :
    (∃ kind, req.requestKind = .ok kind ∧ req.kind = kind.toWord) ∨
      req.requestKind = .error .protocol ∧ 8 ≤ req.kind := by
  have words : (∃ kind, RequestKind.ofWord? req.kind = some kind ∧ req.kind = kind.toWord) ∨
      RequestKind.ofWord? req.kind = none ∧ 8 ≤ req.kind := by
    unfold RequestKind.ofWord?
    split
    case h_9 =>
      refine .inr ⟨rfl, ?_⟩
      grind
    all_goals exact .inl ⟨_, rfl, by assumption⟩
  rw [requestKind]
  rcases words with ⟨kind, known, word⟩ | ⟨unknown, beyond⟩
  · rw [known]
    exact .inl ⟨kind, rfl, word⟩
  · rw [unknown]
    exact .inr ⟨rfl, beyond⟩

namespace Server

/-- A response with as much of a text as it has room for, and nothing behind it. -/
structure Responds (req rsp : Message) (kind : UInt32) (value : Int32) (text : List UInt8) :
    Prop where
  seq : rsp.seq = req.seq
  index : rsp.index = req.index
  kind : rsp.kind = kind
  value : rsp.value = value
  dataLen : rsp.dataLen.toNat = min 400 text.length
  data : rsp.data.toList = text.take 400 ++ List.replicate (400 - text.length) 0

variable {S : Type} [VarStore S]

/-- A request asks for the variable at an index. -/
def AsksFor (s : S) (req : Message) (i : Nat) : Prop :=
  req.index.toInt = i ∧ i < VarStore.count s

/-- What a request comes to: the kind, the value and the text of the response, and the store after
it. -/
inductive Handles (s : S) (req : Message) : UInt32 → Int32 → List UInt8 → S → Prop where
  | nop : req.kind = 0 → Handles s req 128 0 [] s
  | count {n : Int32} : req.kind = 1 → n.toInt = VarStore.count s → Handles s req 129 n [] s
  /-- The index is told to be bad whatever is asked, even if nobody knows what is asked. -/
  | badIndex : 2 ≤ req.kind → (∀ i, ¬AsksFor s req i) → Handles s req 130 0 [] s
  | badRequest {i : Nat} : 8 ≤ req.kind → AsksFor s req i → Handles s req 255 0 [] s
  /-- The write hook finds the limited value in place. -/
  | write {i : Nat} {limited : Int32} {stored : S} : req.kind = 2 → AsksFor s req i →
      limited = clamp (VarStore.min s i) (VarStore.max s i) req.value →
        stored = VarStore.store s i limited → VarStore.value stored i = limited →
          Handles s req 128 0 [] (VarStore.onWrite stored i)
  /-- The value is the one that the read hook leaves. -/
  | read {i : Nat} : req.kind = 3 → AsksFor s req i →
      Handles s req 131 (VarStore.value (VarStore.onRead s i) i) [] (VarStore.onRead s i)
  | min {i : Nat} : req.kind = 4 → AsksFor s req i → Handles s req 132 (VarStore.min s i) [] s
  | max {i : Nat} : req.kind = 5 → AsksFor s req i → Handles s req 133 (VarStore.max s i) [] s
  | name {i : Nat} : req.kind = 6 → AsksFor s req i →
      Handles s req 134 (VarStore.value s i) (Text.toBytes (VarStore.name s i)) s
  | description {i : Nat} : req.kind = 7 → AsksFor s req i →
      Handles s req 135 (VarStore.value s i) (Text.toBytes (VarStore.description s i)) s

variable {s s' : S} {req rsp : Message} {kind : UInt32} {value : Int32} {text : List UInt8}

/-! ## The response -/

theorem responds_response (req : Message) (kind : ResponseKind) (value : Int32) :
    Responds req (.response req.seq kind req.index value) kind.toWord value [] where
  seq := rfl
  index := rfl
  kind := rfl
  value := rfl
  dataLen := rfl
  data := by
    show (Area.ofBytes dataSize []).toList = _
    rw [Area.toList_ofBytes, fit_eq]
    rfl

theorem Responds.setData (responds : Responds req rsp kind value []) (text : List UInt8) :
    Responds req (rsp.setData text) kind value text where
  seq := responds.seq
  index := responds.index
  kind := responds.kind
  value := responds.value
  dataLen := by
    have small : Nat.min text.length dataSize < UInt32.size :=
      Nat.lt_of_le_of_lt (Nat.min_le_right _ _) (by decide)
    show (UInt32.ofNat _).toNat = _
    rw [UInt32.toNat_ofNat_of_lt' small]
    exact Nat.min_comm _ _
  data := by
    show (Area.ofBytes dataSize text).toList = _
    rw [Area.toList_ofBytes, fit_eq]
    rfl

/-! ## What a request comes to -/

/-- What is answered whatever the index is. -/
theorem handles_plain {kind : RequestKind} (few : VarStore.count s < 0x80000000)
    (plain : kind = .nop ∨ kind = .count) (asked : req.requestKind = .ok kind)
    (word : req.kind = kind.toWord) :
    ∃ kind value text, Responds req (handle s req).1 kind value text ∧
      Handles s req kind value text (handle s req).2 := by
  rcases plain with rfl | rfl
  · simp only [handle, asked]
    exact ⟨_, _, _, responds_response req .ok 0, .nop word⟩
  · simp only [handle, asked]
    exact ⟨_, _, _, responds_response req .count _, .count word (Int32.toInt_ofNat_of_lt few)⟩

theorem handles_badIndex (asked : req.requestKind ≠ .ok .nop ∧ req.requestKind ≠ .ok .count)
    (word : 2 ≤ req.kind) (nowhere : ∀ i, ¬AsksFor s req i) :
    ∃ kind value text, Responds req (handle s req).1 kind value text ∧
      Handles s req kind value text (handle s req).2 := by
  have place : index? (VarStore.count s) req.index = none :=
    Option.eq_none_iff_forall_not_mem.mpr fun i mem => nowhere i (index?_eq_some.mp mem)
  have refused : handle s req = (.response req.seq .badIndex req.index 0, s) := by
    rw [handle]
    cases known : req.requestKind with
    | error e => simp only [place]
    | ok kind =>
      cases kind with
      | nop => exact absurd known asked.1
      | count => exact absurd known asked.2
      | _ => simp only [place]
  rw [refused]
  exact ⟨_, _, _, responds_response req .badIndex 0, .badIndex word nowhere⟩

theorem handles_badRequest {i : Nat} {e : Error} (asked : req.requestKind = .error e)
    (word : 8 ≤ req.kind) (here : AsksFor s req i) :
    ∃ kind value text, Responds req (handle s req).1 kind value text ∧
      Handles s req kind value text (handle s req).2 := by
  simp only [handle, asked, index?_eq_some.mpr here]
  exact ⟨_, _, _, responds_response req .badRequest 0, .badRequest word here⟩

theorem handles_variable [VarStore.Lawful S] {i : Nat} {kind : RequestKind}
    (asked : req.requestKind = .ok kind) (word : req.kind = kind.toWord)
    (special : ¬(kind = .nop ∨ kind = .count)) (here : AsksFor s req i) :
    ∃ kind value text, Responds req (handle s req).1 kind value text ∧
      Handles s req kind value text (handle s req).2 := by
  have place := index?_eq_some.mpr here
  cases kind with
  | nop => exact absurd (.inl rfl) special
  | count => exact absurd (.inr rfl) special
  | write =>
    simp only [handle, asked, place, VarStore.Lawful.write_eq, limit_eq_clamp]
    exact ⟨_, _, _, responds_response req .ok 0,
      .write word here rfl rfl (VarStore.Lawful.value_store s i _ here.2)⟩
  | read =>
    simp only [handle, asked, place, VarStore.Lawful.sample_eq]
    exact ⟨_, _, _, responds_response req .value _, .read word here⟩
  | min =>
    simp only [handle, asked, place]
    exact ⟨_, _, _, responds_response req .min _, .min word here⟩
  | max =>
    simp only [handle, asked, place]
    exact ⟨_, _, _, responds_response req .max _, .max word here⟩
  | name =>
    simp only [handle, asked, place]
    exact ⟨_, _, _, (responds_response req .name _).setData _, .name word here⟩
  | description =>
    simp only [handle, asked, place]
    exact ⟨_, _, _, (responds_response req .description _).setData _, .description word here⟩

theorem handles [VarStore.Lawful S] (few : VarStore.count s < 0x80000000) (req : Message) :
    ∃ kind value text, Responds req (handle s req).1 kind value text ∧
      Handles s req kind value text (handle s req).2 := by
  rcases req.requestKind_cases with ⟨kind, asked, word⟩ | ⟨asked, beyond⟩
  · by_cases plain : kind = .nop ∨ kind = .count
    · exact handles_plain few plain asked word
    · by_cases somewhere : ∃ i, AsksFor s req i
      · obtain ⟨i, here⟩ := somewhere
        exact handles_variable asked word plain here
      · refine handles_badIndex ?_ ?_ (not_exists.mp somewhere)
        · rw [asked]
          simpa only [ne_eq, Except.ok.injEq, not_or] using plain
        · rw [word]
          cases kind <;> simp_all <;> decide
  · by_cases somewhere : ∃ i, AsksFor s req i
    · obtain ⟨i, here⟩ := somewhere
      exact handles_badRequest asked beyond here
    · refine handles_badIndex ?_ ?_ (not_exists.mp somewhere)
      · rw [asked]
        exact ⟨nofun, nofun⟩
      · exact UInt32.le_trans (by decide) beyond

/-- The response to a request and the store after it are as they should be. -/
structure Meets (s : S) (req rsp : Message) (s' : S) : Prop where
  response : ∃ kind value text, Responds req rsp kind value text ∧ Handles s req kind value text s'
  frame : s' = s ∨
    (req.kind = 2 ∨ req.kind = 3) ∧ ∃ i, AsksFor s req i ∧ VarStore.SameBut i s s'

theorem Handles.frame [VarStore.Lawful S] (handles : Handles s req kind value text s') :
    s' = s ∨ (req.kind = 2 ∨ req.kind = 3) ∧ ∃ i, AsksFor s req i ∧ VarStore.SameBut i s s' := by
  cases handles with
  | @write i limited stored word here _ same _ =>
    subst same
    exact .inr ⟨.inl word, i, here,
      (VarStore.Lawful.sameBut_store s i _).trans (VarStore.Lawful.sameBut_onWrite _ i)⟩
  | @read i word here => exact .inr ⟨.inr word, i, here, VarStore.Lawful.sameBut_onRead s i⟩
  | _ => exact .inl rfl

theorem handle_meets [VarStore.Lawful S] (few : VarStore.count s < 0x80000000) (req : Message) :
    Meets s req (handle s req).1 (handle s req).2 := by
  obtain ⟨kind, value, text, responds, handles⟩ := handles few req
  exact ⟨⟨kind, value, text, responds, handles⟩, handles.frame⟩

end Server

end Config

/-! ## The stores -/

namespace Variable

/-- Hooks change nothing but the value of their variable. -/
theorem fireWrite_fst (v : Variable) : v.fireWrite.1 = { v with value := v.fireWrite.1.value } := by
  unfold fireWrite
  split
  · rfl
  · dsimp only
    split <;> rfl

theorem fireWrite_snd (v : Variable) : v.fireWrite.2 = v.onWrite.toList.map (v.call .write) := by
  unfold fireWrite
  split <;> simp_all

theorem fireRead_fst (v : Variable) : v.fireRead.1 = { v with value := v.fireRead.1.value } := by
  unfold fireRead
  split
  · rfl
  · dsimp only
    split
    · rfl
    · rfl
    · rfl
    · exact fireWrite_fst _

/-- The read hook is run once. What it may have run is the write hook. -/
theorem filter_fireRead_snd (v : Variable) :
    v.fireRead.2.filter (·.occasion = .read) = v.onRead.toList.map (v.call .read) := by
  have written (w : Variable) : w.fireWrite.2.filter (·.occasion = .read) = [] := by
    rw [fireWrite_snd]
    cases w.onWrite <;> rfl
  unfold fireRead
  cases v.onRead with
  | none => rfl
  | some hook =>
    dsimp only
    cases hook.react .read hook.context v.value with
    | writeThrough value =>
      show (v.call .read hook :: _).filter _ = _
      rw [List.filter_cons_of_pos (by rfl), written]
      rfl
    | _ => rfl

end Variable

namespace VarTable

open VarStore (SameBut)

variable {t : VarTable} {i : Nat} {f : Variable → Variable × List Variable.Call}

@[simp]
theorem length_update (t : VarTable) (i : Nat) (f : Variable → Variable × List Variable.Call) :
    (t.update i f).vars.length = t.vars.length := by
  unfold update
  split
  · rfl
  · exact List.length_set

theorem getElem?_update_of_ne {j : Nat} (apart : i ≠ j) : (t.update i f).vars[j]? = t.vars[j]? := by
  unfold update
  split
  · rfl
  · exact List.getElem?_set_ne apart

theorem aspect_update_of_ne {α : Type} [Inhabited α] {j : Nat} (g : Variable → α) (apart : j ≠ i) :
    (t.update i f).aspect g j = t.aspect g j := by
  rw [aspect, aspect, getElem?_update_of_ne (Ne.symm apart)]

theorem aspect_update {α : Type} [Inhabited α] (g : Variable → α) (same : ∀ v, g (f v).1 = g v) :
    (t.update i f).aspect g = t.aspect g := by
  funext j
  by_cases apart : j = i
  · subst apart
    cases here : t.vars[j]? with
    | none => rw [update, here]
    | some v =>
      have inside := (List.getElem?_eq_some_iff.mp here).1
      rw [update_eq here, aspect_eq (List.getElem?_set_self inside), aspect_eq here]
      exact same v
  · exact aspect_update_of_ne g apart

theorem sameBut_update (keeps : ∀ v, (f v).1 = { v with value := (f v).1.value }) :
    SameBut i t (t.update i f) where
  count := length_update t i f
  value _ apart := aspect_update_of_ne _ apart
  min := aspect_update _ fun v => by rw [keeps]
  max := aspect_update _ fun v => by rw [keeps]
  name := aspect_update _ fun v => by rw [keeps]
  description := aspect_update _ fun v => by rw [keeps]

/-- A table of variables with any hooks. -/
instance : VarStore.Lawful VarTable where
  sample_eq _ _ := rfl
  write_eq _ _ _ := rfl
  value_store t i v inside := by
    have here : t.vars[i]? = some t.vars[i] := List.getElem?_eq_getElem inside
    show (t.update i _).aspect _ i = v
    rw [update_eq here, aspect_eq (List.getElem?_set_self inside)]
  sameBut_store _ _ _ := sameBut_update fun _ => rfl
  sameBut_onRead _ _ := sameBut_update Variable.fireRead_fst
  sameBut_onWrite _ _ := sameBut_update Variable.fireWrite_fst

/-- Each hook of the variable at an index is run once where it has to run, if there is one, and
changes nothing but the value. -/
structure RunsOnce (t : VarTable) (i : Nat) (v : Variable) : Prop where
  store : ∀ value, VarStore.store t i value = ⟨t.vars.set i { v with value }, t.calls⟩
  onRead : VarStore.onRead t i =
    ⟨t.vars.set i { v with value := v.fireRead.1.value }, t.calls ++ v.fireRead.2⟩
  reads : v.fireRead.2.filter (·.occasion = .read) = v.onRead.toList.map (v.call .read)
  onWrite : VarStore.onWrite t i =
    ⟨t.vars.set i { v with value := v.fireWrite.1.value },
      t.calls ++ v.onWrite.toList.map (v.call .write)⟩

theorem runsOnce {v : Variable} (here : t.vars[i]? = some v) : t.RunsOnce i v where
  store value := by
    refine (update_eq here _).trans ?_
    rw [List.append_nil]
  onRead := by
    refine (update_eq here _).trans ?_
    rw [← Variable.fireRead_fst]
  reads := v.filter_fireRead_snd
  onWrite := by
    refine (update_eq here _).trans ?_
    rw [← Variable.fireWrite_fst, Variable.fireWrite_snd]

end VarTable

namespace TableWith

open VarStore (SameBut)

variable {conduct : List Variable.Call → Variable.Conduct} {i : Nat}

theorem sameBut_mk {t t' : VarTable} (same : SameBut i t t') :
    SameBut i (⟨t⟩ : TableWith conduct) ⟨t'⟩ :=
  ⟨same.count, same.value, same.min, same.max, same.name, same.description⟩

/-- A hook sets nothing but its own variable, whatever it does. -/
theorem sameBut_fire (t : TableWith conduct) (occasion : Variable.Occasion) :
    SameBut i t (t.fire occasion i) :=
  sameBut_mk (VarTable.sameBut_update fun _ => rfl)

/-- A hook of any kind can touch its own variable only. -/
instance : VarStore.Lawful (TableWith conduct) where
  sample_eq _ _ := rfl
  write_eq _ _ _ := rfl
  value_store t := VarStore.Lawful.value_store t.table
  sameBut_store t i value := sameBut_mk (VarStore.Lawful.sameBut_store t.table i value)
  sameBut_onRead t _ := t.sameBut_fire .read
  sameBut_onWrite t _ := t.sameBut_fire .write

end TableWith

namespace PlainStore

open VarStore (SameBut)

variable {s : PlainStore} {i : Nat} {f : Variable → Variable}

theorem aspect_modify {α : Type} [Inhabited α] (g : Variable → α) {j : Nat}
    (same : j ≠ i ∨ ∀ v, g (f v) = g v) :
    PlainStore.aspect ⟨s.vars.modify i f⟩ g j = s.aspect g j := by
  rw [aspect, aspect, List.getElem?_modify]
  cases s.vars[j]? with
  | none => rfl
  | some v =>
    by_cases here : i = j
    · simp_all
    · simp_all

/-- With no hooks, storing a value is all that can change a variable. -/
instance : VarStore.Lawful PlainStore where
  sample_eq _ _ := rfl
  write_eq _ _ _ := rfl
  value_store s i v inside := by
    show PlainStore.aspect ⟨s.vars.modify i _⟩ _ i = v
    rw [aspect, List.getElem?_modify_eq, List.getElem?_eq_getElem inside]
    rfl
  sameBut_store s i v := by
    refine ⟨List.length_modify .., fun j apart => aspect_modify _ (.inl apart), ?_, ?_, ?_, ?_⟩ <;>
      exact funext fun j => aspect_modify _ (.inr fun _ => rfl)
  sameBut_onRead s i := SameBut.refl i s
  sameBut_onWrite s i := SameBut.refl i s

end PlainStore

open Config.Server (handle Meets)

/-- Every request is answered as it should be (`Meets`), and changes at most the value of the
variable that it reads or writes. That holds of every store whose hooks change nothing but the value
of their own variable, and so of every table, whatever its hooks do with their variables. In a table
whose hooks react once, a hook is run just once. -/
theorem requests_handled_as_specified :
    (∀ (S : Type) [VarStore S] [VarStore.Lawful S] (s : S), VarStore.count s < 0x80000000 →
        ∀ req, Meets s req (handle s req).1 (handle s req).2) ∧
      (∀ (conduct : List Variable.Call → Variable.Conduct) (t : TableWith conduct),
        t.table.vars.length < 0x80000000 →
          ∀ req, Meets t req (handle t req).1 (handle t req).2) ∧
      (∀ t : VarTable, t.vars.length < 0x80000000 →
        ∀ req, Meets t req (handle t req).1 (handle t req).2) ∧
      ∀ (t : VarTable) (i : Nat) (v : Variable), t.vars[i]? = some v → t.RunsOnce i v := by
  refine ⟨?_, ?_, ?_, ?_⟩
  · intro S _ _ s few req
    exact Config.Server.handle_meets few req
  · intro conduct t few req
    exact Config.Server.handle_meets few req
  · intro t few req
    exact Config.Server.handle_meets few req
  · intro t i v here
    exact VarTable.runsOnce here

/-- A table whose first variable is written before it is read. -/
def chained : VarTable :=
  ⟨[⟨1, "gain", "Gain", 1, 0, 5, some (.chain 7), some (.add 10)⟩,
    ⟨2, "led", "", 0, 0, 1, none, none⟩], []⟩

theorem requests_handled_as_specified_of_chained :
    ∃ v rsp t, handle chained (.request 3 .read 0 0) = (rsp, t) ∧
      Meets chained (.request 3 .read 0 0) rsp t ∧ chained.RunsOnce 0 v ∧
        rsp = .response 3 .value 0 15 ∧ t.calls = [⟨1, .read, 7, 1⟩, ⟨1, .write, 10, 5⟩] := by
  obtain ⟨-, -, meets, runsOnce⟩ := requests_handled_as_specified
  exact ⟨_, _, _, rfl, meets chained (by decide) _, runsOnce chained 0 _ rfl, rfl, rfl⟩

end InterCore
