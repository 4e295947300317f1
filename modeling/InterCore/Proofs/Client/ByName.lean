import InterCore.Client.Outcome
import InterCore.Proofs.Client.Directory
import InterCore.Proofs.Client.WriteBack
import Mathlib.Data.Nat.Find

/-!
# Access by name

A directory finds the index of a variable among shortened names, and asks the server about that
index. So what is done by name is done by index, on the first variable that is kept under the name
(`Directory.Means`). `Played` says what comes of operations by name one after the other: each is
done on the variable that its name means and leaves the others alone, and a name that means none is
turned down before anything is sent.
-/

namespace InterCore.Client

open Config (Reply Request)
open Config.Server (answerTo_access answerTo_write)

/-! ## What a name means -/

namespace Directory

/-- A name means the variable at an index: the first one that is kept under it. -/
structure Means (d : Directory) (name : String) (i : Nat) : Prop where
  there : d.names[i]? = some name
  first : ∀ j < i, d.names[j]? ≠ some name

variable {d : Directory} {name : String} {i : Nat}

theorem indexOf_of_means (h : d.Means name i) : d.indexOf name = .ok i := by
  obtain ⟨inside, here⟩ := List.getElem?_eq_some_iff.mp h.there
  have found : d.names.findIdx? (· = name) = some i := by
    rw [List.findIdx?_eq_some_iff_getElem]
    refine ⟨inside, decide_eq_true here, ?_⟩
    intro j before
    have other := h.first j before
    rw [List.getElem?_eq_getElem (Nat.lt_trans before inside)] at other
    exact fun same => other (congrArg some (of_decide_eq_true same))
  rw [indexOf, found]

theorem indexOf_of_not_mem (unknown : name ∉ d.names) : d.indexOf name = .error .unknownVariable := by
  have missed : d.names.findIdx? (· = name) = none := by
    rw [List.findIdx?_eq_none_iff]
    intro other mem
    refine decide_eq_false ?_
    rintro rfl
    exact unknown mem
  rw [indexOf, missed]

/-- A name that a directory has means a variable. -/
theorem exists_means (mem : name ∈ d.names) : ∃ i, d.Means name i := by
  have kept : ∃ i, d.names[i]? = some name := List.mem_iff_getElem?.mp mem
  exact ⟨Nat.find kept, Nat.find_spec kept, fun j before => Nat.find_min kept before⟩

theorem Means.unique {j : Nat} (h : d.Means name i) (h' : d.Means name j) : i = j := by
  rcases Nat.lt_trichotomy i j with before | rfl | behind
  · exact absurd h.there (h'.first i before)
  · rfl
  · exact absurd h'.there (h.first j behind)

theorem Means.mem (h : d.Means name i) : name ∈ d.names :=
  List.mem_of_getElem? h.there

/-- Where no two variables are kept under one name, each is meant by its own. -/
theorem means_of_nodup (apart : d.names.Nodup) (there : d.names[i]? = some name) : d.Means name i := by
  refine ⟨there, fun j before same => ?_⟩
  have inside := (List.getElem?_eq_some_iff.mp same).1
  exact Nat.ne_of_lt before ((List.getElem?_inj inside apart).mp (same.trans there.symm))

end Directory

/-! ## The operations -/

/-- What can be done with a variable of a directory. -/
inductive Operation where
  | value
  | readValue
  | setValue (value : Int32)
  | setValueText (text : String)
  | min
  | max
  | description
  deriving DecidableEq, Repr

namespace Operation

/-- The form of the answer of an operation. -/
abbrev shape : Operation → Shape
  | value => .number
  | setValue _ | setValueText _ => .done
  | readValue | min | max | description => .reply

/-- The operation on the variable with a name. -/
def byName [Monad m] (server : Asked m) (d : Directory) (name : String) :
    (op : Operation) → m (Answer op.shape.Result)
  | value => d.value server name
  | readValue => d.read server name .value
  | setValue v => d.setValue server name v
  | setValueText text => d.setValueText server name text
  | min => d.read server name .min
  | max => d.read server name .max
  | description => d.read server name .description

/-- The operation on the variable at an index. -/
def query (i : Nat) : (op : Operation) → Query op.shape
  | value => .value i
  | readValue => .read i .value
  | setValue v => .write i v
  | setValueText text => .writeText i text
  | min => .read i .min
  | max => .read i .max
  | description => .read i .description

/-- What an operation comes to for a variable: its answer, and the variable after it. -/
def on (v : Variable) : (op : Operation) → Answer op.shape.Result × Variable
  | value => (.ok v.value, v)
  | readValue => (.ok (Access.value.reply v), v)
  | setValue new => (.ok (), v.clampedTo new)
  | setValueText text =>
    match Text.parse text with
    | .ok new => (.ok (), v.clampedTo new)
    | .error _ => (.error .notANumber, v)
  | min => (.ok (Access.min.reply v), v)
  | max => (.ok (Access.max.reply v), v)
  | description => (.ok (Access.description.reply v), v)

/-- What is sent for an operation. -/
def requests (i : Nat) : Operation → List Request
  | value | readValue => [⟨.read, Int32.ofNat i, 0⟩]
  | setValue new => [⟨.write, Int32.ofNat i, new⟩]
  | setValueText text =>
    match Text.parse text with
    | .ok new => [⟨.write, Int32.ofNat i, new⟩]
    | .error _ => []
  | min => [⟨.min, Int32.ofNat i, 0⟩]
  | max => [⟨.max, Int32.ofNat i, 0⟩]
  | description => [⟨.description, Int32.ofNat i, 0⟩]

/-- The answer of an operation, whatever form it has. -/
def outcome (op : Operation) (answer : Answer op.shape.Result) : Answer Outcome :=
  answer.map (Outcome.of op.shape)

/-- Operations by name, one after the other. -/
def playByName [Monad m] (server : Asked m) (d : Directory) :
    List (String × Operation) → m (List (Answer Outcome))
  | [] => return []
  | (name, op) :: rest => do
    let answer ← op.byName server d name
    let later ← playByName server d rest
    return op.outcome answer :: later

section ByName

variable {m : Type → Type} [Monad m] (server : Asked m) {d : Directory} {name : String}

theorem byName_eq (d : Directory) (name : String) (op : Operation) :
    op.byName server d name = d.askAbout server name op.query := by
  cases op <;> rfl

/-- What is done by name is done by index. -/
theorem byName_of_means {i : Nat} (means : d.Means name i) (op : Operation) :
    op.byName server d name = server.ask (op.query i) := by
  rw [byName_eq, Directory.askAbout, Directory.indexOf_of_means means]

/-- A name that is in no directory is turned down, and nothing is asked. -/
theorem byName_of_not_mem (unknown : name ∉ d.names) (op : Operation) :
    op.byName server d name = pure (.error .unknownVariable) := by
  rw [byName_eq, Directory.askAbout, Directory.indexOf_of_not_mem unknown]

end ByName

theorem hookless_on {v : Variable} (hookless : v.Hookless) (op : Operation) :
    (op.on v).2.Hookless := by
  cases op with
  | setValueText text =>
    rw [on]
    split
    · exact hookless
    · exact hookless
  | _ => exact hookless

end Operation

/-- Operations by name on a table, with their outcomes, the requests that are sent for them, and the
table after them. -/
inductive Played (d : Directory) : VarTable → List (String × Operation) → List (Answer Outcome) →
    List Request → VarTable → Prop where
  | done (t : VarTable) : Played d t [] [] [] t
  | known {t t' : VarTable} {name : String} {op : Operation} {i : Nat} {v : Variable}
      {rest : List (String × Operation)} {outcomes : List (Answer Outcome)} {requests : List Request}
      (means : d.Means name i) (there : t.vars[i]? = some v)
      (later : Played d ⟨t.vars.set i (op.on v).2, t.calls⟩ rest outcomes requests t') :
      Played d t ((name, op) :: rest) (op.outcome (op.on v).1 :: outcomes)
        (op.requests i ++ requests) t'
  | unknown {t t' : VarTable} {name : String} {op : Operation} {rest : List (String × Operation)}
      {outcomes : List (Answer Outcome)} {requests : List Request} (unknown : name ∉ d.names)
      (later : Played d t rest outcomes requests t') :
      Played d t ((name, op) :: rest) (.error .unknownVariable :: outcomes) requests t'

/-- The operations leave no choice. -/
theorem Played.unique {d : Directory} {t t' t'' : VarTable} {calls : List (String × Operation)}
    {outcomes outcomes' : List (Answer Outcome)} {requests requests' : List Request}
    (h : Played d t calls outcomes requests t') (h' : Played d t calls outcomes' requests' t'') :
    outcomes = outcomes' ∧ requests = requests' ∧ t' = t'' := by
  induction h generalizing outcomes' requests' with
  | done =>
    cases h'
    exact ⟨rfl, rfl, rfl⟩
  | known means there later ih =>
    cases h' with
    | unknown unknown => exact absurd means.mem unknown
    | known means' there' later' =>
      obtain rfl := means.unique means'
      obtain rfl := Option.some.inj (there.symm.trans there')
      obtain ⟨rfl, rfl, rfl⟩ := ih later'
      exact ⟨rfl, rfl, rfl⟩
  | unknown unknown later ih =>
    cases h' with
    | known means => exact absurd means.mem unknown
    | unknown _ later' =>
      obtain ⟨rfl, rfl, rfl⟩ := ih later'
      exact ⟨rfl, rfl, rfl⟩

/-! ## A client that is served -/

variable {n : Nat} {W : Type} {s : Surroundings (Around W) n}
  {At : W → VarTable → List Request → Prop} {p : Pool n} {w : W} {t : VarTable} {past : List Request}

namespace Surroundings.Serves

variable (serves : s.Serves At) (idle : p.Idle) (here : At w t past)

include serves idle here

theorem readAt {i : Nat} {v : Variable} (there : t.vars[i]? = some v) (small : i < 0x80000000)
    (hookless : v.Hookless) (access : Access) :
    ∃ p' w', Blocking.perform s (.read i access) p w = .ok ((.ok (access.reply v), p'), w') ∧
      p'.Idle ∧ At w' t (past ++ [⟨access.requestKind, Int32.ofNat i, 0⟩]) := by
  obtain ⟨p', w', run, idle', -, here'⟩ := serves.perform idle here (q := .read i access)
    (Plan.forVariable_of_lt small access.requestKind 0)
  rw [answerTo_access there small hookless] at run here'
  exact ⟨p', w', run, idle', here'⟩

theorem writeAt {i : Nat} {v : Variable} {q : Query .done} {new : Int32}
    (there : t.vars[i]? = some v) (small : i < 0x80000000) (hookless : v.Hookless)
    (plan : q.plan p.count = .ask .write (Int32.ofNat i) new)
    (quiet : ∀ p' : Pool n, q.conclude p' (.ok .done) = (.ok (), p')) :
    ∃ p' w', Blocking.perform s q p w = .ok ((.ok (), p'), w') ∧ p'.Idle ∧
      At w' ⟨t.vars.set i (v.clampedTo new), t.calls⟩ (past ++ [⟨.write, Int32.ofNat i, new⟩]) := by
  obtain ⟨p', w', run, idle', -, here'⟩ := serves.perform idle here plan
  rw [answerTo_write there small hookless] at run here'
  rw [quiet] at run
  exact ⟨p', w', run, idle', here'⟩

/-- An operation by index comes to what it is for the variable there. -/
theorem operation {i : Nat} {v : Variable} (there : t.vars[i]? = some v) (small : i < 0x80000000)
    (hookless : v.Hookless) (op : Operation) :
    ∃ p' w', Blocking.perform s (op.query i) p w = .ok (((op.on v).1, p'), w') ∧ p'.Idle ∧
      At w' ⟨t.vars.set i (op.on v).2, t.calls⟩ (past ++ op.requests i) := by
  have same : (⟨t.vars.set i v, t.calls⟩ : VarTable) = t := by
    obtain ⟨inside, rfl⟩ := List.getElem?_eq_some_iff.mp there
    rw [List.set_getElem_self]
  cases op with
  | value =>
    obtain ⟨p', w', run, idle', -, here'⟩ := serves.perform idle here (q := .value i)
      (Plan.forVariable_of_lt small .read 0)
    have told := answerTo_access there small hookless .value
    rw [Access.requestKind] at told
    rw [told] at run here'
    refine ⟨p', w', run, idle', ?_⟩
    rw [Operation.on, same]
    exact here'
  | readValue =>
    rw [Operation.on, same]
    exact serves.readAt idle here there small hookless .value
  | min =>
    rw [Operation.on, same]
    exact serves.readAt idle here there small hookless .min
  | max =>
    rw [Operation.on, same]
    exact serves.readAt idle here there small hookless .max
  | description =>
    rw [Operation.on, same]
    exact serves.readAt idle here there small hookless .description
  | setValue new =>
    exact serves.writeAt idle here (q := .write i new) there small hookless
      (Plan.forVariable_of_lt small .write new) fun _ => rfl
  | setValueText text =>
    rcases Text.parse_eq_ok_or_error text with ⟨new, parsed⟩ | unparsable
    · have plan : (Query.writeText i text).plan p.count = .ask .write (Int32.ofNat i) new := by
        rw [Query.plan, parsed]
        exact Plan.forVariable_of_lt small .write new
      rw [Operation.on, Operation.requests, parsed]
      exact serves.writeAt idle here there small hookless plan fun _ => rfl
    · have plan : (Query.writeText i text).plan p.count = .answered (.error .notANumber) := by
        rw [Query.plan, unparsable]
      rw [Operation.on, Operation.requests, unparsable]
      refine ⟨p, w, Blocking.perform_of_answered plan, idle, ?_⟩
      rw [same, List.append_nil]
      exact here

/-- Operations by name come to what they are for the variables that the names mean. -/
theorem plays {d : Directory} (inside : d.names.length ≤ t.vars.length)
    (small : d.names.length < 0x80000000) (hookless : ∀ v ∈ t.vars, v.Hookless)
    (calls : List (String × Operation)) :
    ∃ outcomes requests t' p' w', Played d t calls outcomes requests t' ∧
      Operation.playByName ⟨Blocking.perform s⟩ d calls p w = .ok ((outcomes, p'), w') ∧
      At w' t' (past ++ requests) := by
  induction calls generalizing p w t past with
  | nil =>
    refine ⟨[], [], t, p, w, .done t, rfl, ?_⟩
    rw [List.append_nil]
    exact here
  | cons call rest ih =>
    obtain ⟨name, op⟩ := call
    by_cases mem : name ∈ d.names
    · obtain ⟨i, means⟩ := Directory.exists_means mem
      have listed := (List.getElem?_eq_some_iff.mp means.there).1
      have there : t.vars[i]? = some t.vars[i] := List.getElem?_eq_getElem (by omega)
      have bare := hookless t.vars[i] (List.getElem_mem _)
      obtain ⟨p₁, w₁, asked, idle₁, here₁⟩ :=
        serves.operation idle here there (by omega) bare op
      have hookless₁ : ∀ v ∈ t.vars.set i (op.on t.vars[i]).2, v.Hookless := by
        intro v mem
        rcases List.mem_or_eq_of_mem_set mem with old | rfl
        · exact hookless v old
        · exact Operation.hookless_on bare op
      obtain ⟨outcomes, requests, t', p', w', played, run, after⟩ :=
        ih idle₁ here₁ (by rwa [List.length_set]) hookless₁
      refine ⟨_, _, t', p', w', .known means there played, ?_, ?_⟩
      · have first : op.byName ⟨Blocking.perform s⟩ d name p w = .ok (((op.on t.vars[i]).1, p₁), w₁) := by
          rw [Operation.byName_of_means _ means]
          exact asked
        refine (onPool_bind_of_ok first).trans ?_
        refine (onPool_bind_of_ok run).trans ?_
        rfl
      · rw [← List.append_assoc]
        exact after
    · obtain ⟨outcomes, requests, t', p', w', played, run, after⟩ := ih idle here inside hookless
      refine ⟨_, _, t', p', w', .unknown mem played, ?_, after⟩
      have first : op.byName ⟨Blocking.perform s⟩ d name p w =
          .ok ((.error .unknownVariable, p), w) := by
        rw [Operation.byName_of_not_mem _ mem]
        rfl
      refine (onPool_bind_of_ok first).trans ?_
      refine (onPool_bind_of_ok run).trans ?_
      rfl

end Surroundings.Serves

/-- Of a name that a message has room for the directory keeps what it has room for. -/
theorem keptName_of_le {name : String} (short : (Text.toBytes name).length ≤ 400) :
    keptName name = Text.cut maxNameLen name := by
  have whole : (Text.toBytes name).take Config.maxReplyText = Text.toBytes name :=
    List.take_of_length_le short
  rw [keptName, whole, Text.ofBytes_toBytes]

theorem directoryOf_eq {capacity k : Nat} (told : countTold? t.vars.length = some k)
    (positive : 0 < k) (room : k ≤ capacity)
    (short : ∀ v ∈ t.vars, (Text.toBytes v.name).length ≤ 400) :
    directoryOf capacity t =
      .ok ⟨(t.vars.take k).map fun v => Text.cut maxNameLen v.name⟩ := by
  have count : VarStore.count t = t.vars.length := rfl
  obtain ⟨inside, -⟩ := of_countTold? told
  rw [directoryOf, count, told, listed_of_le positive room]
  refine congrArg (fun names => Except.ok (Directory.mk names)) ?_
  apply List.ext_getElem
  · rw [List.length_map, List.length_range, List.length_map, List.length_take, Nat.min_eq_left inside]
  · intro i below _
    rw [List.length_map, List.length_range] at below
    have there : t.vars[i]? = some t.vars[i] := List.getElem?_eq_getElem (by omega)
    rw [List.getElem_map, List.getElem_range, List.getElem_map, List.getElem_take,
      (VarTable.fields_eq there).2.2.2.1]
    exact keptName_of_le (short _ (List.getElem_mem _))

/-- A client with a directory of a table without hooks, whose names have room in a message. What is
done by name is exactly what is done by index, on the first variable that is kept under the name;
that is each of them by its own name if no two are kept under one. So operations by name come to
what they are for these variables: a value that is set is brought into the range of its variable,
and no other variable changes. A name that is not kept, and a text that is no number, are turned
down with nothing sent and nothing changed. The directory has all variables if there are no more
than 2147483647. -/
theorem names_stand_for_indices (serves : s.Serves At) (idle : p.Idle) (here : At w t past)
    (known : ∀ k, p.count = some k → countTold? t.vars.length = some k)
    (hookless : ∀ v ∈ t.vars, v.Hookless)
    (short : ∀ v ∈ t.vars, (Text.toBytes v.name).length ≤ 400) {capacity k : Nat}
    (told : countTold? t.vars.length = some k) (positive : 0 < k) (room : k ≤ capacity) :
    ∃ d p₀ w₀, Directory.discover ⟨Blocking.perform s⟩ capacity p w = .ok ((.ok d, p₀), w₀) ∧
      (t.vars.length < 2147483648 → k = t.vars.length) ∧
      d.names = (t.vars.take k).map (fun v => Text.cut 64 v.name) ∧
      (d.names.Nodup → ∀ i name, d.names[i]? = some name → d.Means name i) ∧
      (∀ name i, d.Means name i → ∀ op : Operation,
        op.byName ⟨Blocking.perform s⟩ d name = Blocking.perform s (op.query i)) ∧
      ∀ calls, ∃ outcomes requests t' p' w', Played d t calls outcomes requests t' ∧
        Operation.playByName ⟨Blocking.perform s⟩ d calls p₀ w₀ = .ok ((outcomes, p'), w') ∧
        At w' t' (past ++ p.countRequests ++ (List.range k).map nameRequest ++ requests) := by
  obtain ⟨p₀, w₀, found, idle₀, -, here₀⟩ := serves.discover idle here known capacity
  have count : VarStore.count t = t.vars.length := rfl
  rw [directoryOf_eq told positive room short] at found
  rw [namesAsked, count, told, listed_of_le positive room] at here₀
  obtain ⟨inside, small⟩ := of_countTold? told
  have size : ((t.vars.take k).map fun v => Text.cut maxNameLen v.name).length = k := by
    rw [List.length_map, List.length_take, Nat.min_eq_left inside]
  refine ⟨_, p₀, w₀, found, ?_, rfl, fun apart _ _ => Directory.means_of_nodup apart,
    fun _ _ => Operation.byName_of_means _,
    fun calls => serves.plays idle₀ here₀ (by rwa [size]) (by rwa [size]) hookless calls⟩
  intro few
  exact Option.some.inj (told.symm.trans (countTold?_of_lt few))

/-- A table in which two variables have one name. -/
def twoLeds : VarTable where
  vars := [
    { id := 0, name := "led", description := "Status LED", value := 0, min := 0, max := 1 },
    { id := 1, name := "pwm", description := "", value := 20000, min := 1000, max := 100000 },
    { id := 2, name := "led", description := "", value := 5, min := 0, max := 9 }]

/-- Calls by name, of which the second and the third never reach the server. -/
def ledCalls : List (String × Operation) :=
  [("led", .setValueText "7\n"), ("missing", .setValue 1), ("led", .setValueText "on"),
    ("led", .value)]

/-- The first of the two is set, as far as its range allows. A name that is not there and a text
that is no number are turned down without a request. -/
theorem names_stand_for_indices_of_two_leds :
    ∃ d p₀ d₀ p' d', Directory.discover ⟨Blocking.perform Desk.surroundings⟩ maxVars
        ({} : Pool defaultPoolSize) ⟨twoLeds, [], []⟩ = .ok ((.ok d, p₀), d₀) ∧
      Operation.playByName ⟨Blocking.perform Desk.surroundings⟩ d ledCalls p₀ d₀ =
        .ok (([.ok .done, .error .unknownVariable, .error .notANumber, .ok (.number 1)], p'), d') ∧
      d'.store.values = [1, 20000, 5] ∧
      d'.requests = countRequest :: [nameRequest 0, nameRequest 1, nameRequest 2] ++
        [⟨.write, 0, 7⟩, ⟨.read, 0, 0⟩] := by
  have here : Desk.IsAt ⟨twoLeds, [], []⟩ twoLeds [] := rfl
  have hookless : ∀ v ∈ twoLeds.vars, v.Hookless := by
    intro v mem
    simp only [twoLeds, List.mem_cons, List.not_mem_nil, or_false] at mem
    rcases mem with rfl | rfl | rfl <;> exact ⟨rfl, rfl⟩
  have short : ∀ v ∈ twoLeds.vars, (Text.toBytes v.name).length ≤ 400 := by
    intro v mem
    simp only [twoLeds, List.mem_cons, List.not_mem_nil, or_false] at mem
    rcases mem with rfl | rfl | rfl <;> decide
  obtain ⟨d, p₀, d₀, found, -, names, -, -, plays⟩ :=
    names_stand_for_indices (n := defaultPoolSize) Desk.serves (Pool.Idle.init (by decide)) here
      (by rintro k ⟨⟩) hookless short (countTold?_of_lt (by decide)) (by decide)
      (show 3 ≤ maxVars by decide)
  obtain ⟨outcomes, requests, t', p', d', played, run, after⟩ := plays ledCalls
  obtain ⟨names'⟩ := d
  have names : names' = ["led", "pwm", "led"] := names.trans rfl
  subst names
  have led : Directory.Means ⟨["led", "pwm", "led"]⟩ "led" 0 :=
    ⟨rfl, fun j before => absurd before (Nat.not_lt_zero j)⟩
  have all : Played ⟨["led", "pwm", "led"]⟩ twoLeds ledCalls _ _ _ :=
    .known led rfl (.unknown (by decide) (.known led rfl (.known led rfl (.done _))))
  obtain ⟨rfl, rfl, rfl⟩ := played.unique all
  cases after
  exact ⟨_, p₀, d₀, p', _, found, run, rfl, rfl⟩

end InterCore.Client
