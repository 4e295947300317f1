import InterCore.Client.Directory
import InterCore.Proofs.Client.Served
import InterCore.Proofs.Text.Utf8

/-!
# The names in a directory

A directory asks for the number of variables and then for one name after another. Its names were cut
twice: the first 400 bytes came in a message, and of these it keeps no more than 64. Both cuts are
the one that a reader expects unless the first of them goes through a character; then the bytes are
no text, and nothing is left of the name.
-/

namespace InterCore

open Config (Message Reply Request maxReplyText)
open Text (LongestWithin Torn)

variable {S : Type} [VarStore S]

/-! ## Two of the answers -/

namespace Config.Server

variable (store : S)

theorem answerTo_count : answerTo store ⟨.count, -1, 0⟩ =
    (.ok (.number .count (Int32.ofNat (VarStore.count store))), store) := rfl

theorem answerTo_name {i : Nat} (inside : i < VarStore.count store) (small : i < 0x80000000) :
    answerTo store ⟨.name, Int32.ofNat i, 0⟩ =
      (.ok (.worded .name (VarStore.value store i) (VarStore.name store i)), store) := by
  have spot : (Request.toMessage ⟨.name, Int32.ofNat i, 0⟩ 0).index = Int32.ofNat i := rfl
  simp only [answerTo, handle, requestKind_toMessage, spot, index?_ofNat inside small,
    Reply.ofMessage_name]

end Config.Server

namespace Client

open Config.Server

/-! ## The number of variables -/

/-- The number of variables that a client is told. It comes as 32 bits, so it is another one, or
none, if there are 2147483648 variables or more. -/
def countTold? (n : Nat) : Option Nat :=
  if 0 ≤ (Int32.ofNat n).toInt then some (Int32.ofNat n).toInt.toNat else none

theorem countTold?_of_lt {n : Nat} (few : n < 0x80000000) : countTold? n = some n := by
  rw [countTold?, Int32.toInt_ofNat_of_lt few, if_pos (Int.natCast_nonneg n), Int.toNat_natCast]

theorem of_countTold? {n k : Nat} (told : countTold? n = some k) : k ≤ n ∧ k < 0x80000000 := by
  rw [countTold?] at told
  split at told
  case isTrue nonneg =>
    obtain rfl := Option.some.inj told
    have small := (Int32.ofNat n).toInt_lt
    have size : (Int32.size : Int) = 0x100000000 := rfl
    refine ⟨?_, by omega⟩
    rw [Int32.toInt_ofNat', Int.bmod_def, size] at nonneg ⊢
    omega
  case isFalse => cases told

/-! ## The name of a variable -/

/-- What is kept of a name: the part of it that a message has room for, and the part of that for
which a directory has room. -/
def keptName (name : String) : String :=
  Text.cut maxNameLen (Text.ofBytes ((Text.toBytes name).take maxReplyText))

theorem longestWithin_keptName {name : String} (clean : ¬Torn 400 name) :
    LongestWithin 64 name (keptName name) :=
  Text.longestWithin_cut_again (by decide) clean

theorem keptName_of_torn {name : String} (torn : Torn 400 name) : keptName name = "" := by
  have nothing : Text.ofBytes ((Text.toBytes name).take maxReplyText) = "" := torn.ofBytes_take
  rw [keptName, nothing]
  rfl

/-! ## The requests of a directory -/

/-- The request for the number of variables. -/
def countRequest : Request := ⟨.count, -1, 0⟩

/-- The request for the name of a variable. -/
def nameRequest (i : Nat) : Request := ⟨.name, Int32.ofNat i, 0⟩

/-- What is asked to know the number of variables. -/
def Pool.countRequests (p : Pool n) : List Request :=
  match p.count with
  | none => [countRequest]
  | some _ => []

/-- What a client gets for the number of variables that it is told. -/
def countAnswer : Option Nat → Answer Nat
  | none => .error .protocol
  | some n => .ok n

/-- The number of variables whose names are asked for. -/
def listed (capacity : Nat) (told : Option Nat) : Answer Nat :=
  match countAnswer told with
  | .error e => .error e
  | .ok n =>
    if n = 0 then .error .noData else if capacity < n then .error .resourceExhausted else .ok n

theorem listed_of_lt {capacity k : Nat} (many : capacity < k) :
    listed capacity (some k) = .error .resourceExhausted := by
  show (if k = 0 then _ else if capacity < k then _ else _) = _
  rw [if_neg (Nat.ne_of_gt (Nat.zero_lt_of_lt many)), if_pos many]

theorem listed_of_le {capacity k : Nat} (positive : 0 < k) (room : k ≤ capacity) :
    listed capacity (some k) = .ok k := by
  show (if k = 0 then _ else if capacity < k then _ else _) = _
  rw [if_neg (Nat.ne_of_gt positive), if_neg (Nat.not_lt.mpr room)]

theorem of_listed {capacity k : Nat} {told : Option Nat} (all : listed capacity told = .ok k) :
    told = some k ∧ 0 < k ∧ k ≤ capacity := by
  cases told with
  | none => cases all
  | some n =>
    change (if n = 0 then _ else if capacity < n then _ else _) = _ at all
    split at all
    case isTrue => cases all
    case isFalse nonzero =>
      split at all
      case isTrue => cases all
      case isFalse room =>
        cases all
        exact ⟨rfl, Nat.pos_of_ne_zero nonzero, Nat.not_lt.mp room⟩

/-- The names that are asked for. -/
def namesAsked (capacity : Nat) (told : Option Nat) : List Nat :=
  match listed capacity told with
  | .error _ => []
  | .ok n => List.range n

/-- The directory of a store. -/
def directoryOf (capacity : Nat) (store : S) : Answer Directory :=
  (listed capacity (countTold? (VarStore.count store))).map fun n =>
    ⟨(List.range n).map fun i => keptName (VarStore.name store i)⟩

theorem conclude_count_of_none {p : Pool n} {count : Nat} (none : countTold? count = none) :
    Query.count.conclude p (.ok (.number .count (Int32.ofNat count))) = (.error .protocol, p) := by
  rw [countTold?, ite_eq_right_iff] at none
  exact if_neg fun nonneg => nomatch none nonneg

theorem conclude_count_of_some {p : Pool n} {count k : Nat} (told : countTold? count = some k) :
    Query.count.conclude p (.ok (.number .count (Int32.ofNat count))) =
      (.ok k, p.cacheCount k) := by
  rw [countTold?] at told
  split at told
  case isTrue nonneg =>
    obtain rfl := Option.some.inj told
    exact if_pos nonneg
  case isFalse => cases told

variable {n : Nat} {W : Type} {s : Surroundings (Around W) n} {At : W → S → List Request → Prop}
  {p : Pool n} {w : W} {store : S} {past : List Request}

theorem discover_of_refused {capacity : Nat} {told : Option Nat} {e : Error} {p₁ : Pool n}
    {w₁ : W} (counted : Blocking.perform s .count p w = .ok ((countAnswer told, p₁), w₁))
    (refused : listed capacity told = .error e) :
    Directory.discover ⟨Blocking.perform s⟩ capacity p w = .ok ((.error e, p₁), w₁) := by
  refine (onPool_bind_of_ok counted).trans ?_
  cases told with
  | none =>
    cases refused
    rfl
  | some k =>
    rcases Nat.eq_zero_or_pos k with rfl | positive
    · cases refused
      rfl
    · rcases Nat.lt_or_ge capacity k with many | room
      · rw [listed_of_lt many] at refused
        cases refused
        show (if k = 0 then _ else if capacity < k then _ else _ :
          OnPool (Around W) n (Answer Directory)) p₁ w₁ = _
        rw [if_neg (Nat.ne_of_gt positive), if_pos many]
        rfl
      · rw [listed_of_le positive room] at refused
        cases refused

theorem discover_of_listed {capacity k : Nat} {told : Option Nat} {names : List String}
    {p₁ p₂ : Pool n} {w₁ w₂ : W}
    (counted : Blocking.perform s .count p w = .ok ((countAnswer told, p₁), w₁))
    (all : listed capacity told = .ok k)
    (read : Directory.readNames ⟨Blocking.perform s⟩ k 0 p₁ w₁ = .ok ((.ok names, p₂), w₂)) :
    Directory.discover ⟨Blocking.perform s⟩ capacity p w = .ok ((.ok ⟨names⟩, p₂), w₂) := by
  obtain ⟨rfl, positive, room⟩ := of_listed all
  refine (onPool_bind_of_ok counted).trans ?_
  show (if k = 0 then _ else if capacity < k then _ else _ :
    OnPool (Around W) n (Answer Directory)) p₁ w₁ = _
  rw [if_neg (Nat.ne_of_gt positive), if_neg (Nat.not_lt.mpr room)]
  exact (onPool_bind_of_ok read).trans rfl

namespace Surroundings.Serves

variable (serves : s.Serves At) (idle : p.Idle) (here : At w store past)

include serves idle here

theorem readNames (count index : Nat) (inside : index + count ≤ VarStore.count store)
    (small : index + count ≤ 0x80000000) :
    ∃ p' w', Directory.readNames ⟨Blocking.perform s⟩ count index p w =
        .ok ((.ok ((List.range' index count).map fun i => keptName (VarStore.name store i)), p'),
          w') ∧
      p'.Idle ∧ p'.count = p.count ∧
      At w' store (past ++ (List.range' index count).map nameRequest) := by
  induction count generalizing index p w past with
  | zero => exact ⟨p, w, rfl, idle, rfl, by rwa [List.range'_zero, List.map_nil, List.append_nil]⟩
  | succ count ih =>
    obtain ⟨p₁, w₁, asked, idle₁, count₁, here₁⟩ :=
      serves.perform idle here (q := .read index .name)
        (Plan.forVariable_of_lt (by omega) .name 0)
    rw [answerTo_name store (by omega) (by omega)] at asked here₁
    obtain ⟨p₂, w₂, rest, idle₂, count₂, here₂⟩ :=
      ih idle₁ here₁ (index + 1) (by omega) (by omega)
    refine ⟨p₂, w₂, ?_, idle₂, count₂.trans count₁, ?_⟩
    · refine (onPool_bind_of_ok asked).trans ?_
      refine (onPool_bind_of_ok rest).trans ?_
      rfl
    · rw [List.range'_succ, List.map_cons, List.append_cons]
      exact here₂

theorem count (known : ∀ k, p.count = some k → countTold? (VarStore.count store) = some k) :
    ∃ p' w', Blocking.perform s .count p w =
        .ok ((countAnswer (countTold? (VarStore.count store)), p'), w') ∧
      p'.Idle ∧ p'.count = countTold? (VarStore.count store) ∧
      At w' store (past ++ p.countRequests) := by
  cases cached : p.count with
  | some k =>
    have told := known k cached
    have plan : Query.count.plan p.count = .answered (.ok k) := by rw [cached, Query.plan]
    refine ⟨p, w, ?_, idle, cached.trans told.symm, ?_⟩
    · rw [told]
      exact Blocking.perform_of_answered plan
    · rwa [Pool.countRequests, cached, List.append_nil]
  | none =>
    have plan : Query.count.plan p.count = .ask .count (-1) 0 := by rw [cached, Query.plan]
    obtain ⟨p', w', asked, idle', count', here'⟩ := serves.perform idle here plan
    rw [answerTo_count] at asked here'
    rw [Pool.countRequests, cached]
    cases told : countTold? (VarStore.count store) with
    | none =>
      rw [conclude_count_of_none told] at asked
      exact ⟨p', w', asked, idle', count'.trans cached, here'⟩
    | some k =>
      rw [conclude_count_of_some told] at asked
      exact ⟨_, w', asked, idle'.cacheCount k, rfl, here'⟩

theorem discover (known : ∀ k, p.count = some k → countTold? (VarStore.count store) = some k)
    (capacity : Nat) :
    ∃ p' w', Directory.discover ⟨Blocking.perform s⟩ capacity p w =
        .ok ((directoryOf capacity store, p'), w') ∧
      p'.Idle ∧ p'.count = countTold? (VarStore.count store) ∧
      At w' store (past ++ p.countRequests ++
        (namesAsked capacity (countTold? (VarStore.count store))).map nameRequest) := by
  obtain ⟨p₁, w₁, counted, idle₁, count₁, here₁⟩ := serves.count idle here known
  rw [directoryOf, namesAsked]
  cases all : listed capacity (countTold? (VarStore.count store)) with
  | error e =>
    refine ⟨p₁, w₁, discover_of_refused counted all, idle₁, count₁, ?_⟩
    dsimp only
    rwa [List.map_nil, List.append_nil]
  | ok k =>
    obtain ⟨inside, small⟩ := of_countTold? (of_listed all).1
    obtain ⟨p₂, w₂, read, idle₂, count₂, here₂⟩ :=
      serves.readNames idle₁ here₁ k 0 (by omega) (by omega)
    rw [← List.range_eq_range'] at read here₂
    exact ⟨p₂, w₂, discover_of_listed counted all read, idle₂, count₂.trans count₁, here₂⟩

end Surroundings.Serves

/-- A client that is served gets a directory of all variables, in which each has the longest
beginning of its name that has at most 64 bytes. But if a character of the name lies across byte
400, its name there is empty. A server with no variables, or with more than there is room for, is
asked for no name. The number of variables is the one that the client is told, which is the right
one up to 2147483647. -/
theorem directory_keeps_names (serves : s.Serves At) (idle : p.Idle) (here : At w store past)
    (known : ∀ k, p.count = some k → countTold? (VarStore.count store) = some k)
    (capacity : Nat) :
    ∃ answer asked p' w', Directory.discover ⟨Blocking.perform s⟩ capacity p w =
        .ok ((answer, p'), w') ∧
      At w' store (past ++ p.countRequests ++ asked.map nameRequest) ∧ p'.Idle ∧
      p'.count = countTold? (VarStore.count store) ∧
      (VarStore.count store < 2147483648 →
        countTold? (VarStore.count store) = some (VarStore.count store)) ∧
      (countTold? (VarStore.count store) = none → answer = .error .protocol ∧ asked = []) ∧
      (countTold? (VarStore.count store) = some 0 → answer = .error .noData ∧ asked = []) ∧
      (∀ k, countTold? (VarStore.count store) = some k → capacity < k →
        answer = .error .resourceExhausted ∧ asked = []) ∧
      ∀ k, countTold? (VarStore.count store) = some k → 0 < k → k ≤ capacity →
        ∃ names, answer = .ok ⟨names⟩ ∧ asked = List.range k ∧ names.length = k ∧
          ∀ i < k, ∃ name, names[i]? = some name ∧
            (¬Torn 400 (VarStore.name store i) → LongestWithin 64 (VarStore.name store i) name) ∧
            (Torn 400 (VarStore.name store i) → name = "") := by
  obtain ⟨p', w', found, idle', count, here'⟩ := serves.discover idle here known capacity
  refine ⟨_, _, p', w', found, here', idle', count, countTold?_of_lt, ?_, ?_, ?_, ?_⟩
  · intro told
    rw [directoryOf, namesAsked, told]
    exact ⟨rfl, rfl⟩
  · intro told
    rw [directoryOf, namesAsked, told]
    exact ⟨rfl, rfl⟩
  · intro k told many
    rw [directoryOf, namesAsked, told, listed_of_lt many]
    exact ⟨rfl, rfl⟩
  · intro k told positive room
    rw [directoryOf, namesAsked, told, listed_of_le positive room]
    refine ⟨_, rfl, rfl, by rw [List.length_map, List.length_range], ?_⟩
    intro i inside
    refine ⟨keptName (VarStore.name store i), ?_, longestWithin_keptName, keptName_of_torn⟩
    rw [List.getElem?_map, List.getElem?_range inside]
    rfl

/-- A table with one variable. -/
def oneNamed (name : String) : VarTable :=
  ⟨[{ id := 0, name, description := "", value := 0, min := 0, max := 1 }], []⟩

theorem directory_keeps_names_of_led :
    ∃ names p' d', Directory.discover ⟨Blocking.perform Desk.surroundings⟩ maxVars
        ({} : Pool defaultPoolSize) ⟨oneNamed "led", [], []⟩ = .ok ((.ok ⟨names⟩, p'), d') ∧
      d'.requests = [countRequest, nameRequest 0] ∧
      ∃ name, names[0]? = some name ∧ LongestWithin 64 "led" name := by
  have here : Desk.IsAt ⟨oneNamed "led", [], []⟩ (oneNamed "led") [] := rfl
  obtain ⟨answer, asked, p', d', found, rfl, -, -, few, -, -, -, all⟩ :=
    directory_keeps_names (n := defaultPoolSize) Desk.serves (Pool.Idle.init (by decide)) here
      (by rintro k ⟨⟩) maxVars
  obtain ⟨names, rfl, rfl, -, kept⟩ := all 1 (few (by decide)) (by decide) (by decide)
  obtain ⟨name, there, clean, -⟩ := kept 0 (by decide)
  exact ⟨names, p', _, found, rfl, name, there, clean (Text.not_torn_of_le (by decide))⟩

theorem directoryOf_oneNamed (name : String) :
    directoryOf maxVars (oneNamed name) = .ok ⟨[keptName name]⟩ := rfl

/-- A name whose last character has two bytes, after some that have one. -/
def plainThenWide (k : Nat) : String :=
  String.ofList (List.replicate (k + 1) 'a' ++ ['é'])

theorem toList_plainThenWide (k : Nat) :
    (plainThenWide k).toList = 'a' :: (List.replicate k 'a' ++ ['é']) := by
  rw [plainThenWide, String.toList_ofList, List.replicate_succ, List.cons_append]

theorem torn_plainThenWide (k : Nat) : Torn (k + 2) (plainThenWide k) := by
  have size : (Text.utf8 (List.replicate (k + 1) 'a')).length = k + 1 :=
    (Text.length_utf8_replicate _ _).trans (Nat.mul_one _)
  refine ⟨List.replicate (k + 1) 'a', 'é', [], String.toList_ofList, ?_, ?_⟩
  · rw [size]
    exact Nat.lt_succ_self _
  · rw [size]
    exact Nat.lt_succ_self _

theorem not_longestWithin_empty (k : Nat) : ¬LongestWithin 64 (plainThenWide k) "" := by
  intro empty
  have beginning : ['a'] <+: (plainThenWide k).toList := ⟨_, (toList_plainThenWide k).symm⟩
  have more := empty.longest ['a'] beginning (by decide)
  cases List.prefix_nil.mp more

/-- A directory does not keep the longest beginning of every name. -/
theorem directory_loses_torn_name :
    ∃ p' d', Directory.discover ⟨Blocking.perform Desk.surroundings⟩ maxVars
        ({} : Pool defaultPoolSize) ⟨oneNamed (plainThenWide 398), [], []⟩ =
          .ok ((.ok ⟨[""]⟩, p'), d') ∧
      ¬LongestWithin 64 (plainThenWide 398) "" := by
  have here : Desk.IsAt ⟨oneNamed (plainThenWide 398), [], []⟩ (oneNamed (plainThenWide 398)) [] :=
    rfl
  obtain ⟨p', d', found, -⟩ := (Desk.serves (n := defaultPoolSize)).discover
    (Pool.Idle.init (by decide)) here (by rintro k ⟨⟩) maxVars
  rw [directoryOf_oneNamed, keptName_of_torn (torn_plainThenWide 398)] at found
  exact ⟨p', d', found, not_longestWithin_empty 398⟩

end Client

end InterCore
