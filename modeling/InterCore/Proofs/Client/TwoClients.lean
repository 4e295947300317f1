import InterCore.Client.Async
import InterCore.Client.Outcome
import InterCore.Proofs.Client.Blocking
import Mathlib.Data.List.Forall2

/-!
# The two clients agree

One script is played to a blocking client and to an asynchronous one. It says for each query what
comes of the sending, which messages come in meanwhile, and which come in during each turn of the
wait. The blocking caller looks at the beginning and after each turn whether its response is there;
the future of the other is polled as often. A wait that is not over after the last turn is given up:
the caller leaves, or the future is dropped.

Both clients send the same, make the same of every message and answer every query that is not given
up in the same way, and after each step of the script their pools are the same.
-/

namespace InterCore.Client

open InterCore.Config (Message Reply)

variable {n : Nat} {shape : Shape}

/-! ## Scripts -/

/-- What comes of a request. -/
structure Course where
  /-- The messages that come in at each point where the sending is suspended. A blocking client
  sends without a break. -/
  suspensions : List (List (List UInt8))
  /-- The messages that come in during the rest of the sending. -/
  sending : List (List UInt8)
  sent : Answer Unit
  /-- The messages that come in during each turn of the wait. -/
  turns : List (List (List UInt8))

/-- One step of a script: a query, or a message that comes in between two of them. -/
inductive Scene where
  | ask (q : AnyQuery) (course : Course)
  | hear (bytes : List UInt8)

/-- What a client has done so far. -/
structure Diary where
  sent : List (List UInt8) := []
  /-- What it said to each message that came in. -/
  heard : List (Answer Unit) := []
  /-- Number of waits that were given up. -/
  givenUp : Nat := 0

/-- Work of a client to which a script is played. -/
abbrev OnStage (n : Nat) := OnPool (StateM Diary) n

theorem OnStage.bind_apply {α β : Type} (x : OnStage n α) (f : α → OnStage n β) (p : Pool n) :
    (x >>= f) p = x p >>= fun r => f r.1 r.2 := rfl

theorem OnStage.get_bind_apply {α : Type} (f : Pool n → OnStage n α) (p : Pool n) :
    (get >>= f) p = f p p := rfl

theorem OnStage.modifyGet_bind_apply {α β : Type} (g : Pool n → α × Pool n) (f : α → OnStage n β)
    (p : Pool n) : (modifyGet g >>= f) p = f (g p).1 (g p).2 := rfl

theorem OnStage.map_apply {α β : Type} (f : α → β) (x : OnStage n α) (p : Pool n) :
    (f <$> x) p = (fun r => (f r.1, r.2)) <$> x p := rfl

namespace Diary

/-- Writes down a message that was sent. -/
def post (bytes : List UInt8) : StateM Diary Unit :=
  modify fun d => { d with sent := d.sent ++ [bytes] }

/-- Writes down what was said to a message that came in. -/
def note (answer : Answer Unit) : StateM Diary Unit :=
  modify fun d => { d with heard := d.heard ++ [answer] }

/-- Writes down that a wait was given up. -/
def giveUp : StateM Diary Unit :=
  modify fun d => { d with givenUp := d.givenUp + 1 }

end Diary

/-- Messages come in one after another. -/
def hearAll (onMessage : List UInt8 → OnStage n (Answer Unit)) :
    List (List UInt8) → OnStage n Unit
  | [] => return
  | bytes :: rest => do
    let answer ← onMessage bytes
    Diary.note answer
    hearAll onMessage rest

/-! ## The blocking client -/

namespace Blocking

/-- Messages come in for the blocking client. Nobody is asleep, so nobody is woken. -/
def hear : List (List UInt8) → OnStage n Unit :=
  hearAll (onMessage (pure ()))

/-- Waits for the response of a ticket. It is a success as soon as the response is there, and given
up only if it is not. -/
def await (ticket : Ticket n) : List (List (List UInt8)) → OnStage n (Answer Unit)
  | [] => do
    if ticket.isDone (← get) then
      return .ok ()
    else
      Diary.giveUp
      return .error .interrupted
  | turn :: rest => do
    if ticket.isDone (← get) then
      return .ok ()
    else
      hear turn
      await ticket rest

/-- The surroundings in which a call takes a given course. What would suspend the other client comes
in while this one sends. -/
def surroundings (c : Course) : Surroundings (StateM Diary) n where
  send bytes := do
    Diary.post bytes
    hear (c.suspensions.flatten ++ c.sending)
    return c.sent
  waitFor ticket := await ticket c.turns

/-- Answers a query in a given course. -/
def ask (q : Query shape) (c : Course) : OnStage n (Answer shape.Result) :=
  perform (surroundings c) q

end Blocking

/-! ## The asynchronous client -/

namespace Future

/-- Messages come in for the asynchronous client. -/
def hear : List (List UInt8) → OnStage n Unit :=
  hearAll fun bytes => modifyGet (·.receive bytes)

/-- The sending with a number of suspensions before it is over. -/
def sendOn (c : Course) : Nat → OnStage n (Sending Nat)
  | 0 => do
    hear c.sending
    return .over c.sent
  | left + 1 => return .underWay left

/-- The link on which a future takes a given course. -/
def link (c : Course) : AsyncLink (StateM Diary) n Nat where
  start bytes := do
    Diary.post bytes
    sendOn c c.suspensions.length
  resume := sendOn c
  delay := pure ()

/-- Polls a future again after each pause, until it is ready; it is dropped after the last one. -/
def attend (link : AsyncLink (StateM Diary) n F) :
    List (List (List UInt8)) → Progress n F shape → OnStage n (Option (Answer shape.Result))
  | _, .ready answer => return some answer
  | [], .pending future => do
    Diary.giveUp
    modify future.drop
    return none
  | pause :: rest, .pending future => do
    hear pause
    attend link rest (← future.poll link)

/-- Answers a query in a given course, unless the future is dropped before it is ready. -/
def ask (q : Query shape) (c : Course) : OnStage n (Option (Answer shape.Result)) := do
  attend (link c) (c.suspensions ++ c.turns) (← (fresh q).poll (link c))

end Future

/-- What a caller of the blocking client gets, if one of the other got `answer`. -/
def orInterrupted (answer : Option (Answer α)) : Answer α :=
  answer.getD (.error .interrupted)

theorem Blocking.hear_eq : Blocking.hear (n := n) = Future.hear := by
  have same : Blocking.onMessage (m := StateM Diary) (n := n) (pure ()) =
      fun bytes => modifyGet (·.receive bytes) := by
    funext bytes p d
    show Blocking.onMessage (m := StateM Diary) (pure ()) bytes p d = (p.receive bytes, d)
    rw [Blocking.onMessage_apply]
    rcases p.receive bytes with ⟨_ | _, _⟩ <;> rfl
  rw [Blocking.hear, Future.hear, same]

/-! ## A ticket that is waited for -/

section Waiting

variable {t : Ticket n} {p : Pool n}

theorem Ticket.take?_of_not_isDone (notYet : t.isDone p = false) : t.take? p = (none, t, p) := by
  rw [isDone] at notYet
  rw [take?]
  split
  · rfl
  · cases state : p.stateOf t.slot with
    | done result =>
      rw [state] at notYet
      cases notYet
    | _ => rfl

theorem Ticket.exists_take?_of_isDone (unfinished : t.finished = false) (done : t.isDone p = true) :
    ∃ result t' p', t.take? p = (some result, t', p') := by
  rw [isDone] at done
  rw [take?, unfinished]
  cases state : p.stateOf t.slot with
  | done result => exact ⟨result, _, _, rfl⟩
  | _ =>
    rw [state] at done
    cases done

namespace Blocking

/-- What becomes of a request that was sent. -/
def outcome (t : Ticket n) (turns : List (List (List UInt8))) : OnStage n (Answer Reply) := do
  match ← await t turns with
  | .error e =>
    modify t.drop
    return .error e
  | .ok () => modifyGet (collect t)

/-- The answer to a query from the reply to its request. -/
def settled (q : Query shape) : Answer Reply → OnStage n (Answer shape.Result)
  | .error e => return .error e
  | .ok reply => modifyGet (q.settle · reply)

variable {turns rest : List (List (List UInt8))} {turn : List (List UInt8)}

theorem outcome_of_isDone (done : t.isDone p = true) :
    outcome t turns p = pure (collect t p) := by
  have waited : await t turns p = pure (.ok (), p) := by
    cases turns <;>
      · show (if t.isDone p then (return .ok () : OnStage n (Answer Unit)) else _) p = _
        rw [if_pos done]
        rfl
  rw [outcome, OnStage.bind_apply, waited]
  rfl

theorem outcome_nil (notYet : t.isDone p = false) :
    outcome t [] p = (do Diary.giveUp; return (.error .interrupted, t.drop p)) := by
  have waited : await t [] p = (do Diary.giveUp; return (.error .interrupted, p)) := by
    show (if t.isDone p then (return .ok () : OnStage n (Answer Unit)) else _) p = _
    rw [if_neg (by simp [notYet])]
    rfl
  rw [outcome, OnStage.bind_apply, waited]
  rfl

theorem outcome_cons (notYet : t.isDone p = false) :
    outcome t (turn :: rest) p = (do hear turn; outcome t rest) p := by
  have waited : await t (turn :: rest) p = (do hear turn; await t rest) p := by
    show (if t.isDone p then (return .ok () : OnStage n (Answer Unit)) else _) p = _
    rw [if_neg (by simp [notYet])]
  rw [outcome, OnStage.bind_apply, waited]
  rfl

end Blocking

namespace Future

variable {c : Course} {q : Query shape} {rest : List (List (List UInt8))} {turn : List (List UInt8)}

/-- What becomes of a query whose request was sent. -/
def outcome (c : Course) (q : Query shape) (t : Ticket n) (turns : List (List (List UInt8))) :
    OnStage n (Option (Answer shape.Result)) := do
  attend (link c) turns (← check (link c) q t)

theorem attend_ready (turns : List (List (List UInt8))) (answer : Answer shape.Result) :
    attend (n := n) (F := Nat) (link c) turns (.ready answer) = pure (some answer) := by
  cases turns <;> rfl

theorem check_apply (c : Course) (q : Query shape) (t : Ticket n) (p : Pool n) :
    check (link c) q t p = match t.take? p with
      | (some result, _, p) => (do return Progress.ready (← Blocking.settled q result)) p
      | (none, _, _) => pure (.pending (.waiting q t), p) := by
  rw [check, OnStage.get_bind_apply]
  rcases t.take? p with ⟨_ | _ | _, _, _⟩ <;> rfl

theorem outcome_of_take? {result : Answer Reply} {t' : Ticket n} {p' : Pool n}
    (taken : t.take? p = (some result, t', p')) (turns : List (List (List UInt8))) :
    outcome c q t turns p = (do return some (← Blocking.settled q result)) p' := by
  rw [outcome, OnStage.bind_apply, check_apply, taken]
  show ((do return Progress.ready (← Blocking.settled q result)) >>= attend (link c) turns) p' = _
  simp only [bind_assoc, pure_bind, attend_ready]

theorem outcome_nil (notYet : t.isDone p = false) :
    outcome c q t [] p = (do Diary.giveUp; return (none, t.drop p)) := by
  rw [outcome, OnStage.bind_apply, check_apply, Ticket.take?_of_not_isDone notYet]
  rfl

theorem outcome_cons (notYet : t.isDone p = false) :
    outcome c q t (turn :: rest) p = (do hear turn; outcome c q t rest) p := by
  rw [outcome, OnStage.bind_apply, check_apply, Ticket.take?_of_not_isDone notYet]
  rfl

end Future

/-- A request that was sent is waited for in the same way. -/
theorem outcome_eq (c : Course) (q : Query shape) (unfinished : t.finished = false)
    (turns : List (List (List UInt8))) :
    (do Blocking.settled q (← Blocking.outcome t turns)) =
      orInterrupted <$> Future.outcome c q t turns := by
  -- Where the response is there, both take it.
  have arrived {p : Pool n} (done : t.isDone p = true) (turns : List (List (List UInt8))) :
      (do Blocking.settled q (← Blocking.outcome t turns)) p =
        (orInterrupted <$> Future.outcome c q t turns) p := by
    obtain ⟨result, t', p', taken⟩ := Ticket.exists_take?_of_isDone unfinished done
    have collected : Blocking.collect t p = (result, p') := by
      rw [Blocking.collect, taken]
    have settled : orInterrupted <$> (do return some (← Blocking.settled q result)) =
        Blocking.settled (n := n) q result := by
      simp only [map_bind, map_pure, orInterrupted, Option.getD_some, bind_pure]
    rw [OnStage.bind_apply, Blocking.outcome_of_isDone done, collected, OnStage.map_apply,
      Future.outcome_of_take? taken, ← OnStage.map_apply, settled]
    rfl
  induction turns with
  | nil =>
    funext p
    cases done : t.isDone p with
    | true => exact arrived done []
    | false =>
      rw [OnStage.bind_apply, Blocking.outcome_nil done, OnStage.map_apply,
        Future.outcome_nil done]
      rfl
  | cons turn rest ih =>
    funext p
    cases done : t.isDone p with
    | true => exact arrived done (turn :: rest)
    | false =>
      have goesOn : (do Blocking.settled q (← (do Blocking.hear turn; Blocking.outcome t rest))) =
          orInterrupted <$> (do Future.hear turn; Future.outcome c q t rest) := by
        rw [bind_assoc, Blocking.hear_eq, map_bind]
        exact bind_congr fun _ => ih
      rw [OnStage.bind_apply, Blocking.outcome_cons done, OnStage.map_apply,
        Future.outcome_cons done]
      exact congrFun goesOn p

end Waiting

/-! ## A request that is sent -/

/-- What becomes of a request whose message was handed to the link. -/
def Blocking.carried (c : Course) (t : Ticket n) : OnStage n (Answer Reply) := do
  hear (c.suspensions.flatten ++ c.sending)
  match c.sent with
  | .error e =>
    modify t.cancel
    return .error e
  | .ok () => outcome t c.turns

/-- What becomes of a query whose message has a number of suspensions before it. -/
def Future.carried (c : Course) (q : Query shape) (t : Ticket n)
    (suspensions : List (List (List UInt8))) : OnStage n (Option (Answer shape.Result)) := do
  let sending ← sendOn c suspensions.length
  attend (link c) (suspensions ++ c.turns) (← sent (link c) q t sending)

theorem hearAll_append (onMessage : List UInt8 → OnStage n (Answer Unit))
    (first second : List (List UInt8)) : hearAll onMessage (first ++ second) =
      (do hearAll onMessage first; hearAll onMessage second) := by
  induction first with
  | nil => rfl
  | cons bytes rest ih =>
    simp only [List.cons_append, hearAll, ih, bind_assoc]

/-- The messages that come in while the sending is suspended come in as in the sending itself. -/
theorem Future.carried_eq (c : Course) (q : Query shape) (t : Ticket n)
    (suspensions : List (List (List UInt8))) :
    carried c q t suspensions = (do
      hear (suspensions.flatten ++ c.sending)
      match c.sent with
      | .error e =>
        modify t.cancel
        return some (.error e)
      | .ok () => outcome c q t c.turns) := by
  induction suspensions with
  | nil =>
    show (do
      let sending ← (do hear c.sending; return Sending.over c.sent)
      attend (link c) c.turns (← sent (link c) q t sending)) = _
    simp only [bind_assoc, pure_bind, List.flatten_nil, List.nil_append]
    refine bind_congr fun _ => ?_
    cases c.sent with
    | error e =>
      show (do modify t.cancel; return Progress.ready (.error e)) >>= attend (link c) c.turns = _
      simp only [bind_assoc, pure_bind, attend_ready]
    | ok _ => rfl
  | cons messages rest ih =>
    have goesOn : carried c q t (messages :: rest) = (do hear messages; carried c q t rest) := rfl
    rw [goesOn, ih, List.flatten_cons, List.append_assoc, hear, hearAll_append _ messages,
      bind_assoc]

/-- A request fares alike with both clients once it has its number. -/
theorem carried_eq (c : Course) (q : Query shape) {t : Ticket n} (unfinished : t.finished = false) :
    (do Blocking.settled q (← Blocking.carried c t)) =
      orInterrupted <$> Future.carried c q t c.suspensions := by
  rw [Blocking.carried, Future.carried_eq, Blocking.hear_eq, map_bind, bind_assoc]
  refine bind_congr fun _ => ?_
  cases c.sent with
  | error e => rfl
  | ok _ => exact outcome_eq c q unfinished c.turns

/-! ## Queries and scripts -/

theorem unfinished_of_start {p p' : Pool n} {t : Ticket n} (started : p.start = (.ok t, p')) :
    t.finished = false := by
  rw [Pool.start] at started
  split at started
  · cases started
  · dsimp only at started
    split at started
    · cases started
      rfl
    · cases started

theorem Blocking.request_apply (c : Course) (kind : Config.RequestKind) (index value : Int32)
    (p : Pool n) :
    request (surroundings c) kind index value p = match p.start with
      | (.error e, p) => pure (.error e, p)
      | (.ok t, p) => (do
          Diary.post (Message.request t.seq kind index value).encode
          carried c t : OnStage n (Answer Reply)) p := by
  rw [request, OnStage.modifyGet_bind_apply]
  rcases p.start with ⟨_ | t, p'⟩
  · rfl
  · simp only [surroundings, bind_assoc, pure_bind]
    rfl

theorem Blocking.ask_apply (c : Course) (q : Query shape) (p : Pool n) :
    ask q c p = match q.plan p.count with
      | .answered answer => pure (answer, p)
      | .ask kind index value =>
        (do settled q (← request (surroundings c) kind index value)) p := by
  rw [ask, perform, OnStage.get_bind_apply]
  cases q.plan p.count <;> rfl

theorem Future.ask_apply (c : Course) (q : Query shape) (p : Pool n) :
    ask q c p = match q.plan p.count with
      | .answered answer => pure (some answer, p)
      | .ask kind index value =>
        match p.start with
        | (.error e, p) => pure (some (.error e), p)
        | (.ok t, p) => (do
            Diary.post (Message.request t.seq kind index value).encode
            carried c q t c.suspensions : OnStage n (Option (Answer shape.Result))) p := by
  rw [ask, OnStage.bind_apply, poll, OnStage.get_bind_apply]
  cases q.plan p.count with
  | answered answer =>
    show attend (link c) (c.suspensions ++ c.turns) (.ready answer) p = _
    rw [attend_ready]
    rfl
  | ask kind index value =>
    dsimp only
    rw [OnStage.modifyGet_bind_apply]
    rcases p.start with ⟨e | t, p'⟩
    · show attend (link c) (c.suspensions ++ c.turns) (.ready (.error e)) p' = _
      rw [attend_ready]
      rfl
    · rfl

/-- A query is answered by both clients as it is, unless it is given up. -/
theorem ask_eq (c : Course) (q : Query shape) :
    Blocking.ask (n := n) q c = orInterrupted <$> Future.ask q c := by
  funext p
  rw [Blocking.ask_apply, OnStage.map_apply, Future.ask_apply]
  cases q.plan p.count with
  | answered answer => rfl
  | ask kind index value =>
    dsimp only
    rw [OnStage.bind_apply, Blocking.request_apply]
    rcases started : p.start with ⟨_ | t, p'⟩
    · rfl
    · dsimp only
      have carried := carried_eq c q (unfinished_of_start started)
      have posted : (do
            Diary.post (Message.request t.seq kind index value).encode
            Blocking.settled q (← Blocking.carried c t)) =
          orInterrupted <$> (do
            Diary.post (Message.request t.seq kind index value).encode
            Future.carried c q t c.suspensions : OnStage n (Option (Answer shape.Result))) := by
        rw [map_bind]
        exact bind_congr fun _ => carried
      exact congrFun posted p'

/-! ## Scripts -/

/-- Plays one scene for the blocking client. -/
def Blocking.play : Scene → OnStage n (Answer Outcome)
  | .ask q c => do return (← ask q.query c).map (Outcome.of q.shape)
  | .hear bytes => do
    hear [bytes]
    return .ok .done

/-- Plays one scene for the asynchronous client. -/
def Future.play : Scene → OnStage n (Option (Answer Outcome))
  | .ask q c => do return (← ask q.query c).map (·.map (Outcome.of q.shape))
  | .hear bytes => do
    hear [bytes]
    return some (.ok .done)

/-- What is seen of a client after a step of a script. -/
structure Seen (n : Nat) (α : Type) where
  answer : α
  diary : Diary
  pool : Pool n

/-- What is seen after each step of a script. -/
def playAll {α : Type} (play : Scene → OnStage n α) : List Scene → Pool n → Diary → List (Seen n α)
  | [], _, _ => []
  | scene :: rest, p, d =>
    let ((answer, p), d) := play scene p d
    ⟨answer, d, p⟩ :: playAll play rest p d

/-- A step was the same for both clients. The caller of the blocking one is told when a wait was
given up. -/
structure Alike (blocking : Seen n (Answer Outcome)) (async : Seen n (Option (Answer Outcome))) :
    Prop where
  diary : blocking.diary = async.diary
  pool : blocking.pool = async.pool
  answered : ∀ answer, async.answer = some answer → blocking.answer = answer
  interrupted : async.answer = none → blocking.answer = .error .interrupted

theorem play_eq (scene : Scene) :
    Blocking.play (n := n) scene = orInterrupted <$> Future.play scene := by
  cases scene with
  | ask q c =>
    show (do return (← Blocking.ask q.query c).map (Outcome.of q.shape)) =
      orInterrupted <$> (do
        let answer ← Future.ask q.query c
        return answer.map (·.map (Outcome.of q.shape)))
    rw [ask_eq, bind_map_left, map_bind]
    refine bind_congr fun answer => ?_
    cases answer <;> rfl
  | hear bytes =>
    show (do Blocking.hear [bytes]; return Except.ok Outcome.done) = _
    rw [Blocking.hear_eq]
    rfl

/-- Whatever script is played, and from whatever pool, both clients have sent the same after each
step and made the same of every message; they have given up the same waits, and the answers to all
other queries are the same; and their pools are the same, with the sequence numbers, the requests
that are outstanding, the free slots and the number of variables that is kept. -/
theorem two_clients_agree (script : List Scene) (p : Pool n) (d : Diary) :
    List.Forall₂ Alike (playAll Blocking.play script p d) (playAll Future.play script p d) := by
  induction script generalizing p d with
  | nil => exact .nil
  | cons scene rest ih =>
    generalize asynced : Future.play scene p d = r
    obtain ⟨⟨answer, p'⟩, d'⟩ := r
    have same : Blocking.play scene p d = ((orInterrupted answer, p'), d') := by
      have mapped : Blocking.play scene p d =
          ((orInterrupted (Future.play scene p d).1.1, (Future.play scene p d).1.2),
            (Future.play scene p d).2) := congrFun (congrFun (play_eq scene) p) d
      rw [mapped, asynced]
    unfold playAll
    rw [same, asynced]
    refine .cons ⟨rfl, rfl, ?_, ?_⟩ (ih p' d')
    · rintro _ rfl
      rfl
    · rintro rfl
      rfl

/-- A request that is given up is outstanding until its response comes in. -/
example :
    (playAll Future.play
        [.ask ⟨.request .nop (-1) 0⟩ ⟨[], [], .ok (), []⟩, .hear (Message.response 0 .ok 0 0).encode]
        ({} : Pool 1) {}).map
        (fun seen => (seen.answer.isNone, seen.pool.pendingCount, seen.pool.available)) =
      [(true, 1, 0), (false, 0, 1)] := by
  decide +kernel

end InterCore.Client
