import InterCore.Client.Blocking
import InterCore.Proofs.Config.Codec

/-!
# Blocking calls on a pool

What the calls of a blocking client do, as equations on the pool that they begin with. The
surroundings may do their work in any lawful monad.
-/

namespace InterCore.Client

open InterCore.Config (Message Reply RequestKind)

variable {n : Nat}

/-- The message of the request of a ticket. -/
def Ticket.message (t : Ticket n) (kind : RequestKind) (index value : Int32) : List UInt8 :=
  (Message.request t.seq kind index value).encode

/-- The surroundings with a list of the messages that are handed to the link. -/
def Surroundings.noted {m : Type → Type} [Monad m] (s : Surroundings m n) :
    Surroundings (StateT (List (List UInt8)) m) n where
  send bytes p handed := do
    let r ← s.send bytes p
    return (r, handed ++ [bytes])
  waitFor t p handed := do
    let r ← s.waitFor t p
    return (r, handed)

theorem decodeResponse_encode (m : Message) : decodeResponse m.encode = .ok m := by
  rw [decodeResponse, if_pos m.length_encode, Message.decode_encode]

theorem Pool.receive_encode (p : Pool n) (m : Message) : p.receive m.encode = p.complete m := by
  rw [receive, decodeResponse_encode]

namespace Blocking

variable {m : Type → Type} [Monad m] [LawfulMonad m]

/-- The callers are woken after the pool has changed. -/
theorem onMessage_apply (wakeAll : OnPool m n Unit) (bytes : List UInt8) (p : Pool n) :
    onMessage wakeAll bytes p =
      match p.receive bytes with
      | (.error e, q) => pure (.error e, q)
      | (.ok (), q) => (fun woken => (.ok (), woken.2)) <$> wakeAll q := by
  show (pure (p.receive bytes) >>= _ : m (Answer Unit × Pool n)) = _
  rw [pure_bind]
  rcases p.receive bytes with ⟨_ | _, q⟩
  · rfl
  · exact (map_eq_pure_bind ..).symm

/-- The rest of a request after its message was handed to the link. -/
def afterSend (s : Surroundings m n) (t : Ticket n) : Answer Unit × Pool n → m (Answer Reply × Pool n)
  | (.error e, p) => pure (.error e, t.cancel p)
  | (.ok (), p) => s.waitFor t p >>= fun
    | (.error e, p) => pure (.error e, t.drop p)
    | (.ok (), p) => pure (collect t p)

theorem request_eq (s : Surroundings m n) (kind : RequestKind) (index value : Int32) (p : Pool n) :
    request s kind index value p = match p.start with
      | (.error e, p) => pure (.error e, p)
      | (.ok t, p) => s.send (t.message kind index value) p >>= afterSend s t := by
  show (pure p.start >>= _ : m (Answer Reply × Pool n)) = _
  rw [pure_bind]
  rcases p.start with ⟨_ | t, p⟩
  · rfl
  · refine bind_congr ?_
    rintro ⟨_ | _, p⟩
    · exact pure_bind ..
    · refine bind_congr ?_
      rintro ⟨_ | _, p⟩
      · exact pure_bind ..
      · rfl

theorem afterSend_noted (s : Surroundings m n) (t : Ticket n) (sent : Answer Unit × Pool n)
    (handed : List (List UInt8)) :
    afterSend s.noted t sent handed = (·, handed) <$> afterSend s t sent := by
  rcases sent with ⟨_ | _, p⟩
  · rw [afterSend, afterSend, map_pure]
    rfl
  · show (s.waitFor t p >>= fun r => pure (r, handed)) >>= _ = _ <$> (s.waitFor t p >>= _)
    rw [bind_assoc, map_bind]
    refine bind_congr ?_
    rintro ⟨_ | _, p⟩ <;> rw [pure_bind, map_pure] <;> rfl

/-- A request hands one message over, if it can start. -/
theorem request_noted (s : Surroundings m n) (kind : RequestKind) (index value : Int32)
    (p : Pool n) (handed : List (List UInt8)) :
    request s.noted kind index value p handed =
      (·, handed ++ match p.start.1 with
        | .error _ => []
        | .ok t => [t.message kind index value]) <$> request s kind index value p := by
  rw [request_eq, request_eq]
  rcases p.start with ⟨_ | t, p⟩
  · dsimp only
    rw [List.append_nil, map_pure]
    rfl
  · show (s.send _ p >>= fun r => pure (r, handed ++ [_])) >>= _ = _ <$> (s.send _ p >>= _)
    rw [bind_assoc, map_bind]
    refine bind_congr ?_
    intro sent
    rw [pure_bind]
    exact afterSend_noted s t sent _

end Blocking

end InterCore.Client
