import InterCore.Proofs.Link.Steps

/-!
# Attempts to send

An attempt to send hands short buffers back until it comes to a roomy one, fills that and hands it
back as well, or until there is no buffer left. `Attempt` says which events that is, and
`trySend_eq_ok` that an attempt that succeeds is one. To the link it is a path on which the message
is sent once or not at all (`Attempt.path`).
-/

namespace InterCore.Link

open InterCore.Packet (Header maxLen)
open InterCore.Ring (Device)

variable {tx tx' mid : Device} {bus bus' : Bus} {m : Memory} {msg : Message}

/-- A packet fits where header and payload do. -/
theorem Message.events_fit {addr : Nat} : (∀ e ∈ msg.events addr, e.Fits m) ↔
    m.Covers addr Header.size ∧ m.Covers (addr + Header.size) msg.data.length := by
  simp [Message.events, Event.Fits]

/-! ## The search for a roomy buffer, entry by entry -/

section Search

variable {idx : UInt16} {d : Ring.Descriptor}

theorem takeBuffer?_of_none (fuel : Nat) (within : tx.layout.Within bus.memory)
    (next : tx.next? bus.memory = none) : takeBuffer? tx (fuel + 1) bus = .ok ((none, tx), bus) := by
  rw [takeBuffer?, OnBus.bind_eq (Device.take?_of_next?_none within next)]
  rfl

/-- What the descriptor of the next entry says decides how the search goes on. -/
theorem takeBuffer?_of_read (fuel : Nat) (within : tx.layout.Within bus.memory)
    (next : tx.next? bus.memory = some idx)
    (read : tx.layout.readDescriptor idx bus = .ok (d, bus)) :
    takeBuffer? tx (fuel + 1) bus =
      if Header.size ≤ d.len.toNat then .ok ((some (idx, d), tx.advance), bus)
      else takeBuffer? tx.advance fuel (bus.after (tx.handBackEvents bus.memory idx 0)) := by
  have read : tx.advance.descriptor idx bus = .ok (d, bus) := read
  rw [takeBuffer?, OnBus.bind_eq (Device.take?_of_next? within next)]
  dsimp only
  rw [OnBus.bind_eq read]
  split
  case isTrue => rfl
  case isFalse => rw [OnBus.bind_eq (Device.publish_handBack (d := tx.advance) within idx 0)]; rfl

/-- A descriptor that cannot be read ends the search. -/
theorem takeBuffer?_of_unread {fault : Fault} (fuel : Nat) (within : tx.layout.Within bus.memory)
    (next : tx.next? bus.memory = some idx)
    (unread : tx.layout.readDescriptor idx bus = .error fault) :
    takeBuffer? tx (fuel + 1) bus = .error fault := by
  have unread : tx.advance.descriptor idx bus = .error fault := unread
  rw [takeBuffer?, OnBus.bind_eq (Device.take?_of_next? within next)]
  dsimp only
  rw [bind_of_error unread]

theorem takeBuffer?_of_roomy (fuel : Nat) (within : tx.layout.Within bus.memory)
    (next : tx.next? bus.memory = some idx) (described : tx.layout.DescribedIn bus.memory idx)
    (roomy : Header.size ≤ (tx.layout.buffer bus.memory idx).len.toNat) :
    ∃ d, takeBuffer? tx (fuel + 1) bus = .ok ((some (idx, d), tx.advance), bus) ∧
      tx.layout.buffer bus.memory idx = ⟨d.addr, d.len⟩ := by
  obtain ⟨d, read, buffer⟩ := Ring.Layout.readDescriptor_of_described described
  rw [buffer] at roomy
  exact ⟨d, (takeBuffer?_of_read fuel within next read).trans (if_pos roomy), buffer⟩

theorem takeBuffer?_of_short (fuel : Nat) (within : tx.layout.Within bus.memory)
    (next : tx.next? bus.memory = some idx) (described : tx.layout.DescribedIn bus.memory idx)
    (short : (tx.layout.buffer bus.memory idx).len.toNat < Header.size) :
    takeBuffer? tx (fuel + 1) bus =
      takeBuffer? tx.advance fuel (bus.after (tx.handBackEvents bus.memory idx 0)) := by
  obtain ⟨d, read, buffer⟩ := Ring.Layout.readDescriptor_of_described described
  rw [buffer] at short
  exact (takeBuffer?_of_read fuel within next read).trans (if_neg (Nat.not_le.mpr short))

/-- A search for a roomy buffer takes one available entry after the other. It stops at the first one
that describes such a buffer, or where there is no entry left. The others are handed back. -/
inductive Search : Device → Bus → List UInt16 → Option (UInt16 × Ring.Descriptor) → Device → Bus →
    Prop where
  | empty {tx : Device} {bus : Bus} (next : tx.next? bus.memory = none) : Search tx bus [] none tx bus
  | found {tx : Device} {bus : Bus} {idx : UInt16} {d : Ring.Descriptor}
      (next : tx.next? bus.memory = some idx)
      (read : tx.layout.readDescriptor idx bus = .ok (d, bus)) (roomy : Header.size ≤ d.len.toNat) :
      Search tx bus [idx] (some (idx, d)) tx.advance bus
  | short {tx tx' : Device} {bus bus' : Bus} {idx : UInt16} {d : Ring.Descriptor}
      {taken : List UInt16} {found : Option (UInt16 × Ring.Descriptor)}
      (next : tx.next? bus.memory = some idx)
      (read : tx.layout.readDescriptor idx bus = .ok (d, bus)) (short : ¬ Header.size ≤ d.len.toNat)
      (later : Search tx.advance (bus.after (tx.handBackEvents bus.memory idx 0)) taken found tx' bus') :
      Search tx bus (idx :: taken) found tx' bus'

variable {taken : List UInt16} {found : Option (UInt16 × Ring.Descriptor)}

theorem Search.within (h : Search tx bus taken found tx' bus') (within : tx.layout.Within bus.memory) :
    tx'.layout.Within bus'.memory := by
  induction h with
  | empty => exact within
  | found => exact within
  | short next read short later ih => exact ih (within.after _)

/-- A search that comes to an end is one. -/
theorem search_of_takeBuffer? {fuel : Nat} (within : tx.layout.Within bus.memory)
    (run : takeBuffer? tx fuel bus = .ok ((found, tx'), bus')) :
    ∃ taken, Search tx bus taken found tx' bus' := by
  induction fuel generalizing tx bus with
  | zero => cases run
  | succ fuel ih =>
    cases next : tx.next? bus.memory with
    | none =>
      rw [takeBuffer?_of_none fuel within next] at run
      cases run
      exact ⟨[], .empty next⟩
    | some idx =>
      cases read : tx.layout.readDescriptor idx bus with
      | error fault =>
        rw [takeBuffer?_of_unread fuel within next read] at run
        cases run
      | ok r =>
        obtain ⟨d, bus₁⟩ := r
        obtain ⟨rfl, -⟩ := Ring.Layout.readDescriptor_eq_ok read
        rw [takeBuffer?_of_read fuel within next read] at run
        split at run
        case isTrue roomy =>
          cases run
          exact ⟨[idx], .found next read roomy⟩
        case isFalse short =>
          obtain ⟨taken, later⟩ := @ih tx.advance _ (within.after _) run
          exact ⟨idx :: taken, .short next read short later⟩

/-- A buffer that was found is filled and handed back. -/
theorem trySend_of_found
    (found : takeBuffer? tx indexSpan bus = .ok ((some (idx, d), tx'), bus'))
    (within : tx'.layout.Within bus'.memory)
    (buffer : tx'.layout.buffer bus'.memory idx = ⟨d.addr, d.len⟩)
    (fits : ∀ e ∈ fillEvents tx' bus'.memory idx msg, e.Fits bus'.memory) :
    trySend tx msg.src msg.dst msg.data bus =
      .ok ((true, tx'), bus'.after (sendEvents tx' bus'.memory idx msg)) := by
  have fill : fillEvents tx' bus'.memory idx msg = (msg.cutTo d.len).events d.addr.toNat := by
    rw [fillEvents, buffer]
  rw [sendEvents, fill]
  rw [fill, Message.events_fit] at fits
  obtain ⟨headerFits, dataFits⟩ := fits
  rw [trySend, OnBus.bind_eq found]
  dsimp only
  rw [OnBus.bind_eq (Bus.writeBytes_eq (by rwa [Header.length_encode])),
    OnBus.bind_eq (Bus.writeBytes_eq (by rw [Bus.memory_after, Memory.covers_after]; exact dataFits)),
    OnBus.bind_eq (Bus.flush_eq _ _ _),
    OnBus.bind_eq (Device.publish_handBack (((within.after _).after _).after _) _ _)]
  simp only [Message.events, Bus.after_append, Bus.after_cons, Bus.after_nil, Bus.memory_perform,
    Memory.after_cons, Memory.after_nil]
  rfl

theorem trySend_of_missed (missed : takeBuffer? tx indexSpan bus = .ok ((none, tx'), bus')) :
    trySend tx msg.src msg.dst msg.data bus = .ok ((false, tx'), bus') := by
  rw [trySend, OnBus.bind_eq missed]
  rfl

end Search

/-! ## What an attempt comes to -/

/-- An attempt to send a message: short buffers are handed straight back, and a roomy one, if there
is one, is filled and handed back. Says whether the message was sent, and with which events. -/
inductive Attempt (msg : Message) : Device → Memory → Bool → List Event → Device → Prop where
  | missed {tx : Device} {m : Memory} (next : tx.next? m = none) : Attempt msg tx m false [] tx
  | sent {tx : Device} {m : Memory} {idx : UInt16} (next : tx.next? m = some idx)
      (roomy : Header.size ≤ (tx.layout.buffer m idx).len.toNat)
      (fits : ∀ e ∈ fillEvents tx m idx msg, e.Fits m) :
      Attempt msg tx m true (sendEvents tx m idx msg) tx.advance
  | skipped {tx tx' : Device} {m : Memory} {idx : UInt16} {sent : Bool} {es : List Event}
      (next : tx.next? m = some idx) (short : (tx.layout.buffer m idx).len.toNat < Header.size)
      (later : Attempt msg tx.advance (m.after (tx.handBackEvents m idx 0)) sent es tx') :
      Attempt msg tx m sent (tx.handBackEvents m idx 0 ++ es) tx'

/-- What an attempt has done when its search is over. -/
theorem Search.attempt {taken : List UInt16} {found : Option (UInt16 × Ring.Descriptor)} (msg : Message)
    (h : Search tx bus taken found tx' bus') :
    ∃ es, bus' = bus.after es ∧
      (found = none ∧ Attempt msg tx bus.memory false es tx' ∨
        ∃ idx d, found = some (idx, d) ∧ tx.layout = tx'.layout ∧
          tx'.layout.buffer bus'.memory idx = ⟨d.addr, d.len⟩ ∧
          ((∀ e ∈ fillEvents tx' bus'.memory idx msg, e.Fits bus'.memory) →
            Attempt msg tx bus.memory true (es ++ sendEvents tx' bus'.memory idx msg) tx')) := by
  induction h with
  | empty next => exact ⟨[], rfl, .inl ⟨rfl, .missed next⟩⟩
  | @found tx bus idx d next read roomy =>
    obtain ⟨-, here⟩ := Ring.Layout.readDescriptor_eq_ok read
    refine ⟨[], rfl, .inr ⟨idx, d, rfl, rfl, here, fun fits => .sent next ?_ fits⟩⟩
    rwa [here]
  | @short tx _ bus _ idx d _ _ next read short later ih =>
    obtain ⟨-, here⟩ := Ring.Layout.readDescriptor_eq_ok read
    have small : (tx.layout.buffer bus.memory idx).len.toNat < Header.size := by
      rw [here]
      exact Nat.lt_of_not_le short
    obtain ⟨es, rfl, missed | ⟨last, d', found, layout, buffer', sends⟩⟩ := ih
    all_goals simp only [Bus.memory_after] at *
    · exact ⟨_, (Bus.after_append _ _ _).symm, .inl ⟨missed.1, .skipped next small missed.2⟩⟩
    · refine ⟨_, (Bus.after_append _ _ _).symm,
        .inr ⟨last, d', found, layout, buffer', fun fits => ?_⟩⟩
      rw [List.append_assoc]
      exact .skipped next small (sends fits)

/-- An attempt that succeeds goes as `Attempt` says. -/
theorem trySend_eq_ok {sent : Bool} (within : tx.layout.Within bus.memory)
    (run : trySend tx msg.src msg.dst msg.data bus = .ok ((sent, tx'), bus')) :
    ∃ es, Attempt msg tx bus.memory sent es tx' ∧ bus' = bus.after es := by
  obtain ⟨⟨r, tx₁⟩, bus₁, took, rest⟩ := bind_eq_ok.mp run
  obtain ⟨taken, search⟩ := search_of_takeBuffer? within took
  obtain ⟨es, rfl, ⟨rfl, missed⟩ | ⟨idx, d, rfl, layout, buffer, sends⟩⟩ := search.attempt msg
  · cases rest
    exact ⟨es, missed, rfl⟩
  have within₁ : tx₁.layout.Within (bus.after es).memory := layout ▸ within.after es
  obtain ⟨u, bus₂, header, rest⟩ := bind_eq_ok.mp rest
  obtain ⟨headerFits, rfl⟩ := OnBus.writeBytes_eq_ok header
  obtain ⟨v, bus₃, payload, rest⟩ := bind_eq_ok.mp rest
  obtain ⟨payloadFits, rfl⟩ := OnBus.writeBytes_eq_ok payload
  rw [OnBus.bind_eq (Bus.flush_eq _ _ _), OnBus.bind_eq (Device.publish_handBack
    (((within₁.after _).after _).after _) _ _)] at rest
  have fill : fillEvents tx₁ (bus.after es).memory idx msg =
      (msg.cutTo d.len).events d.addr.toNat := by
    rw [fillEvents, buffer]
  cases rest
  refine ⟨_, sends ?_, ?_⟩
  · rw [fill, Message.events_fit]
    simp only [Bus.memory_after, Memory.covers_after, Header.length_encode] at headerFits payloadFits ⊢
    exact ⟨headerFits, payloadFits⟩
  · rw [sendEvents, fill, Bus.after_append, Bus.after_append]
    simp only [Message.events, Bus.after_cons, Bus.after_nil, Bus.memory_after, Memory.after_cons,
      Memory.after_nil, Bus.memory_perform]
    rfl

/-- To the link an attempt is steps of the firmware in which the message is sent at most once. -/
theorem Attempt.path {sent : Bool} {es : List Event} (c : Cores)
    (h : Attempt msg tx m sent es tx') :
    ∃ acts, Cores.Path { c with memory := m, tx } acts { c with memory := m.after es, tx := tx' } ∧
      sentIn acts = (if sent then [msg] else []) ∧ served acts = [] ∧
        ∀ act ∈ acts, act.byPeer = false := by
  induction h with
  | missed next => exact ⟨[], .start, rfl, rfl, by simp⟩
  | @sent tx m idx next roomy fits =>
    have step : Cores.Step { c with memory := m, tx } (.sent idx msg) _ := .sent next roomy fits
    exact ⟨_, .single step, rfl, rfl, by simp [Act.byPeer]⟩
  | @skipped tx tx' m idx sent es next short later ih =>
    obtain ⟨acts, path, messages, quiet, mine⟩ := ih
    have step : Cores.Step { c with memory := m, tx } (.skipped idx) _ := .skipped next short
    refine ⟨.skipped idx :: acts, ?_, messages, quiet, ?_⟩
    · rw [Memory.after_append]
      exact (Cores.Path.single step).append path
    · simpa [Act.byPeer] using mine

end InterCore.Link
