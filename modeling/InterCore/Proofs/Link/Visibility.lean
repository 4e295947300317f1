import InterCore.Proofs.Link.Mail
import InterCore.Proofs.Ring.Visibility

/-!
# No half-made message is seen

A message is written into its buffer before the used element that covers it, and the index of the
used ring is moved behind a barrier. So at every point of an attempt to send the peer sees some of
the elements that the attempt puts into the ring, in order, and once it sees the element of the
message it sees all of the message (`Attempt.delivers`).
-/

namespace InterCore.Link

open InterCore.Packet (Header maxLen)
open InterCore.Ring

/-- What the peer sees of an attempt to send that takes descriptors from `tail` up to `tail'`, if it
has collected all elements up to `last`. -/
structure Delivers (l : Layout) (m : Memory) (tail last : UInt16) (msg : Message) (sent : Bool)
    (es : List Event) (tail' : UInt16) (entries : List (UInt16 × Option Message)) : Prop where
  messages : entries.filterMap Prod.snd = if sent then [msg] else []
  /-- Only buffers without room for a header are passed over. -/
  short : ∀ idx, (idx, none) ∈ entries → (l.buffer m idx).len.toNat < Header.size
  taken : l.offered m tail = entries.map Prod.fst ++ l.offered (m.after es) tail'
  exhausted : sent = false → l.offered (m.after es) tail' = []
  returned : l.returned (m.after es) last = l.returned m last ++ entries.map usedElem
  seen : l.Throughout m es fun m' => ∃ seen, seen <+: entries ∧
    l.returned m' last = l.returned m last ++ seen.map usedElem ∧
      ∀ idx, (idx, some msg) ∈ seen → Carries l m' idx msg

variable {tx tx' : Device} {m : Memory} {msg : Message} {sent : Bool} {es : List Event}
  {last : UInt16}

namespace Delivers

variable {idx : UInt16}

/-- Where neither ring is changed, the used elements are the same. -/
theorem returned_same {l : Layout} {m' : Memory} (same : m.AgreeOn m' l.avail l.ringEnd) :
    l.returned m' last = l.returned m last := by
  have areas := l.avail_add_le_used
  exact Layout.returned_agree (same.mono (by omega) (Nat.le_refl _))

/-- Nothing is seen where nothing is done. -/
theorem of_missed (next : tx.next? m = none) :
    Delivers tx.layout m tx.tail last msg false [] tx.tail [] := by
  have none := Device.offered_of_next?_none next
  refine ⟨rfl, nofun, rfl, fun _ => none, (List.append_nil _).symm, .nil fun m' same => ?_⟩
  exact ⟨[], List.nil_prefix, by rw [returned_same same, List.map_nil, List.append_nil], nofun⟩

/-- The message is seen with its element. -/
theorem of_sent (within : tx.layout.Within m) (next : tx.next? m = some idx)
    (inRing : idx.toNat < tx.layout.num.toNat)
    (apart : (tx.layout.buffer m idx).span.Apart tx.layout.span)
    (room : (tx.layout.returned m last).length < tx.layout.num.toNat)
    (roomy : Header.size ≤ (tx.layout.buffer m idx).len.toNat)
    (fits : ∀ e ∈ fillEvents tx m idx msg, e.Fits m) :
    Delivers tx.layout m tx.tail last msg true (sendEvents tx m idx msg) tx.advance.tail
      [(idx, some msg)] := by
  have within' : tx.layout.Within (m.after (fillEvents tx m idx msg)) := within.replay _
  have handBack : tx.handBackEvents (m.after (fillEvents tx m idx msg)) idx (UInt32.ofNat maxLen) =
      tx.publishEvents (m.after (fillEvents tx m idx msg)) idx (UInt32.ofNat maxLen) true :=
    if_pos inRing
  have outside : ∀ e ∈ fillEvents tx m idx msg,
      e.Fits m ∧ e.Misses tx.layout.avail tx.layout.ringEnd := by
    intro e mem
    have base := tx.layout.avail_eq
    have misses := (fillEvents_inside roomy mem).misses apart.symm
    exact ⟨fits e mem, misses.mono (by simp only [Layout.span]; omega) (Nat.le_refl _)⟩
  have filled := Memory.agreeOn_after outside
  have before : tx.layout.returned (m.after (fillEvents tx m idx msg)) last =
    tx.layout.returned m last := returned_same filled
  have avail : m.AgreeOn (m.after (sendEvents tx m idx msg)) tx.layout.avail tx.layout.used := by
    have ends := tx.layout.ringEnd_eq
    rw [sendEvents, Memory.after_append]
    exact (filled.mono (Nat.le_refl _) (by omega)).trans (Device.agreeOn_handBack_avail within')
  have returned : tx.layout.returned (m.after (sendEvents tx m idx msg)) last =
      tx.layout.returned m last ++ [usedElem (idx, some msg)] := by
    rw [sendEvents, Memory.after_append, handBack, Device.returned_publish within' inRing, before]
    · rfl
    · rwa [before]
  have nothing {m' : Memory} (same : tx.layout.returned m' last = tx.layout.returned m last) :
      ∃ seen, seen <+: [(idx, some msg)] ∧
        tx.layout.returned m' last = tx.layout.returned m last ++ seen.map usedElem ∧
          ∀ i, (i, some msg) ∈ seen → Carries tx.layout m' i msg :=
    ⟨[], List.nil_prefix, by rw [same, List.map_nil, List.append_nil],
      fun _ mem => absurd mem List.not_mem_nil⟩
  refine ⟨rfl, ?_, ?_, fun unsent => Bool.noConfusion unsent, returned, ?_⟩
  · intro i mem
    cases List.mem_singleton.mp mem
  · rw [Layout.offered_agree avail]
    exact Device.offered_of_next? next
  · refine .prepend outside (fun m' same => nothing (returned_same same)) ?_
    rw [handBack]
    refine (Device.publish_throughout within' inRing _ true (by rwa [before])).mono ?_
    rintro m' (⟨-, same⟩ | all)
    · exact nothing (same.trans before)
    · have all : m' = m.after (sendEvents tx m idx msg) := by
        rw [all, sendEvents, Memory.after_append, handBack]
      refine ⟨[(idx, some msg)], List.prefix_refl _, by rw [all]; exact returned, ?_⟩
      intro i mem
      cases List.mem_singleton.mp mem
      rw [all]
      exact carries_send within inRing roomy fits apart

/-- A short buffer that is passed over is seen before those behind it. -/
theorem of_skipped {tail' : UInt16} {entries : List (UInt16 × Option Message)}
    (within : tx.layout.Within m) (next : tx.next? m = some idx)
    (waiting : ∀ i ∈ tx.layout.offered m tx.tail, i.toNat < tx.layout.num.toNat)
    (room : (tx.layout.returned m last).length < tx.layout.num.toNat)
    (small : (tx.layout.buffer m idx).len.toNat < Header.size)
    (h : Delivers tx.layout (m.after (tx.handBackEvents m idx 0)) tx.advance.tail last msg sent es
      tail' entries) :
    Delivers tx.layout m tx.tail last msg sent (tx.handBackEvents m idx 0 ++ es) tail'
      ((idx, none) :: entries) := by
  have inRing := waiting idx (List.mem_of_mem_head? next)
  have handBack : tx.handBackEvents m idx 0 = tx.publishEvents m idx 0 true := if_pos inRing
  have queue : tx.layout.offered m tx.tail = idx :: tx.layout.offered
      (m.after (tx.handBackEvents m idx 0)) tx.advance.tail := Device.offered_of_handBack within next
  have returned : tx.layout.returned (m.after (tx.handBackEvents m idx 0)) last =
      tx.layout.returned m last ++ [usedElem (idx, none)] :=
    Device.returned_handBack within inRing 0 room
  refine ⟨h.messages, ?_, ?_, ?_, ?_, ?_⟩
  · intro i mem
    rcases List.mem_cons.mp mem with same | mem
    · cases same
      exact small
    · have later : i ∈ tx.layout.offered m tx.tail := by
        rw [queue, h.taken]
        exact List.mem_cons_of_mem _ (List.mem_append_left _ (List.mem_map_of_mem mem))
      rw [← Device.buffer_handBack within (waiting i later)]
      exact h.short i mem
  · rw [queue, h.taken, Memory.after_append]
    rfl
  · intro unsent
    rw [Memory.after_append]
    exact h.exhausted unsent
  · rw [Memory.after_append, h.returned, returned, List.append_assoc]
    rfl
  · refine .append ?_ ?_ ?_
    · rw [handBack]
      exact tx.settled_publish m idx 0 true
    · rw [handBack]
      refine (Device.seen_publish within inRing 0 true room).mono ?_
      rintro m' (⟨-, before⟩ | ⟨-, after⟩)
      · exact ⟨[], List.nil_prefix, by rw [before, List.map_nil, List.append_nil], nofun⟩
      · refine ⟨[(idx, none)], List.prefix_cons_inj _ |>.mpr List.nil_prefix, after, ?_⟩
        intro i mem
        cases List.mem_singleton.mp mem
    · refine h.seen.mono ?_
      rintro m' ⟨seen, first, queue', carries⟩
      refine ⟨(idx, none) :: seen, List.prefix_cons_inj _ |>.mpr first, ?_, ?_⟩
      · rw [queue', returned, List.append_assoc]
        rfl
      · intro i mem
        rcases List.mem_cons.mp mem with same | mem
        · cases same
        · exact carries i mem

/-- If one buffer waits that has room, the message is sent, and seen at once. -/
theorem of_one {l : Layout} {tail tail' : UInt16} {entries : List (UInt16 × Option Message)}
    (h : Delivers l m tail last msg sent es tail' entries) (waits : l.offered m tail = [idx])
    (roomy : Header.size ≤ (l.buffer m idx).len.toNat) :
    sent = true ∧ l.Throughout m es fun m' => l.returned m' last = l.returned m last ∨
      l.returned m' last = l.returned m last ++ [usedElem (idx, some msg)] ∧
        Carries l m' idx msg := by
  have all : entries = [(idx, some msg)] ∧ sent = true := by
    have taken := h.taken
    have messages := h.messages
    rw [waits] at taken
    match entries, taken, messages with
    | [], taken, messages =>
      -- Nothing was taken, so nothing was sent, and then nothing waits.
      cases sent with
      | false => rw [h.exhausted rfl] at taken; cases taken
      | true => cases messages
    | (i, x) :: more, taken, messages =>
      obtain ⟨rfl, rest⟩ := List.cons.inj taken
      obtain ⟨none, -⟩ := List.append_eq_nil_iff.mp rest.symm
      cases List.map_eq_nil_iff.mp none
      cases x with
      | none => exact absurd (h.short idx (List.mem_singleton.mpr rfl)) (Nat.not_lt.mpr roomy)
      | some msg' =>
        cases sent with
        | false => cases messages
        | true => cases messages; exact ⟨rfl, rfl⟩
  obtain ⟨rfl, rfl⟩ := all
  refine ⟨rfl, h.seen.mono ?_⟩
  rintro m' ⟨seen, first, queue, carries⟩
  rcases List.prefix_cons_iff.mp first with rfl | ⟨rest, rfl, nothing⟩
  · exact .inl (queue.trans (List.append_nil _))
  · cases List.prefix_nil.mp nothing
    exact .inr ⟨queue, carries idx (List.mem_singleton.mpr rfl)⟩

end Delivers

theorem Attempt.delivers (h : Attempt msg tx m sent es tx') (within : tx.layout.Within m)
    (waiting : ∀ idx ∈ tx.layout.offered m tx.tail, idx.toNat < tx.layout.num.toNat ∧
      (tx.layout.buffer m idx).span.Apart tx.layout.span)
    (room : (tx.layout.returned m last).length + (tx.layout.offered m tx.tail).length ≤
      tx.layout.num.toNat) :
    ∃ entries, Delivers tx.layout m tx.tail last msg sent es tx'.tail entries := by
  induction h with
  | missed next => exact ⟨[], .of_missed next⟩
  | @sent tx m idx next roomy fits =>
    have queue := Device.offered_of_next? next
    obtain ⟨inRing, apart⟩ := waiting idx (List.mem_of_mem_head? next)
    rw [queue, List.length_cons] at room
    exact ⟨[(idx, some msg)], .of_sent within next inRing apart (by omega) roomy fits⟩
  | @skipped tx tx' m idx sent es next short later ih =>
    have inRing := fun i mem => (waiting i mem).1
    have here := inRing idx (List.mem_of_mem_head? next)
    have offered : tx.layout.offered m tx.tail = idx :: tx.layout.offered
        (m.after (tx.handBackEvents m idx 0)) tx.advance.tail :=
      Device.offered_of_handBack within next
    rw [offered, List.length_cons] at room
    have some : (tx.layout.returned m last).length < tx.layout.num.toNat := by omega
    have waiting' : ∀ i ∈ tx.layout.offered (m.after (tx.handBackEvents m idx 0)) tx.advance.tail,
        i.toNat < tx.layout.num.toNat ∧ (tx.layout.buffer (m.after (tx.handBackEvents m idx 0))
          i).span.Apart tx.layout.span := by
      intro i mem
      obtain ⟨own, apart⟩ := waiting i (offered ▸ List.mem_cons_of_mem idx mem)
      rw [Device.buffer_handBack within own]
      exact ⟨own, apart⟩
    have room' : (tx.layout.returned (m.after (tx.handBackEvents m idx 0)) last).length +
        (tx.layout.offered (m.after (tx.handBackEvents m idx 0)) tx.advance.tail).length ≤
          tx.layout.num.toNat := by
      rw [Device.returned_handBack within here 0 some, List.length_append, List.length_singleton]
      omega
    obtain ⟨entries, delivers⟩ := ih (within.replay _) waiting' room'
    exact ⟨_, .of_skipped within next inRing some short delivers⟩

/-- On a ring whose ends give only what they have, the other core never sees a half-made update. At
every point of an offer or a return it sees the queue as it was, and the index too, or it sees the
moved index and the queue with the new entry. An attempt to send, if the buffers are apart from the
ring, does not fail, and at each of its points the peer sees the used ring as it was with some of
the new elements, in order; with the element of the message it sees all of the message. -/
theorem no_half_made_update {start e : Ends} {past : List Record} (sound : start.Sound)
    (empty : start.queues = {}) (reached : start.Reaches past e) :
    let l := e.driver.layout
    (∀ idx, Owned l.num.toNat past (.offer idx) →
      ∃ es, e.driver.offer idx e.bus = .ok (e.driver.offering, e.bus.after es) ∧
        l.Throughout e.bus.memory es fun m =>
          m.word16 l.availIdxAddr = e.driver.head ∧
            l.offered m e.device.tail = e.queues.offered ∨
          m.word16 l.availIdxAddr = e.driver.head + 1 ∧
            l.offered m e.device.tail = e.queues.offered ++ [idx]) ∧
      (∀ idx len kick, Owned l.num.toNat past (.publish idx len kick) →
        ∃ es, e.device.publish idx len kick e.bus = .ok ((), e.bus.after es) ∧
          l.Throughout e.bus.memory es fun m =>
            m.word16 l.usedIdxAddr = e.bus.memory.word16 l.usedIdxAddr ∧
              l.returned m e.driver.lastUsed = e.queues.returned ∨
            m.word16 l.usedIdxAddr = e.bus.memory.word16 l.usedIdxAddr + 1 ∧
              l.returned m e.driver.lastUsed = e.queues.returned ++ [⟨idx.toUInt32, len⟩]) ∧
      ((∀ i : UInt16, i.toNat < l.num.toNat → (l.buffer e.bus.memory i).span.Apart l.span ∧
          (l.buffer e.bus.memory i).Reachable e.bus.memory) →
        ∀ msg : Message, ∃ sent tx es entries,
          trySend e.device msg.src msg.dst msg.data e.bus = .ok ((sent, tx), e.bus.after es) ∧
            Delivers l e.bus.memory e.device.tail e.driver.lastUsed msg sent es tx.tail entries) := by
  intro l
  obtain ⟨soundNow, layout, circulates⟩ := reached.circulates sound empty
  rw [← layout] at circulates
  have conserved := circulates.conserved
  have oneRing : e.device.layout = l := soundNow.oneRing
  refine ⟨?_, ?_, ?_⟩
  · intro idx owned
    refine ⟨_, Driver.offer_eq soundNow.within idx, ?_⟩
    exact Driver.seen_offer soundNow.within soundNow.head (conserved.room owned) idx
  · intro idx len kick owned
    obtain ⟨inRing, room⟩ := conserved.room owned
    have seen := @Device.seen_publish e.bus.memory e.driver.lastUsed e.device idx
      soundNow.device_within (oneRing ▸ inRing) len kick (oneRing ▸ room)
    rw [oneRing] at seen
    exact ⟨_, Device.publish_eq soundNow.device_within (oneRing ▸ inRing) len kick, seen⟩
  · intro buffers msg
    have inRing : ∀ i ∈ l.offered e.bus.memory e.device.tail, i.toNat < l.num.toNat := by
      intro i mem
      refine List.mem_range.mp ((List.Perm.mem_iff conserved).mp ?_)
      have mem : i.toNat ∈ e.queues.offeredIds := List.mem_map_of_mem mem
      simp [everywhere, mem]
    have total := conserved.length_eq
    have both : e.queues.returned.length + e.queues.offered.length ≤ e.driver.layout.num.toNat := by
      omega
    have room : (l.returned e.bus.memory e.driver.lastUsed).length +
      (l.offered e.bus.memory e.device.tail).length ≤ l.num.toNat := both
    have within := soundNow.device_within
    rw [← oneRing] at inRing room buffers
    obtain ⟨sent, tx, bus, tried⟩ := trySend_eq msg.src msg.dst msg.data
      ⟨within, fun i mem => ⟨inRing i mem, (buffers i (inRing i mem)).2⟩⟩
    obtain ⟨es, attempt, rfl⟩ := trySend_eq_ok within tried
    obtain ⟨entries, delivers⟩ := attempt.delivers within
      (fun i mem => ⟨inRing i mem, (buffers i (inRing i mem)).1⟩) room
    rw [oneRing] at delivers
    exact ⟨sent, tx, es, entries, tried, delivers⟩

/-- On a ring that was set up and in which one buffer was offered, a message is sent. At every point
of that the peer sees nothing, or all of the message. -/
theorem no_half_made_update_of_message :
    ∃ (start e : Ends) (tx : Device) (es : List Event) (msg : Message), start.Sound ∧
      start.queues = {} ∧ start.Reaches [(.offer 0, .done)] e ∧
        trySend e.device msg.src msg.dst msg.data e.bus = .ok ((true, tx), e.bus.after es) ∧
          e.driver.layout.Throughout e.bus.memory es fun m =>
            e.driver.layout.returned m e.driver.lastUsed = [] ∨
              e.driver.layout.returned m e.driver.lastUsed = [⟨0, 512⟩] ∧
                Carries e.driver.layout m 0 msg := by
  have fresh := fits_threePages.fresh
  obtain ⟨e, reached, queues, layout, bus⟩ := Ends.Reaches.first_offer fresh.ready.sound fresh.ready.empty
  obtain ⟨-, -, sends⟩ := no_half_made_update fresh.ready.sound fresh.ready.empty reached
  have waits : e.driver.layout.offered e.bus.memory e.device.tail = [0] := congrArg Queues.offered queues
  have none : e.driver.layout.returned e.bus.memory e.driver.lastUsed = [] :=
    congrArg Queues.returned queues
  have usable : ∀ i : UInt16, i.toNat < e.driver.layout.num.toNat →
      (e.driver.layout.buffer e.bus.memory i).len = 64 ∧
        (e.driver.layout.buffer e.bus.memory i).span.Apart e.driver.layout.span ∧
          (e.driver.layout.buffer e.bus.memory i).Reachable e.bus.memory := by
    intro i inRing
    rw [layout] at inRing
    have buffer : e.driver.layout.buffer e.bus.memory i = fits_threePages.cores.txBuffer i := by
      rw [layout, bus, Bus.memory_after]
      exact Driver.buffer_offer fresh.ready.sound.within inRing
    obtain ⟨place, reachable⟩ := fresh.writable i inRing
    rw [buffer]
    refine ⟨congrArg Buffer.len place, ?_, ?_⟩
    · rw [layout]
      exact fresh.ready.separate.fromTx i inRing
    · simp only [Buffer.Reachable, bus, Bus.memory_after, Memory.covers_after]
      exact reachable
  let msg : Message := ⟨firstLocalAddr, 7, [1, 2, 3]⟩
  obtain ⟨sent, tx, es, entries, tried, delivers⟩ := sends (fun i inRing => (usable i inRing).2) msg
  have roomy : Header.size ≤ (e.driver.layout.buffer e.bus.memory 0).len.toNat := by
    rw [(usable 0 e.driver.layout.num_pos).1]
    decide
  obtain ⟨rfl, seen⟩ := delivers.of_one waits roomy
  rw [none] at seen
  exact ⟨_, e, tx, es, msg, fresh.ready.sound, fresh.ready.empty, reached, tried, seen⟩

end InterCore.Link
