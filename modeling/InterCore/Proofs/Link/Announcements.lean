import InterCore.Proofs.Link.ChannelTable
import InterCore.Proofs.Link.Mail
import InterCore.Proofs.Packet.Codec
import InterCore.Proofs.Packet.Names

/-!
# Announcements

A channel that was created keeps its name and its address as long as the firmware runs
(`Session.keeps`). The peer is told of it in the one message of the call that created it, and reads
that same name and that address there, provided that the buffer has room for the message.
-/

namespace InterCore.Link

open InterCore.Packet (Announcement Header Name maxLen)
open InterCore.Ring (UsedElem)

variable {σ : Type} {s s' s'' : Station σ} {slot : Fin maxChannels}

/-! ## Channels that stay -/

/-- A channel stays in use, under its name and at its address. -/
structure Channel.Keeps (c c' : Channel σ) : Prop where
  live : c'.isLive
  name : c'.name = c.name
  localAddr : c'.localAddr = c.localAddr

/-- If there is a channel in a slot it stays there. -/
def Station.Keeps (slot : Fin maxChannels) (s s' : Station σ) : Prop :=
  (s.channel slot).isLive → (s.channel slot).Keeps (s'.channel slot)

namespace Station.Keeps

theorem of_same (same : s'.mux.channels = s.mux.channels) : Station.Keeps slot s s' := by
  intro live
  rw [Station.channel, Station.channel, same]
  exact ⟨live, rfl, rfl⟩

theorem trans (h : Station.Keeps slot s s') (h' : Station.Keeps slot s' s'') :
    Station.Keeps slot s s'' := by
  intro live
  obtain ⟨live', name, localAddr⟩ := h live
  obtain ⟨live'', name', localAddr'⟩ := h' live'
  exact ⟨live'', name'.trans name, localAddr'.trans localAddr⟩

/-- A channel is entered where there was none. -/
theorem entered {free : Fin maxChannels} (found : s.freeSlot? = some free) (name : String)
    (handler : Handler σ) : Station.Keeps slot s (s.entered free name handler) := by
  intro live
  have unused : (s.channel free).state = .unused :=
    of_decide_eq_true (findFinIdx?_eq_some_iff.mp found).1
  have other : free ≠ slot := by
    rintro rfl
    rw [Channel.isLive, unused] at live
    cases live
  have same : (s.entered free name handler).channel slot = s.channel slot :=
    Station.channel_set.trans (if_neg other)
  rw [same]
  exact ⟨live, rfl, rfl⟩

/-- A channel that a packet is given to comes up, and stays what it is. -/
theorem told (addressee : Fin maxChannels) (remote : UInt32) (app : σ) :
    Station.Keeps slot s (s.told addressee remote app) := by
  intro live
  have channel : (s.told addressee remote app).channel slot =
      if addressee = slot then { s.channel addressee with remoteAddr := remote, state := .up }
      else s.channel slot := Station.channel_set
  rw [channel]
  split
  case isTrue here =>
    subst here
    exact ⟨rfl, rfl, rfl⟩
  case isFalse => exact ⟨live, rfl, rfl⟩

end Station.Keeps

open Station (Keeps)

theorem Sends.keeps {messages : List Message} (h : Sends s messages s') : Keeps slot s s' :=
  .of_same (by rw [h.mux])

theorem Handled.keeps {idx : UInt16} {delivery : Option Delivery} (placed : s.cores.Placed)
    (h : Handled s idx delivery s') : Keeps slot s s' := by
  cases h with
  | dropped refused => exact .of_same rfl
  | @delivered addressee header data replies app _ accepted handled answered =>
    rw [← s.cores_peek_told idx addressee header.src app] at placed
    have peeked : Keeps slot s (s.perform (s.peekEvents idx)) := .of_same rfl
    exact (peeked.trans (.told addressee header.src app)).trans
      (Firmware.sendBack_eq_ok placed answered).keeps

theorem Drains.keeps {log : List (UInt16 × Option Delivery)} (placed : s.cores.Placed)
    (h : Drains s log s') : Keeps slot s s' := by
  induction h with
  | empty next => exact .of_same rfl
  | @packet s s₁ s' idx delivery log next handled later ih =>
    have placed₁ := Station.placed_advanced placed
    have taken : Keeps slot s s.advanced := .of_same rfl
    have back : Keeps slot s₁ (s₁.handBack idx) := .of_same rfl
    exact ((taken.trans (handled.keeps placed₁)).trans back).trans
      (ih (handled.placed_handBack placed₁))

theorem Polled.keeps {log : List (UInt16 × Option Delivery)} {b : Bool} (placed : s.cores.Placed)
    (h : Polled s log b s') : Keeps slot s s' := by
  cases h with
  | idle none => exact .of_same rfl
  | @woken k log s' kick drains =>
    have woken : Keeps slot s (s.woken k) := .of_same rfl
    exact woken.trans (drains.keeps (Station.placed_woken placed k))

theorem Called.keeps {messages : List Message} (placed : s.cores.Placed) (h : Called s messages s') :
    Keeps slot s s' := by
  cases h with
  | @created name handler _ _ run =>
    rcases createChannel_cases placed run with ⟨free, found, -, sends⟩ | ⟨-, refused, -⟩
    · exact (Keeps.entered found name handler).trans sends.keeps
    · cases refused
  | refused run =>
    rcases createChannel_cases placed run with ⟨free, -, answered, -⟩ | ⟨-, -, rfl⟩
    · cases answered
    · exact .of_same rfl
  | sent run => exact (Firmware.send_eq_ok placed run).keeps
  | polled run went => exact went.keeps placed

/-- A channel stays where it is over a session. -/
theorem Session.keeps {start : Station σ} {acts : List Act} {said : List Message}
    (h : Session start acts said s) (placed : start.cores.Placed) : Keeps slot start s := by
  induction h with
  | start => exact .of_same rfl
  | call before called path sends ih => exact ih.trans (called.keeps (before.path.1.placed placed))
  | peer before run path own ih => exact ih.trans (.of_same rfl)
  | plan before schedule ih => exact ih.trans (.of_same rfl)

/-- The channel as it is when the call that creates it returns. -/
theorem Firmware.channel_created {name : String} {handler : Handler σ} (placed : s.cores.Placed)
    (run : createChannel name handler s = .ok (.ok slot, s')) :
    s'.channel slot =
      { localAddr := s.mux.nextAddr, state := .announced, name := .ofText name, handler } := by
  rcases createChannel_cases placed run with ⟨free, -, answered, sends⟩ | ⟨-, refused, -⟩
  · cases answered
    have same : s'.channel slot = (s.entered slot name handler).channel slot := by
      rw [Station.channel, Station.channel, sends.mux]
    rw [same]
    exact Station.channel_set.trans (if_pos rfl)
  · cases refused

/-! ## What the peer is told -/

theorem mailIn_append (acts later : List Act) : mailIn (acts ++ later) = mailIn acts ++ mailIn later := by
  rw [mailIn, collectedTx, List.filterMap_append, List.filter_append]
  rfl

/-- Where there are more messages in what was collected, the next one was collected at some time. -/
theorem exists_collected {acts : List Act} {k : Nat} (more : k < (mailIn acts).length) :
    ∃ before x after, acts = before ++ [.collectedTx x] ++ after ∧ x.len = UInt32.ofNat maxLen ∧
      (mailIn before).length = k := by
  induction acts using List.reverseRecOn with
  | nil => cases more
  | append_singleton acts act ih =>
    by_cases earlier : k < (mailIn acts).length
    · obtain ⟨before, x, after, rfl, full, count⟩ := ih earlier
      exact ⟨before, x, after ++ [act], (List.append_assoc ..), full, count⟩
    · rw [mailIn_append, List.length_append] at more
      cases act with
      | collectedTx x =>
        by_cases full : x.len = UInt32.ofNat maxLen
        · have one : (mailIn [.collectedTx x]).length = 1 := by simp [mailIn, collectedTx, full]
          exact ⟨acts, x, [], (List.append_nil _).symm, full, by omega⟩
        · have none : (mailIn [.collectedTx x]).length = 0 := by simp [mailIn, collectedTx, full]
          omega
      | _ => exact absurd more earlier

/-- The peer is told of the channel in a slot by the `k`-th message of a history. It has got that
message once it has collected all there is. For as long as it keeps the buffer, and does not write
there, it reads the name and the address of the channel in it. -/
structure MadeKnown (start s : Station σ) (acts : List Act) (k : Nat) (slot : Fin maxChannels) :
    Prop where
  arrives : s.cores.txDriver.nextUsed? s.cores.memory = none →
    ∃ before x after, acts = before ++ [.collectedTx x] ++ after ∧ x.len = UInt32.ofNat maxLen ∧
      (mailIn before).length = k
  reads : ∀ before x after later c, acts = before ++ [.collectedTx x] ++ after ++ later →
    x.len = UInt32.ofNat maxLen → (mailIn before).length = k →
    56 ≤ (start.cores.txBuffer x.id.toUInt16).len.toNat →
    (∀ act ∈ after, act ≠ .offeredTx x.id.toUInt16 ∧
      Cores.LeavesAlone (start.cores.txBuffer x.id.toUInt16) act) →
    Cores.Path start.cores (before ++ [.collectedTx x] ++ after) c →
      ∀ m : Machine, m.bus.memory = c.memory → m.peer.tx = c.txDriver →
        ∃ header data a, Peer.contents x m = .ok (⟨x.id, x.len, some (header, data)⟩, m) ∧
          Announcement.decode data = .ok a ∧ a.name.text = (s.channel slot).name.text ∧
            a.addr = (s.channel slot).localAddr

theorem Session.madeKnown {start : Station σ} {acts : List Act} {said : List Message} {k : Nat}
    {name : String} {addr : UInt32} (ready : start.cores.Ready) (disjoint : start.cores.BuffersApart)
    (session : Session start acts said s) (obeys : Obeys (Cores.txRule start.cores) acts)
    (told : said[k]? = some (Firmware.announcement name addr))
    (named : (s.channel slot).name = .ofText name) (addressed : (s.channel slot).localAddr = addr) :
    MadeKnown start s acts k slot := by
  obtain ⟨whole, sent⟩ := session.path
  refine ⟨?_, ?_⟩
  · intro drained
    apply exists_collected
    rw [(whole.txKept ready obeys).length_mailIn drained, sent]
    exact (List.getElem?_eq_some_iff.mp told).1
  · rintro before x after later c rfl full rfl roomy keeps path m memory driver
    obtain ⟨msg, first, held, inRing⟩ :=
      path.holds_of_collected ready disjoint obeys.init full keeps
    have kept := path.txKept ready obeys.init
    have here : said[(mailIn before).length]? = some msg := by
      have within : (mailIn before).length < (sentIn before).length :=
        (List.getElem?_eq_some_iff.mp first).1
      simp only [sentIn_append, List.append_assoc] at sent
      rw [← sent, List.getElem?_append_left within]
      exact first
    obtain rfl : msg = Firmware.announcement name addr := Option.some.inj (here.symm.trans told)
    have read := held.read (path.placed ready.placed) (kept.num ▸ inRing) memory driver rfl
    rw [kept.buffers _ inRing, Firmware.cutTo_announcement name addr roomy] at read
    have decoded : Announcement.decode (Firmware.announcement name addr).data =
        .ok (Announcement.create name addr) := by
      have behind := (Announcement.create name addr).decode_encode_append []
      rwa [List.append_nil] at behind
    refine ⟨_, _, _, read, decoded, ?_, addressed.symm⟩
    rw [named]
    rfl

/-- The name of a channel is the longest beginning of the text it was created with that has room in
its field, up to a zero character. The machine that cuts the text comes to an end with that field,
and what it reads from there is UTF-8. The call that creates a channel sends one message, in which
the peer is told the name and the address that the channel has, then and ever after. -/
theorem channel_names_agree :
    (∀ text : String, ∃ short, (Name.ofText text).Tells text short) ∧
    ∀ {σ : Type} {start s s' s'' : Station σ} {acts later : List Act} {said said' : List Message}
      {name : String} {handler : Handler σ} {slot : Fin maxChannels},
      start.cores.Ready → start.cores.BuffersApart → Session start acts said s →
      Firmware.createChannel name handler s = .ok (.ok slot, s') → Session s' later said' s'' →
        (s''.channel slot).name = .ofText name ∧
        (∃ more, Cores.Path s.cores more s'.cores ∧
          sentIn more = [Firmware.announcement name s.mux.nextAddr]) ∧
        ∀ more, Cores.Path s.cores more s'.cores →
          sentIn more = [Firmware.announcement name s.mux.nextAddr] →
          Obeys (Cores.txRule start.cores) (acts ++ more ++ later) →
            MadeKnown start s'' (acts ++ more ++ later) said.length slot := by
  refine ⟨fun text => ⟨_, Name.tells_ofText text⟩, ?_⟩
  intro σ start s s' s'' acts later said said' name handler slot ready disjoint session run after
  have placed := session.path.1.placed ready.placed
  have called : Called s [Firmware.announcement name s.mux.nextAddr] s' := .created run
  have channel := Firmware.channel_created placed run
  have live : (s'.channel slot).isLive := by
    rw [channel]
    rfl
  obtain ⟨acts', path', -⟩ := called.path placed
  have stays := after.keeps (path'.placed placed) live
  have named : (s''.channel slot).name = .ofText name := by
    rw [stays.name, channel]
  have addressed : (s''.channel slot).localAddr = s.mux.nextAddr := by
    rw [stays.localAddr, channel]
  refine ⟨named, called.path placed, ?_⟩
  intro more path sends obeys
  have all : Session start (acts ++ more ++ later)
      (said ++ [Firmware.announcement name s.mux.nextAddr] ++ said') s'' :=
    (session.call called path sends).append after
  refine all.madeKnown ready disjoint obeys ?_ named addressed
  rw [List.append_assoc, List.getElem?_append_right (Nat.le_refl _), Nat.sub_self]
  rfl

/-- A name whose last character has two bytes, of which only one has room. -/
def tornName : String :=
  "0123456789012345678901234567890é"

/-- On a link that was set up a channel is created, and the peer collects its announcement. It is
told the name without the last character. -/
theorem channel_names_agree_of_tornName :
    ∃ (start s s' : Station Unit) (bus : Bus) (m : Machine) (slot : Fin maxChannels) (header : Header)
      (data : List UInt8) (a : Announcement),
      twoBuffers.setUp () threePages = .ok (.ok start, bus) ∧
      PeerStep.run (.offerTx 0) start.run.machine = .ok (.nothing, m) ∧
      Firmware.createChannel tornName (fun _ _ app => (.done, app)) (start.withMachine m) =
        .ok (.ok slot, s) ∧
      Session s [.collectedTx ⟨0, 512⟩] [] s' ∧
      Peer.contents ⟨0, 512⟩ s'.run.machine = .ok (⟨0, 512, some (header, data)⟩, s'.run.machine) ∧
      Announcement.decode data = .ok a ∧ a.name.text = "0123456789012345678901234567890" ∧
      a.addr = 0x50 := by
  obtain ⟨start, bus, run, starts⟩ := fits_threePages.setUp ()
  have fresh := starts.fresh
  obtain ⟨m, slot, s, first⟩ :=
    Firmware.announce_first starts tornName (fun _ _ app => (.done, app)) (by decide)
  obtain ⟨m', mail⟩ := first.collect starts
  have addr : (start.withMachine m).mux.nextAddr = firstLocalAddr := starts.mux.nextAddr
  obtain ⟨-, created_known⟩ := channel_names_agree
  obtain ⟨named, -, known⟩ :=
    created_known fresh.ready fresh.disjoint mail.offered first.created mail.collected
  rw [addr] at known
  have madeKnown := known [.sent 0 _] (.single first.sent) rfl mail.obeys
  have roomy : 56 ≤ (start.cores.txBuffer 0).len.toNat := by
    rw [(fresh.writable 0 (by decide)).1]
    decide
  obtain ⟨header, data, a, read, decoded, name, address⟩ :=
    madeKnown.reads [.offeredTx 0, .sent 0 _] ⟨0, 512⟩ [] [] (s.withMachine m').cores rfl rfl rfl roomy
      (fun _ mem => absurd mem List.not_mem_nil)
      (mail.sent.append mail.collected).path.1 m' rfl rfl
  refine ⟨start, s, s.withMachine m', bus, m, slot, header, data, a, run, first.offered, first.created,
    mail.collected, read, decoded, ?_, ?_⟩
  · rw [name, named, Name.text_ofText]
    decide
  · have channel := Firmware.channel_created (mail.offered.path.1.placed fresh.ready.placed) first.created
    have same : (s.withMachine m').channel slot = s.channel slot := rfl
    rw [address, same, channel, addr]
    rfl

end InterCore.Link
