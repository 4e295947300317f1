import InterCore.Proofs.Link.Completion

/-!
# The channel table

Channels are created from the first slot on and get the addresses in order. After that a slot
changes only when a packet is given to its channel, and then only in how far it has come and in the
address at the other end. So the whole table can be told from what has happened (`Tabulates`): which
channels were created, and which packets were delivered.
-/

namespace InterCore.Link

open InterCore.Packet (Header anyAddr)

variable {σ : Type}

/-! ## What changes the table -/

/-- Something that changes the channel table. -/
inductive Deed where
  | created (name : String)
  | delivered (d : Delivery)
  deriving DecidableEq

namespace Deed

/-- The name of the channel that was created. -/
def name? : Deed → Option String
  | created name => some name
  | delivered _ => none

/-- The sender of the packet that was delivered to a slot. -/
def source? (slot : Fin maxChannels) : Deed → Option UInt32
  | created _ => none
  | delivered d => if d.slot = slot then some d.ends.remoteAddr else none

end Deed

/-- The names of the channels that were created, in order. -/
def namesIn (deeds : List Deed) : List String :=
  deeds.filterMap Deed.name?

/-- The sender of the last packet that was delivered to a slot. -/
def lastSource? (slot : Fin maxChannels) (deeds : List Deed) : Option UInt32 :=
  (deeds.filterMap (Deed.source? slot)).getLast?

/-- What a poll does to the table. -/
def deliveriesIn (log : List (UInt16 × Option Delivery)) : List Deed :=
  log.flatMap fun entry => entry.2.toList.map .delivered

/-- A call of the firmware that returned, or a step of the peer, with what it did to the table. -/
inductive Happens (s : Station σ) : List Deed → Station σ → Prop where
  | created {name : String} {handler : Handler σ} {slot : Fin maxChannels} {s' : Station σ}
      (run : Firmware.createChannel name handler s = .ok (.ok slot, s')) :
      Happens s [.created name] s'
  | refused {name : String} {handler : Handler σ} {e : Error} {s' : Station σ}
      (run : Firmware.createChannel name handler s = .ok (.error e, s')) : Happens s [] s'
  | sent {handle : Nat} {data : List UInt8} {s' : Station σ}
      (run : Firmware.sendAt handle data s = .ok ((), s')) : Happens s [] s'
  | polled {log : List (UInt16 × Option Delivery)} {b : Bool} {s' : Station σ}
      (run : Firmware.poll s = .ok (b, s')) (went : Polled s log b s') :
      Happens s (deliveriesIn log) s'
  | peer {step : PeerStep} {outcome : PeerOutcome} {m : Machine}
      (run : step.run s.run.machine = .ok (outcome, m)) : Happens s [] (s.withMachine m)
  | plan (schedule : List (List PeerStep)) : Happens s [] (s.withSchedule schedule)

/-- Calls of the firmware and steps of the peer one after the other, with what they did to the
table. -/
inductive History (start : Station σ) : List Deed → Station σ → Prop where
  | start : History start [] start
  | next {deeds more : List Deed} {s s' : Station σ} (before : History start deeds s)
      (happens : Happens s more s') : History start (deeds ++ more) s'

/-! ## The table told from the deeds -/

namespace Station

/-- The channel in a slot of the table. -/
def channel (s : Station σ) (slot : Fin maxChannels) : Channel σ :=
  s.mux.channels.get slot

end Station

/-- The address of the channel in a slot. -/
def slotAddr (slot : Nat) : UInt32 :=
  firstLocalAddr + UInt32.ofNat slot

/-- The channel table is what the deeds have made of it. -/
structure Tabulates (deeds : List Deed) (s : Station σ) : Prop where
  fits : (namesIn deeds).length ≤ maxChannels
  nextAddr : s.mux.nextAddr = slotAddr (namesIn deeds).length
  /-- A channel that was created has its name and its address. -/
  created : ∀ (slot : Fin maxChannels) name, (namesIn deeds)[slot.val]? = some name →
    (s.channel slot).name = .ofText name ∧ (s.channel slot).localAddr = slotAddr slot
  /-- It is announced until a packet is delivered to it. -/
  announced : ∀ slot : Fin maxChannels, slot.val < (namesIn deeds).length →
    lastSource? slot deeds = none →
      (s.channel slot).state = .announced ∧ (s.channel slot).remoteAddr = anyAddr
  /-- From then on it is up, and knows who sent the last one. -/
  up : ∀ (slot : Fin maxChannels) source, lastSource? slot deeds = some source →
    (s.channel slot).state = .up ∧ (s.channel slot).remoteAddr = source
  /-- Nothing has happened to the other slots. -/
  unused : ∀ slot : Fin maxChannels, (namesIn deeds).length ≤ slot.val →
    (s.channel slot).state = .unused ∧ lastSource? slot deeds = none

section Deeds

variable {deeds : List Deed} {slot : Fin maxChannels}

@[simp]
theorem namesIn_append (deeds more : List Deed) :
    namesIn (deeds ++ more) = namesIn deeds ++ namesIn more :=
  List.filterMap_append

@[simp]
theorem namesIn_created (name : String) : namesIn [.created name] = [name] := rfl

@[simp]
theorem namesIn_delivered (d : Delivery) : namesIn [.delivered d] = [] := rfl

@[simp]
theorem lastSource?_created (name : String) :
    lastSource? slot (deeds ++ [.created name]) = lastSource? slot deeds := by
  simp [lastSource?, Deed.source?]

theorem lastSource?_delivered (d : Delivery) : lastSource? slot (deeds ++ [.delivered d]) =
    if d.slot = slot then some d.ends.remoteAddr else lastSource? slot deeds := by
  split <;> simp [lastSource?, Deed.source?, *]

end Deeds

/-- The addresses of the slots are different. -/
theorem slotAddr_inj {i j : Fin maxChannels} (h : slotAddr i = slotAddr j) : i = j := by
  revert i j
  decide

theorem slotAddr_succ (n : Nat) : slotAddr n + 1 = slotAddr (n + 1) := by
  rw [slotAddr, slotAddr, UInt32.ofNat_add, UInt32.add_assoc]
  rfl

theorem Station.channel_set {s : Station σ} {i j : Fin maxChannels} {c : Channel σ} :
    (s.mux.channels.set i c i.isLt).get j = if i = j then c else s.channel j := by
  show (s.mux.channels.set i c i.isLt)[j.val] = _
  by_cases here : i = j
  · subst here
    rw [Vector.getElem_set_self, if_pos rfl]
  · rw [Vector.getElem_set_ne _ _ (Fin.val_ne_of_ne here), if_neg here]
    rfl

namespace Tabulates

variable {deeds more : List Deed} {s s' : Station σ} {slot : Fin maxChannels}

/-- What leaves the channels and the next address alone leaves the table. -/
theorem of_same (h : Tabulates deeds s) (channels : s'.mux.channels = s.mux.channels)
    (nextAddr : s'.mux.nextAddr = s.mux.nextAddr) : Tabulates deeds s' := by
  have same : s'.channel = s.channel := by
    funext slot
    rw [Station.channel, Station.channel, channels]
  obtain ⟨fits, next, created, announced, up, unused⟩ := h
  rw [← same] at created announced up unused
  exact ⟨fits, nextAddr.trans next, created, announced, up, unused⟩

theorem sends {messages : List Message} (h : Tabulates deeds s) (sends : Sends s messages s') :
    Tabulates deeds s' := by
  refine h.of_same ?_ ?_
  all_goals rw [sends.mux]

/-- The slots in use are the first ones. -/
theorem used_iff (h : Tabulates deeds s) :
    (s.channel slot).state ≠ .unused ↔ slot.val < (namesIn deeds).length := by
  constructor
  · intro used
    by_contra beyond
    exact used (h.unused slot (Nat.le_of_not_lt beyond)).1
  · intro before unused
    cases last : lastSource? slot deeds with
    | none =>
      rw [(h.announced slot before last).1] at unused
      cases unused
    | some source =>
      rw [(h.up slot source last).1] at unused
      cases unused

theorem isLive_iff (h : Tabulates deeds s) :
    (s.channel slot).isLive ↔ slot.val < (namesIn deeds).length := by
  rw [← h.used_iff, Channel.isLive, bne_iff_ne]

theorem localAddr (h : Tabulates deeds s) (before : slot.val < (namesIn deeds).length) :
    (s.channel slot).localAddr = slotAddr slot :=
  (h.created slot _ (List.getElem?_eq_getElem before)).2

/-- A destination belongs to the slot that was given this address. -/
theorem recipient?_eq_some (h : Tabulates deeds s) {dst : UInt32} :
    s.recipient? dst = some slot ↔ slot.val < (namesIn deeds).length ∧ dst = slotAddr slot := by
  have asks (i : Fin maxChannels) :
      ((s.channel i).isLive && (s.channel i).localAddr == dst) = true ↔
        i.val < (namesIn deeds).length ∧ dst = slotAddr i := by
    rw [Bool.and_eq_true, h.isLive_iff, beq_iff_eq]
    constructor
    · rintro ⟨before, rfl⟩
      exact ⟨before, h.localAddr before⟩
    · rintro ⟨before, rfl⟩
      exact ⟨before, h.localAddr before⟩
  have first : s.recipient? dst = some slot ↔ _ := findFinIdx?_eq_some_iff
  refine first.trans ⟨fun found => (asks slot).mp found.1, fun found => ⟨(asks slot).mpr found, ?_⟩⟩
  intro i earlier
  by_contra other
  have same := (asks i).mp (eq_true_of_ne_false other)
  exact absurd (slotAddr_inj (same.2.symm.trans found.2)) (Fin.ne_of_lt earlier)

/-- The next channel gets the first slot that was not given away. -/
theorem freeSlot?_eq_some (h : Tabulates deeds s) (free : s.freeSlot? = some slot) :
    slot.val = (namesIn deeds).length := by
  obtain ⟨unused, before⟩ := findFinIdx?_eq_some_iff.mp free
  have unused : (s.channel slot).state = .unused := of_decide_eq_true unused
  have beyond : (namesIn deeds).length ≤ slot.val := by
    by_contra before
    exact h.used_iff.mpr (Nat.lt_of_not_le before) unused
  by_contra other
  let first : Fin maxChannels := ⟨(namesIn deeds).length, by omega⟩
  have used := before first (Fin.lt_def.mpr (by show (namesIn deeds).length < slot.val; omega))
  exact of_decide_eq_false used (h.unused first (Nat.le_refl _)).1

/-- A slot is refused only when all are in use. -/
theorem freeSlot?_eq_none (h : Tabulates deeds s) :
    s.freeSlot? = none ↔ (namesIn deeds).length = maxChannels := by
  have fits := h.fits
  constructor
  · intro full
    by_contra room
    let first : Fin maxChannels := ⟨(namesIn deeds).length, by omega⟩
    have used := findFinIdx?_eq_none_iff.mp full first
    exact of_decide_eq_false used (h.unused first (Nat.le_refl _)).1
  · intro full
    cases free : s.freeSlot? with
    | none => rfl
    | some slot =>
      have here := h.freeSlot?_eq_some free
      have bound := slot.isLt
      omega

/-- A channel is entered in the slot behind the last one. -/
theorem entered (h : Tabulates deeds s) (free : s.freeSlot? = some slot) (name : String)
    (handler : Handler σ) :
    Tabulates (deeds ++ [.created name]) (s.entered slot name handler) := by
  have here := h.freeSlot?_eq_some free
  have unheard := (h.unused slot (Nat.le_of_eq here.symm)).2
  have channel (i : Fin maxChannels) : (s.entered slot name handler).channel i =
      if slot = i then { localAddr := s.mux.nextAddr, state := .announced, name := .ofText name, handler }
      else s.channel i := Station.channel_set
  have bound := slot.isLt
  constructor
  case fits =>
    rw [namesIn_append, List.length_append]
    show _ + 1 ≤ _
    omega
  case nextAddr =>
    show s.mux.nextAddr + 1 = _
    rw [h.nextAddr, namesIn_append, List.length_append]
    exact slotAddr_succ _
  case created =>
    intro i name' found
    rw [namesIn_append, namesIn_created] at found
    rw [channel]
    by_cases now : slot = i
    · subst now
      rw [here, List.getElem?_concat_length] at found
      cases found
      rw [if_pos rfl]
      exact ⟨rfl, by rw [h.nextAddr, here]⟩
    · have other := Fin.val_ne_of_ne now
      obtain ⟨inRange, -⟩ := List.getElem?_eq_some_iff.mp found
      rw [List.length_append, List.length_singleton] at inRange
      rw [List.getElem?_append_left (by omega)] at found
      rw [if_neg now]
      exact h.created i name' found
  case announced =>
    intro i before unheard
    rw [namesIn_append, List.length_append, namesIn_created, List.length_singleton] at before
    rw [lastSource?_created] at unheard
    rw [channel]
    by_cases now : slot = i
    · rw [if_pos now]
      exact ⟨rfl, rfl⟩
    · have other := Fin.val_ne_of_ne now
      rw [if_neg now]
      exact h.announced i (by omega) unheard
  case up =>
    intro i source last
    rw [lastSource?_created] at last
    have now : slot ≠ i := by
      rintro rfl
      rw [unheard] at last
      cases last
    rw [channel, if_neg now]
    exact h.up i source last
  case unused =>
    intro i beyond
    rw [namesIn_append, List.length_append, namesIn_created, List.length_singleton] at beyond
    have now : slot ≠ i := by
      rintro rfl
      omega
    rw [channel, if_neg now, lastSource?_created]
    exact h.unused i (by omega)

/-- A channel that a packet is given to comes up. -/
theorem told (h : Tabulates deeds s) {d : Delivery} (live : (s.channel d.slot).isLive) (app : σ) :
    Tabulates (deeds ++ [.delivered d]) (s.told d.slot d.ends.remoteAddr app) := by
  have before := h.isLive_iff.mp live
  have channel (i : Fin maxChannels) : (s.told d.slot d.ends.remoteAddr app).channel i =
      if d.slot = i then { s.channel d.slot with remoteAddr := d.ends.remoteAddr, state := .up }
      else s.channel i := Station.channel_set
  have names : namesIn (deeds ++ [.delivered d]) = namesIn deeds := by simp
  constructor
  case fits => rw [names]; exact h.fits
  case nextAddr => rw [names]; exact h.nextAddr
  case created =>
    intro i name found
    rw [names] at found
    rw [channel]
    split
    case isTrue now =>
      subst now
      exact h.created _ name found
    case isFalse => exact h.created i name found
  case announced =>
    intro i inUse unheard
    rw [names] at inUse
    rw [lastSource?_delivered] at unheard
    split at unheard
    case isTrue => cases unheard
    case isFalse other =>
      rw [channel, if_neg other]
      exact h.announced i inUse unheard
  case up =>
    intro i source last
    rw [lastSource?_delivered] at last
    rw [channel]
    split
    case isTrue now =>
      rw [if_pos now] at last
      cases last
      exact ⟨rfl, rfl⟩
    case isFalse other =>
      rw [if_neg other] at last
      exact h.up i source last
  case unused =>
    intro i beyond
    rw [names] at beyond
    have other : d.slot ≠ i := by
      rintro rfl
      omega
    rw [channel, if_neg other, lastSource?_delivered, if_neg other]
    exact h.unused i beyond

end Tabulates

/-! ## The table at the start -/

theorem Multiplexer.Fresh.tabulates {s : Station σ} (h : s.mux.Fresh) : Tabulates [] s := by
  refine ⟨Nat.zero_le _, ?_, ?_, ?_, ?_, ?_⟩
  · rw [h.nextAddr]
    rfl
  · intro slot name found
    cases found
  · intro slot before
    cases before
  · intro slot source last
    cases last
  · intro slot beyond
    refine ⟨?_, rfl⟩
    rw [Station.channel, h.channels]
    show ((Vector.replicate maxChannels ({} : Channel σ))[slot.val]).state = _
    rw [Vector.getElem_replicate]

/-! ## What happens keeps the account -/

section Happenings

variable {deeds more : List Deed} {s s' : Station σ} {idx : UInt16} {delivery : Option Delivery}

theorem Handled.tabulates (placed : s.cores.Placed) (table : Tabulates deeds s)
    (h : Handled s idx delivery s') : Tabulates (deeds ++ delivery.toList.map .delivered) s' := by
  cases h with
  | dropped refused =>
    rw [Option.toList_none, List.map_nil, List.append_nil]
    exact table.of_same rfl rfl
  | @delivered slot header data replies app _ accepted handled answered =>
    let peeked := s.perform (s.peekEvents idx)
    let d : Delivery := ⟨slot, ⟨header.dst, header.src⟩, data, replies.toList⟩
    have live : (peeked.channel d.slot).isLive := accepted.live
    have told : Tabulates (deeds ++ [.delivered d]) (peeked.told slot header.src app) :=
      Tabulates.told (s := peeked) (table.of_same rfl rfl) live app
    rw [← s.cores_peek_told idx slot header.src app] at placed
    exact told.sends (Firmware.sendBack_eq_ok placed answered)

theorem Drains.tabulates {log : List (UInt16 × Option Delivery)} (placed : s.cores.Placed)
    (table : Tabulates deeds s) (h : Drains s log s') : Tabulates (deeds ++ deliveriesIn log) s' := by
  induction h generalizing deeds with
  | empty next =>
    show Tabulates (deeds ++ []) _
    rwa [List.append_nil]
  | @packet s s₁ s' idx delivery log next handled later ih =>
    have placed₁ := Station.placed_advanced placed
    have one : Tabulates (deeds ++ delivery.toList.map .delivered) s₁ :=
      handled.tabulates placed₁ (table.of_same rfl rfl)
    have back : Tabulates _ (s₁.handBack idx) := one.of_same rfl rfl
    have all := ih (handled.placed_handBack placed₁) back
    rwa [List.append_assoc] at all

/-- A send on a handle is a send on a channel, or nothing. -/
theorem sendAt_eq_ok {handle : Nat} {data : List UInt8} (placed : s.cores.Placed)
    (run : Firmware.sendAt handle data s = .ok ((), s')) : ∃ messages, Sends s messages s' := by
  rw [Firmware.sendAt] at run
  split at run
  case isTrue => exact ⟨_, Firmware.send_eq_ok placed run⟩
  case isFalse =>
    cases run
    exact ⟨[], .refl s⟩

/-- A channel is created in the first slot that is free, and refused where there is none. -/
theorem createChannel_cases {name : String} {handler : Handler σ} {answer : Answer (Fin maxChannels)}
    (placed : s.cores.Placed) (run : Firmware.createChannel name handler s = .ok (answer, s')) :
    (∃ slot, s.freeSlot? = some slot ∧ answer = .ok slot ∧
      Sends (s.entered slot name handler) [Firmware.announcement name s.mux.nextAddr] s') ∨
    s.freeSlot? = none ∧ answer = .error .resourceExhausted ∧ s' = s := by
  cases free : s.freeSlot? with
  | none =>
    rw [Firmware.createChannel_full free] at run
    cases run
    exact .inr ⟨rfl, rfl, rfl⟩
  | some slot =>
    obtain ⟨answered, sends⟩ := Firmware.createChannel_eq_ok placed free run
    exact .inl ⟨slot, rfl, answered, sends⟩

/-- To the link all that happens is a path. -/
theorem Happens.path (placed : s.cores.Placed) (h : Happens s more s') :
    ∃ acts, Cores.Path s.cores acts s'.cores := by
  cases h with
  | created run =>
    obtain ⟨acts, path, -⟩ := (Called.created run).path placed
    exact ⟨acts, path⟩
  | refused run =>
    obtain ⟨acts, path, -⟩ := (Called.refused run).path placed
    exact ⟨acts, path⟩
  | sent run =>
    obtain ⟨messages, sends⟩ := sendAt_eq_ok placed run
    obtain ⟨acts, path, -⟩ := sends.path
    exact ⟨acts, path⟩
  | polled run went =>
    obtain ⟨acts, path, -⟩ := went.path placed
    exact ⟨acts, path⟩
  | @peer step outcome m run =>
    obtain ⟨acts, path, -⟩ := step.byPeer_run s.mux.tx s.mux.rx _ outcome m placed run
    exact ⟨acts, path⟩
  | plan schedule => exact ⟨[], .start⟩

/-- The account is kept by every call that returns and every step of the peer. -/
theorem Happens.tabulates (placed : s.cores.Placed) (table : Tabulates deeds s)
    (h : Happens s more s') : Tabulates (deeds ++ more) s' := by
  cases h with
  | @created name handler slot _ run =>
    rcases createChannel_cases placed run with ⟨slot', free, same, sends⟩ | ⟨-, refused, -⟩
    · exact (table.entered free name handler).sends sends
    · cases refused
  | refused run =>
    rcases createChannel_cases placed run with ⟨slot', -, same, -⟩ | ⟨-, -, rfl⟩
    · cases same
    · rwa [List.append_nil]
  | sent run =>
    obtain ⟨messages, sends⟩ := sendAt_eq_ok placed run
    rw [List.append_nil]
    exact table.sends sends
  | polled run went =>
    cases went with
    | idle none =>
      show Tabulates (deeds ++ []) _
      rw [List.append_nil]
      exact table.of_same rfl rfl
    | @woken k log s' kick drains =>
      exact drains.tabulates (Station.placed_woken placed k) (table.of_same rfl rfl)
  | peer run =>
    rw [List.append_nil]
    exact table.of_same rfl rfl
  | plan schedule =>
    rw [List.append_nil]
    exact table.of_same rfl rfl

end Happenings

namespace History

variable {start s s' : Station σ} {deeds : List Deed}

theorem placed (h : History start deeds s) (placed : start.cores.Placed) : s.cores.Placed := by
  induction h with
  | start => exact placed
  | next before happens ih =>
    obtain ⟨acts, path⟩ := happens.path ih
    exact path.placed ih

/-- What a history has made of a table in which no channel was created. -/
theorem tabulates (h : History start deeds s) (placed : start.cores.Placed)
    (fresh : start.mux.Fresh) : Tabulates deeds s := by
  induction h with
  | start => exact fresh.tabulates
  | next before happens ih => exact happens.tabulates (before.placed placed) ih

end History

/-! ## How a slot changes -/

/-- From one moment to another a slot moves on by one stage at most, and a channel in use keeps its
name and its address. -/
structure Channel.Advances (c c' : Channel σ) : Prop where
  stage : c'.state = c.state ∨ c.state = .unused ∧ c'.state = .announced ∨
    c.state = .announced ∧ c'.state = .up
  name : c.isLive → c'.name = c.name
  localAddr : c.isLive → c'.localAddr = c.localAddr

section Changes

variable {start s s' : Station σ} {deeds more : List Deed} {slot : Fin maxChannels}

theorem lastSource?_append (deeds more : List Deed) :
    lastSource? slot (deeds ++ more) = (lastSource? slot more).or (lastSource? slot deeds) := by
  rw [lastSource?, List.filterMap_append, List.getLast?_append]
  rfl

theorem namesIn_deliveriesIn (log : List (UInt16 × Option Delivery)) :
    namesIn (deliveriesIn log) = [] := by
  apply List.filterMap_eq_nil_iff.mpr
  intro deed mem
  obtain ⟨entry, -, mem⟩ := List.mem_flatMap.mp mem
  obtain ⟨d, -, rfl⟩ := List.mem_map.mp mem
  rfl

/-- A channel is created while no packet is delivered. -/
theorem Happens.apart (h : Happens s more s') :
    namesIn more = [] ∨ lastSource? slot more = none := by
  cases h with
  | created run => exact .inr rfl
  | polled run went => exact .inl (namesIn_deliveriesIn _)
  | _ => exact .inl rfl

theorem Happens.advances (placed : s.cores.Placed) (table : Tabulates deeds s)
    (h : Happens s more s') : (s.channel slot).Advances (s'.channel slot) := by
  have later := h.tabulates placed table
  by_cases live : slot.val < (namesIn deeds).length
  · have still : slot.val < (namesIn (deeds ++ more)).length := by
      rw [namesIn_append, List.length_append]
      omega
    have named := List.getElem?_eq_getElem live
    have named' : (namesIn (deeds ++ more))[slot.val]? = some (namesIn deeds)[slot.val] := by
      rw [namesIn_append, List.getElem?_append_left live, named]
    obtain ⟨name, addr⟩ := table.created slot _ named
    obtain ⟨name', addr'⟩ := later.created slot _ named'
    refine ⟨?_, fun _ => name'.trans name.symm, fun _ => addr'.trans addr.symm⟩
    cases heard : lastSource? slot deeds with
    | some source =>
      obtain ⟨source', heard'⟩ : ∃ source', lastSource? slot (deeds ++ more) = some source' := by
        rw [lastSource?_append, heard]
        cases lastSource? slot more <;> exact ⟨_, rfl⟩
      exact .inl ((later.up slot _ heard').1.trans (table.up slot _ heard).1.symm)
    | none =>
      have before := (table.announced slot live heard).1
      cases heard' : lastSource? slot (deeds ++ more) with
      | none => exact .inl ((later.announced slot still heard').1.trans before.symm)
      | some source => exact .inr (.inr ⟨before, (later.up slot source heard').1⟩)
  · obtain ⟨unused, unheard⟩ := table.unused slot (Nat.le_of_not_lt live)
    have dead : ¬ (s.channel slot).isLive := fun used => live (table.isLive_iff.mp used)
    refine ⟨?_, fun used => absurd used dead, fun used => absurd used dead⟩
    by_cases still : (namesIn (deeds ++ more)).length ≤ slot.val
    · exact .inl ((later.unused slot still).1.trans unused.symm)
    · -- The slot was given away, so that nothing was delivered.
      have quiet : lastSource? slot more = none := by
        have apart : namesIn more = [] ∨ lastSource? slot more = none := h.apart
        refine apart.resolve_left fun none => still ?_
        rw [namesIn_append, none, List.append_nil]
        exact Nat.le_of_not_lt live
      refine .inr (.inl ⟨unused, (later.announced slot (Nat.lt_of_not_le still) ?_).1⟩)
      rw [lastSource?_append, quiet, unheard]
      rfl

/-- A send on a handle of no channel in use does nothing. -/
theorem sendAt_eq_of_unused {handle : Nat}
    (unused : ∀ slot : Fin maxChannels, slot.val = handle → (s.channel slot).state = .unused)
    (data : List UInt8) : Firmware.sendAt handle data s = .ok ((), s) := by
  rw [Firmware.sendAt]
  split
  case isFalse => rfl
  case isTrue inTable =>
    have dead : (s.mux.channels.get ⟨handle, inTable⟩).isLive = false := by
      rw [Channel.isLive, bne_eq_false_iff_eq]
      exact unused ⟨handle, inTable⟩ rfl
    rw [Firmware.send, bind_of_ok (Firmware.get_eq s), if_neg (by rw [dead]; decide)]
    rfl

end Changes

/-! ## The table over a history -/

/-- What is known of the channel table after some deeds. -/
structure TableKnown (deeds : List Deed) (s : Station σ) : Prop where
  table : Tabulates deeds s
  /-- The channels that were created have the first slots. -/
  used : ∀ slot, (s.channel slot).state ≠ .unused ↔ slot.val < (namesIn deeds).length
  /-- The addresses of channels in use are different. -/
  distinct : ∀ i j, (s.channel i).isLive → (s.channel j).isLive →
    (s.channel i).localAddr = (s.channel j).localAddr → i = j
  /-- A destination is that of a slot exactly if it is the address that this slot was given. -/
  recipient : ∀ dst slot, s.recipient? dst = some slot ↔
    slot.val < (namesIn deeds).length ∧ dst = slotAddr slot
  /-- Whatever happens next, a slot moves on by at most one stage. -/
  advances : ∀ more s', Happens s more s' → ∀ slot, (s.channel slot).Advances (s'.channel slot)
  /-- A new channel gets the next slot, unless the table is full. -/
  created : ∀ name handler answer s', Firmware.createChannel name handler s = .ok (answer, s') →
    (∃ slot, answer = .ok slot ∧ slot.val = (namesIn deeds).length) ∨
      (namesIn deeds).length = maxChannels
  /-- If it is full, a channel is refused and nothing changes. -/
  full : (namesIn deeds).length = maxChannels → ∀ name handler,
    Firmware.createChannel name handler s = .ok (.error .resourceExhausted, s)
  /-- Nothing changes either by a send on a handle of no channel. -/
  unheld : ∀ handle data, (∀ slot : Fin maxChannels, slot.val = handle →
    (s.channel slot).state = .unused) → Firmware.sendAt handle data s = .ok ((), s)

theorem Tabulates.known {s : Station σ} {deeds : List Deed} (table : Tabulates deeds s)
    (placed : s.cores.Placed) : TableKnown deeds s where
  table := table
  used _ := table.used_iff
  distinct i j live live' same := by
    rw [table.localAddr (table.isLive_iff.mp live), table.localAddr (table.isLive_iff.mp live')] at same
    exact slotAddr_inj same
  recipient _ _ := table.recipient?_eq_some
  advances _ _ happens _ := happens.advances placed table
  created name handler answer s' run := by
    rcases createChannel_cases placed run with ⟨slot, free, answered, -⟩ | ⟨full, -⟩
    · exact .inl ⟨slot, answered, table.freeSlot?_eq_some free⟩
    · exact .inr (table.freeSlot?_eq_none.mp full)
  full whole _ _ := Firmware.createChannel_full (table.freeSlot?_eq_none.mpr whole)
  unheld _ data unused := sendAt_eq_of_unused unused data

/-- A history goes on with every call of the firmware that returns and with every step of the
peer. -/
structure History.GoesOn (start : Station σ) (deeds : List Deed) (s : Station σ) : Prop where
  created : ∀ name handler slot s', Firmware.createChannel name handler s = .ok (.ok slot, s') →
    History start (deeds ++ [.created name]) s'
  refused : ∀ name handler e s', Firmware.createChannel name handler s = .ok (.error e, s') →
    History start deeds s'
  sent : ∀ handle data s', Firmware.sendAt handle data s = .ok ((), s') → History start deeds s'
  polled : ∀ b s', Firmware.poll s = .ok (b, s') →
    ∃ log, Polled s log b s' ∧ History start (deeds ++ deliveriesIn log) s'
  peer : ∀ step outcome m, PeerStep.run step s.run.machine = .ok (outcome, m) →
    History start deeds (s.withMachine m)
  plan : ∀ schedule, History start deeds (s.withSchedule schedule)

theorem History.goesOn {start s : Station σ} {deeds : List Deed} (h : History start deeds s)
    (placed : start.cores.Placed) : History.GoesOn start deeds s := by
  have quiet {s' : Station σ} (happens : Happens s [] s') : History start deeds s' := by
    have later := h.next happens
    rwa [List.append_nil] at later
  refine ⟨fun _ _ _ _ run => h.next (.created run), fun _ _ _ _ run => quiet (.refused run),
    fun _ _ _ run => quiet (.sent run), ?polled, fun _ _ _ run => quiet (.peer run),
    fun schedule => quiet (.plan schedule)⟩
  case polled =>
    intro b s' run
    obtain ⟨log, went⟩ := Firmware.poll_eq_ok (h.placed placed) run
    exact ⟨log, went, h.next (.polled run went)⟩

/-- The firmware starts with a fresh table, as it has whenever it has attached itself to its rings.
After every history the table is what was done to it, with all that follows from that
(`TableKnown`): the channels that were created have the first slots and different addresses, a
destination is that of at most one of them, a slot moves on by at most one stage, and a channel is
refused exactly if the table is full, which changes nothing. Every call that returns, and every step
of the peer, goes on with the history. -/
theorem channel_table_over_history {start s : Station σ} {deeds : List Deed}
    (placed : start.cores.Placed) (fresh : start.mux.Fresh) (h : History start deeds s) :
    TableKnown deeds s ∧ History.GoesOn start deeds s ∧
      ∀ placement bus bus' (mux : Multiplexer σ),
        Multiplexer.attach placement bus = .ok (.ok mux, bus') → mux.Fresh := by
  refine ⟨(h.tabulates placed fresh).known (h.placed placed), h.goesOn placed, ?_⟩
  intro placement bus bus' mux attached
  exact Multiplexer.fresh_attach attached

/-- On a link that was set up a channel is announced, and stands in the first slot. -/
theorem channel_table_after_announcement :
    ∃ (start s : Station Unit) (bus : Bus), twoBuffers.setUp () threePages = .ok (.ok start, bus) ∧
      History start [.created "log"] s ∧ Tabulates [.created "log"] s ∧
        s.recipient? 0x50 = some ⟨0, by decide⟩ := by
  obtain ⟨start, bus, run, starts⟩ := fits_threePages.setUp ()
  obtain ⟨m, slot, s, first⟩ :=
    Firmware.announce_first starts "log" (fun _ _ app => (.done, app)) (by decide)
  have placed := starts.fresh.ready.placed
  have history : History start [.created "log"] s :=
    (History.start.next (.peer first.offered)).next (.created first.created)
  obtain ⟨known, -⟩ := channel_table_over_history placed starts.mux history
  exact ⟨start, s, bus, run, history, known.table, (known.recipient _ _).mpr ⟨by decide, rfl⟩⟩

end InterCore.Link
