import InterCore.Packet.Header
import InterCore.Proofs.Ring.Events

/-!
# What is written back

On a machine whose caches are not coherent the other core sees what was written only once it is
flushed. A journal is `Tidy` if nothing is dirty at its end, and nothing was dirty at any kick in
it: each write has been followed by a flush of the packet or of the ring that it belongs to.
Journals that are tidy can be put one after the other.
-/

namespace InterCore

theorem Bus.trace_after (bus : Bus) (es : List Event) : (bus.after es).trace = bus.trace ++ es := by
  induction es generalizing bus with
  | nil => exact (List.append_nil _).symm
  | cons e es ih =>
    rw [after_cons, ih]
    show (e :: bus.journal).reverse ++ es = _
    rw [List.reverse_cons, List.append_assoc]
    rfl

namespace Ring

open InterCore.Packet (Header)
open LittleEndian (encode16 encode32)

/-- The range that is to be flushed for a write, given what comes after it: header and payload of a
packet together, or all of one of two rings. -/
inductive Range (tx rx : Layout) (later : List Event) :
    (addr : Nat) → (bytes : List UInt8) → (start len : Nat) → Prop where
  | header {addr : Nat} {bytes payload : List UInt8} (size : bytes.length = Header.size)
      (behind : .write (addr + Header.size) payload ∈ later) :
      Range tx rx later addr bytes addr (Header.size + payload.length)
  | payload {start : Nat} {bytes : List UInt8} :
      Range tx rx later (start + Header.size) bytes start (Header.size + bytes.length)
  | ring {l : Layout} {addr : Nat} {bytes : List UInt8} (which : l = tx ∨ l = rx)
      (inside : (Event.write addr bytes).Inside l.base.toNat l.ringEnd) :
      Range tx rx later addr bytes l.base.toNat l.len

/-- The range of a write is flushed later on, and no byte of the write is outside it. -/
structure WrittenBack (tx rx : Layout) (addr : Nat) (bytes : List UInt8) (later : List Event)
    (start len : Nat) : Prop where
  range : Range tx rx later addr bytes start len
  flush : .flush start len ∈ later
  lower : start ≤ addr
  upper : addr + bytes.length ≤ start + len

/-- Every write is written back. -/
def Flushed (tx rx : Layout) : List Event → Prop
  | [] => True
  | .write addr bytes :: later =>
    (∃ start len, WrittenBack tx rx addr bytes later start len) ∧ Flushed tx rx later
  | _ :: later => Flushed tx rx later

/-- Nothing is dirty at the end, and nothing was dirty at a kick. -/
structure Tidy (tx rx : Layout) (es : List Event) : Prop where
  flushed : Flushed tx rx es
  kicked : ∀ before after, es = before ++ .notify :: after → Flushed tx rx before

variable {tx rx l : Layout} {es fs later more : List Event}

theorem Range.covers {addr start len : Nat} {bytes : List UInt8}
    (h : Range tx rx later addr bytes start len) :
    start ≤ addr ∧ addr + bytes.length ≤ start + len := by
  cases h with
  | header size _ => omega
  | payload => omega
  | @ring l _ _ _ inside =>
    rw [l.base_add_len]
    exact inside

theorem Range.append {addr start len : Nat} {bytes : List UInt8}
    (h : Range tx rx later addr bytes start len) (more : List Event) :
    Range tx rx (later ++ more) addr bytes start len := by
  cases h with
  | header size behind => exact .header size (List.mem_append_left _ behind)
  | payload => exact .payload
  | ring which inside => exact .ring which inside

theorem Range.writtenBack {addr start len : Nat} {bytes : List UInt8}
    (h : Range tx rx later addr bytes start len) (flush : .flush start len ∈ later) :
    WrittenBack tx rx addr bytes later start len :=
  ⟨h, flush, h.covers.1, h.covers.2⟩

theorem WrittenBack.append {addr start len : Nat} {bytes : List UInt8}
    (h : WrittenBack tx rx addr bytes later start len) (more : List Event) :
    WrittenBack tx rx addr bytes (later ++ more) start len :=
  ⟨h.range.append more, List.mem_append_left _ h.flush, h.lower, h.upper⟩

namespace Flushed

theorem append (h : Flushed tx rx es) (h' : Flushed tx rx fs) : Flushed tx rx (es ++ fs) := by
  induction es with
  | nil => exact h'
  | cons e es ih =>
    cases e with
    | write addr bytes =>
      obtain ⟨⟨start, len, back⟩, rest⟩ := h
      exact ⟨⟨start, len, back.append fs⟩, ih rest⟩
    | barrier => exact ih h
    | flush _ _ => exact ih h
    | notify => exact ih h

/-- A flush of the whole ring writes back whatever was written in it. -/
theorem of_inside (which : l = tx ∨ l = rx) (inside : ∀ e ∈ es, e.Inside l.base.toNat l.ringEnd) :
    Flushed tx rx (es ++ [.flush l.base.toNat l.len]) := by
  induction es with
  | nil => trivial
  | cons e es ih =>
    have rest := ih fun e' mem => inside e' (List.mem_cons_of_mem e mem)
    have here := inside e List.mem_cons_self
    cases e with
    | write addr bytes =>
      have range : Range tx rx (es ++ [.flush l.base.toNat l.len]) addr bytes _ _ :=
        .ring which here
      exact ⟨⟨_, _, range.writtenBack (List.mem_append_right _ (List.mem_singleton_self _))⟩, rest⟩
    | barrier => exact rest
    | flush _ _ => exact rest
    | notify => exact rest

end Flushed

namespace Tidy

theorem of_quiet (flushed : Flushed tx rx es) (quiet : .notify ∉ es) : Tidy tx rx es := by
  refine ⟨flushed, ?_⟩
  rintro before after rfl
  exact absurd (List.mem_append_right _ List.mem_cons_self) quiet

theorem nil : Tidy tx rx [] :=
  of_quiet trivial List.not_mem_nil

theorem append (h : Tidy tx rx es) (h' : Tidy tx rx fs) : Tidy tx rx (es ++ fs) := by
  refine ⟨h.flushed.append h'.flushed, ?_⟩
  intro before after split
  -- The kick is in the second part, behind all of the first, or in the first part.
  rcases List.append_eq_append_iff.mp split with ⟨mid, rfl, later⟩ | ⟨mid, first, later⟩
  · exact h.flushed.append (h'.kicked mid after later)
  · cases mid with
    | nil =>
      rw [List.append_nil] at first
      exact first ▸ h.flushed
    | cons e mid =>
      obtain rfl : Event.notify = e := (List.cons.inj later).1
      exact h.kicked before mid first

/-- A kick may follow what is tidy. -/
theorem kick (h : Tidy tx rx es) : Tidy tx rx (es ++ [.notify]) := by
  refine h.append ⟨trivial, ?_⟩
  intro before after split
  cases before with
  | nil => trivial
  | cons e before => simp at split

/-- A packet is flushed as a whole once it is written. -/
theorem packet {addr : Nat} {header payload : List UInt8} (size : header.length = Header.size) :
    Tidy tx rx [.write addr header, .write (addr + Header.size) payload,
      .flush addr (Header.size + payload.length)] := by
  refine .of_quiet ⟨⟨_, _, Range.writtenBack (.header size List.mem_cons_self) ?_⟩,
    ⟨_, _, Range.writtenBack .payload ?_⟩, trivial⟩ ?_
  all_goals simp

theorem flush (start len : Nat) : Tidy tx rx [.flush start len] :=
  of_quiet trivial (by simp)

end Tidy

/-! ## What the device end of a ring does -/

/-- What happened on the bus from one moment to another is tidy. -/
def Tidied (tx rx : Layout) (bus bus' : Bus) : Prop :=
  ∃ es, bus'.trace = bus.trace ++ es ∧ Tidy tx rx es

namespace Tidied

variable {bus bus' bus'' : Bus}

theorem refl (bus : Bus) : Tidied tx rx bus bus :=
  ⟨[], (List.append_nil _).symm, .nil⟩

theorem trans (h : Tidied tx rx bus bus') (h' : Tidied tx rx bus' bus'') :
    Tidied tx rx bus bus'' := by
  obtain ⟨es, trace, tidy⟩ := h
  obtain ⟨es', trace', tidy'⟩ := h'
  refine ⟨es ++ es', ?_, tidy.append tidy'⟩
  rw [trace', trace, List.append_assoc]

/-- Nothing happened that the journal says. -/
theorem of_journal (same : bus'.journal = bus.journal) : Tidied tx rx bus bus' := by
  refine ⟨[], ?_, .nil⟩
  rw [Bus.trace, same, List.append_nil]
  rfl

theorem after (tidy : Tidy tx rx es) : Tidied tx rx bus (bus.after es) :=
  ⟨es, bus.trace_after es, tidy⟩

end Tidied

namespace Device

variable {d d' : Device} {bus bus' : Bus} {idx : UInt16}

theorem take?_eq_ok {idx? : Option UInt16} (run : d.take? bus = .ok ((idx?, d'), bus')) :
    bus' = bus ∧ d'.layout = d.layout := by
  obtain ⟨head, bus₁, readHead, rest⟩ := bind_eq_ok.mp run
  obtain ⟨-, -, rfl⟩ := OnBus.read16_eq_ok readHead
  split at rest
  case isTrue =>
    cases rest
    exact ⟨rfl, rfl⟩
  case isFalse =>
    obtain ⟨idx, bus₂, readEntry, last⟩ := bind_eq_ok.mp rest
    obtain ⟨-, -, rfl⟩ := OnBus.read16_eq_ok readEntry
    cases last
    exact ⟨rfl, rfl⟩

theorem unchain_eq_ok {u : Unit} (run : d.unchain idx bus = .ok (u, bus')) :
    bus' = bus.after (d.unchainEvents bus.memory idx) := by
  obtain ⟨flags, bus₁, readFlags, run⟩ := bind_eq_ok.mp run
  obtain ⟨-, rfl, rfl⟩ := OnBus.read16_eq_ok readFlags
  obtain ⟨_, bus₂, writeFlags, writeNext⟩ := bind_eq_ok.mp run
  obtain ⟨-, rfl⟩ := OnBus.writeBytes_eq_ok writeFlags
  obtain ⟨-, rfl⟩ := OnBus.writeBytes_eq_ok writeNext
  simp only [unchainEvents, Bus.after_cons, Bus.after_nil]

/-- A descriptor that is handed back is one outside the ring, or `publishEvents` say what is done.
This holds wherever the ring is. -/
theorem publish_eq_ok {len : UInt32} {kick : Bool} {u : Unit}
    (run : d.publish idx len kick bus = .ok (u, bus')) :
    bus' = bus ∨ idx.toNat < d.layout.num.toNat ∧
      bus' = bus.after (d.publishEvents bus.memory idx len kick) := by
  rcases Nat.lt_or_ge idx.toNat d.layout.num.toNat with inRing | outside
  case inr =>
    rw [publish_outside outside] at run
    cases run
    exact .inl rfl
  refine .inr ⟨inRing, ?_⟩
  -- A call that returned has found every address in the memory, so no bound on the ring is needed.
  have below : idx < d.layout.num := UInt16.lt_iff_toNat_lt.mpr inRing
  unfold publish at run
  rw [if_pos below] at run
  obtain ⟨usedIdx, bus₁, readIdx, run⟩ := bind_eq_ok.mp run
  obtain ⟨-, rfl, rfl⟩ := OnBus.read16_eq_ok readIdx
  obtain ⟨_, bus₂, unchained, run⟩ := bind_eq_ok.mp run
  obtain rfl := unchain_eq_ok unchained
  obtain ⟨_, bus₃, writeId, run⟩ := bind_eq_ok.mp run
  obtain ⟨-, rfl⟩ := OnBus.writeBytes_eq_ok writeId
  obtain ⟨_, bus₄, writeLen, run⟩ := bind_eq_ok.mp run
  obtain ⟨-, rfl⟩ := OnBus.writeBytes_eq_ok writeLen
  rw [OnBus.bind_eq (Bus.barrier_eq _)] at run
  obtain ⟨_, bus₅, writeIdx, run⟩ := bind_eq_ok.mp run
  obtain ⟨-, rfl⟩ := OnBus.writeBytes_eq_ok writeIdx
  rw [OnBus.bind_eq (Bus.barrier_eq _), flush, OnBus.bind_eq (Bus.flush_eq _ _ _), kick_eq] at run
  cases run
  simp only [publishEvents, returnEvents, Bus.after_append, Bus.after_cons, Bus.after_nil]

/-- What is done when a descriptor is handed back until the ring is flushed. -/
def entryEvents (d : Device) (m : Memory) (idx : UInt16) (len : UInt32) : List Event :=
  let usedIdx := m.word16 d.layout.usedIdxAddr
  d.unchainEvents m idx ++
    [.write (d.layout.usedEntryAddr usedIdx + UsedElem.idOffset) (encode32 idx.toUInt32),
      .write (d.layout.usedEntryAddr usedIdx + UsedElem.lenOffset) (encode32 len), .barrier,
      .write d.layout.usedIdxAddr (encode16 (usedIdx + 1)), .barrier]

theorem publishEvents_flush (d : Device) (m : Memory) (idx : UInt16) (len : UInt32) (kick : Bool) :
    d.publishEvents m idx len kick =
      d.entryEvents m idx len ++ [.flush d.layout.base.toNat d.layout.len] ++ kickEvents kick := by
  simp [publishEvents, returnEvents, entryEvents]

/-- Whatever is written when a descriptor is handed back is in the ring. -/
theorem inside_entryEvents (inRing : idx.toNat < d.layout.num.toNat) (m : Memory) (len : UInt32) :
    ∀ e ∈ d.entryEvents m idx len, e.Inside d.layout.base.toNat d.layout.ringEnd := by
  have descriptor := Layout.descriptor_bounds inRing
  have entry := d.layout.usedEntry_bounds (m.word16 d.layout.usedIdxAddr)
  have index := d.layout.usedIdxAddr_eq
  have areas := d.layout.avail_add_le_used
  have ends := d.layout.ringEnd_eq
  have start := d.layout.avail_eq
  simp only [entryEvents, unchainEvents, Descriptor.flagsOffset, Descriptor.nextOffset,
    UsedElem.idOffset, UsedElem.lenOffset, List.cons_append, List.nil_append, List.mem_cons,
    List.not_mem_nil, or_false, forall_eq_or_imp, forall_eq, Event.Inside,
    LittleEndian.length_encode16, LittleEndian.length_encode32, and_true, true_and]
  omega

/-- The whole ring is flushed before the kick. -/
theorem tidy_publishEvents (which : d.layout = tx ∨ d.layout = rx)
    (inRing : idx.toNat < d.layout.num.toNat) (m : Memory) (len : UInt32) (kick : Bool) :
    Tidy tx rx (d.publishEvents m idx len kick) := by
  have flushed : Tidy tx rx (d.entryEvents m idx len ++ [.flush d.layout.base.toNat d.layout.len]) := by
    refine .of_quiet (.of_inside which (inside_entryEvents inRing m len)) ?_
    simp [entryEvents, unchainEvents]
  rw [publishEvents_flush]
  cases kick with
  | false => exact (List.append_nil _).symm ▸ flushed
  | true => exact flushed.kick

/-- Handing a descriptor back leaves nothing dirty. -/
theorem tidied_publish {len : UInt32} {kick : Bool} {u : Unit}
    (which : d.layout = tx ∨ d.layout = rx) (run : d.publish idx len kick bus = .ok (u, bus')) :
    Tidied tx rx bus bus' := by
  rcases publish_eq_ok run with rfl | ⟨inRing, rfl⟩
  · exact .refl _
  · exact .after (tidy_publishEvents which inRing _ _ _)

end Device

end Ring

end InterCore
