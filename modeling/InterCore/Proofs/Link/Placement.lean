import InterCore.Link.Station
import InterCore.Proofs.Memory.Faults
import InterCore.Proofs.Ring.Events

/-!
# Where the rings may be

A placement is accepted if its rings can be used, and is otherwise refused by the first check that
fails (`Rings.check_eq_ok`, `Rings.check_eq_error`). Two entries of a resource table stand for the
rings that they name, unless they name no size for them.

Nothing is written while the rings are looked for, and nothing when the firmware attaches itself to
them: it starts at the beginning of both rings, with a table of unused channels.
-/

namespace InterCore.Link

variable {m : Memory} {bus bus' : Bus}

namespace Rings

variable {r found : Rings} {addr : UInt32} {e : Error}

/-! ## Rings that can be used -/

/-- The address is assigned and aligned. -/
def UsableAddr (addr : UInt32) : Prop :=
  addr ≠ 0 ∧ 16 ∣ addr.toNat

/-- The first check of an address that fails. -/
inductive RefusedAddr (addr : UInt32) : Error → Prop
  | unassigned (zero : addr = 0) : RefusedAddr addr .unassigned
  | notAligned (assigned : addr ≠ 0) (unaligned : ¬ 16 ∣ addr.toNat) : RefusedAddr addr .notAligned

/-- Rings that pass all checks. -/
structure Usable (r : Rings) : Prop where
  size : r.num.toNat.isPowerOfTwo
  tx : UsableAddr r.tx
  rx : UsableAddr r.rx

/-- The first check of the rings that fails. -/
inductive Refused (r : Rings) : Error → Prop
  | size (other : ¬ r.num.toNat.isPowerOfTwo) : r.Refused .invalidRingSize
  | tx {e : Error} (size : r.num.toNat.isPowerOfTwo) (refused : RefusedAddr r.tx e) : r.Refused e
  | rx {e : Error} (size : r.num.toNat.isPowerOfTwo) (tx : UsableAddr r.tx)
      (refused : RefusedAddr r.rx e) : r.Refused e

theorem usableAddr_or_refused (addr : UInt32) : UsableAddr addr ∨ ∃ e, RefusedAddr addr e := by
  by_cases zero : addr = 0
  · exact .inr ⟨_, .unassigned zero⟩
  · by_cases aligned : 16 ∣ addr.toNat
    · exact .inl ⟨zero, aligned⟩
    · exact .inr ⟨_, .notAligned zero aligned⟩

theorem usable_or_refused (r : Rings) : r.Usable ∨ ∃ e, r.Refused e := by
  by_cases size : r.num.toNat.isPowerOfTwo
  · rcases usableAddr_or_refused r.tx with tx | ⟨e, refused⟩
    · rcases usableAddr_or_refused r.rx with rx | ⟨e, refused⟩
      · exact .inl ⟨size, tx, rx⟩
      · exact .inr ⟨e, .rx size tx refused⟩
    · exact .inr ⟨e, .tx size refused⟩
  · exact .inr ⟨_, .size size⟩

theorem checkAddr_of_usable (h : UsableAddr addr) : checkAddr addr = .ok () := by
  obtain ⟨assigned, aligned⟩ := h
  rw [checkAddr, if_neg assigned, if_neg (not_not.mpr (Nat.mod_eq_zero_of_dvd aligned))]

theorem checkAddr_of_refused (h : RefusedAddr addr e) : checkAddr addr = .error e := by
  cases h with
  | unassigned zero => rw [checkAddr, if_pos zero]
  | notAligned assigned unaligned =>
    rw [checkAddr, if_neg assigned, if_pos (mt Nat.dvd_of_mod_eq_zero unaligned)]

theorem check_of_usable (h : r.Usable) : r.check = .ok r := by
  rw [check, checkSize, if_pos h.size, checkAddr_of_usable h.tx, checkAddr_of_usable h.rx]
  rfl

theorem check_of_refused (h : r.Refused e) : r.check = .error e := by
  cases h with
  | size other =>
    rw [check, checkSize, if_neg other]
    rfl
  | tx size refused =>
    rw [check, checkSize, if_pos size, checkAddr_of_refused refused]
    rfl
  | rx size tx refused =>
    rw [check, checkSize, if_pos size, checkAddr_of_usable tx, checkAddr_of_refused refused]
    rfl

theorem check_eq_ok : r.check = .ok found ↔ found = r ∧ r.Usable := by
  constructor
  · intro accepted
    rcases r.usable_or_refused with usable | ⟨e, refused⟩
    · rw [check_of_usable usable] at accepted
      exact ⟨(Except.ok.inj accepted).symm, usable⟩
    · rw [check_of_refused refused] at accepted
      cases accepted
  · rintro ⟨rfl, usable⟩
    exact check_of_usable usable

theorem usable_of_check (accepted : r.check = .ok found) : found.Usable := by
  obtain ⟨rfl, usable⟩ := check_eq_ok.mp accepted
  exact usable

theorem check_eq_error : r.check = .error e ↔ r.Refused e := by
  refine ⟨fun failed => ?_, check_of_refused⟩
  rcases r.usable_or_refused with usable | ⟨e', refused⟩
  · rw [check_of_usable usable] at failed
    cases failed
  · rw [check_of_refused refused] at failed
    cases failed
    exact refused

end Rings

/-! ## Entries of a resource table -/

namespace ResourceEntry

variable {addr : Nat} {tx rx : ResourceEntry}

/-- The words of an entry lie in the memory and below the top of the address space. -/
structure Readable (m : Memory) (addr : Nat) : Prop where
  inMemory : m.Covers addr 20
  inAddressSpace : addr + reservedOffset < UInt32.size

/-- The entry that stands in the memory. -/
def stored (m : Memory) (addr : Nat) : ResourceEntry where
  address := m.word32 (addr + addressOffset)
  align := m.word32 (addr + alignOffset)
  num := m.word32 (addr + numOffset)
  notifyId := m.word32 (addr + notifyIdOffset)
  reserved := m.word32 (addr + reservedOffset)

/-- The entries do not agree on a size, or on none that a ring has room for in its indices. -/
def NoSize (tx rx : ResourceEntry) : Prop :=
  tx.num ≠ rx.num ∨ UInt16.size ≤ tx.num.toNat

theorem Readable.covers (h : Readable m addr) {offset : Nat} (inEntry : offset ≤ reservedOffset) :
    m.Covers (addr + offset) 4 := by
  obtain ⟨⟨-, lower, upper⟩, below⟩ := h
  rw [reservedOffset] at inEntry below
  exact ⟨by omega, by omega, by omega⟩

theorem read_of_readable (h : Readable bus.memory addr) :
    read addr bus = .ok (stored bus.memory addr, bus) := by
  rw [read, OnBus.bind_eq (OnBus.read32_eq (h.covers (by decide))),
    OnBus.bind_eq (OnBus.read32_eq (h.covers (by decide))),
    OnBus.bind_eq (OnBus.read32_eq (h.covers (by decide))),
    OnBus.bind_eq (OnBus.read32_eq (h.covers (by decide))),
    OnBus.bind_eq (OnBus.read32_eq (h.covers (by decide)))]
  rfl

/-- The first and the last word of an entry that was read were there. -/
theorem readable_of_read {entry : ResourceEntry} (run : read addr bus = .ok (entry, bus')) :
    Readable bus.memory addr := by
  obtain ⟨_, _, readAddress, run₁⟩ := bind_eq_ok.mp run
  obtain ⟨_, _, readAlign, run₂⟩ := bind_eq_ok.mp run₁
  obtain ⟨_, _, readNum, run₃⟩ := bind_eq_ok.mp run₂
  obtain ⟨_, _, readNotifyId, run₄⟩ := bind_eq_ok.mp run₃
  obtain ⟨_, _, readReserved, -⟩ := bind_eq_ok.mp run₄
  obtain ⟨first, -, rfl⟩ := OnBus.read32_eq_ok readAddress
  obtain ⟨-, -, rfl⟩ := OnBus.read32_eq_ok readAlign
  obtain ⟨-, -, rfl⟩ := OnBus.read32_eq_ok readNum
  obtain ⟨-, -, rfl⟩ := OnBus.read32_eq_ok readNotifyId
  obtain ⟨last, -, -⟩ := OnBus.read32_eq_ok readReserved
  -- The other words stand between the first and the last.
  obtain ⟨start, lower, -⟩ := first
  rw [addressOffset, Nat.add_zero] at start lower
  have upper := last.2.2
  rw [reservedOffset] at upper
  exact ⟨⟨start, lower, by omega⟩, last.1⟩

theorem onlyOutside_read : OnlyOutside (read addr bus) :=
  OnlyOutside.read32.bind fun _ _ _ => OnlyOutside.read32.bind fun _ _ _ =>
    OnlyOutside.read32.bind fun _ _ _ => OnlyOutside.read32.bind fun _ _ _ =>
      OnlyOutside.read32.bind fun _ _ _ => .ok _

theorem read_of_not_readable (h : ¬ Readable bus.memory addr) :
    read addr bus = .error .outsideMemory := by
  by_contra inside
  obtain ⟨⟨entry, bus'⟩, run⟩ := onlyOutside_read.eq_ok inside
  exact h (readable_of_read run)

theorem ofEntries_of_noSize (h : NoSize tx rx) : Rings.ofEntries tx rx = .error .invalidRingSize := by
  rw [Rings.ofEntries]
  rcases h with different | large
  · rw [if_pos different]
  · rw [if_neg (Nat.not_lt.mpr large), ite_self]

theorem ofEntries_of_size {num : UInt16} (ofTx : tx.num.toNat = num.toNat)
    (ofRx : rx.num.toNat = num.toNat) :
    Rings.ofEntries tx rx = .ok ⟨tx.address, rx.address, num⟩ := by
  have same : tx.num = rx.num := UInt32.toNat_inj.mp (ofTx.trans ofRx.symm)
  have narrowed : tx.num.toUInt16 = num := by
    rw [← UInt16.toNat_inj, UInt32.toNat_toUInt16, ofTx]
    exact Nat.mod_eq_of_lt num.toNat_lt
  rw [Rings.ofEntries, if_neg (not_not.mpr same), if_pos (ofTx ▸ num.toNat_lt), narrowed]

end ResourceEntry

/-! ## Finding the rings -/

namespace Placement

open ResourceEntry (stored)

variable {placement : Placement} {rings : Rings} {answer : Answer Rings} {e : Error}

/-- What has to be read lies in the memory. -/
def Readable (m : Memory) : Placement → Prop
  | direct _ => True
  | resourceTable txEntry rxEntry =>
    ResourceEntry.Readable m txEntry.toNat ∧ ResourceEntry.Readable m rxEntry.toNat

/-- The rings that are found with a memory. -/
def found (m : Memory) : Placement → Answer Rings
  | direct rings => rings.check
  | resourceTable txEntry rxEntry =>
    Rings.ofEntries (stored m txEntry.toNat) (stored m rxEntry.toNat) >>= Rings.check

theorem resolve_of_readable (h : placement.Readable bus.memory) :
    placement.resolve bus = .ok (placement.found bus.memory, bus) := by
  cases placement with
  | direct rings => rfl
  | resourceTable txEntry rxEntry =>
    rw [resolve, OnBus.bind_eq (ResourceEntry.read_of_readable h.1),
      OnBus.bind_eq (ResourceEntry.read_of_readable h.2)]
    rfl

theorem resolve_of_not_readable (h : ¬ placement.Readable bus.memory) :
    placement.resolve bus = .error .outsideMemory := by
  cases placement with
  | direct rings => exact absurd trivial h
  | resourceTable txEntry rxEntry =>
    rw [resolve]
    by_cases tx : ResourceEntry.Readable bus.memory txEntry.toNat
    · have rx : ¬ ResourceEntry.Readable bus.memory rxEntry.toNat := fun rx => h ⟨tx, rx⟩
      rw [OnBus.bind_eq (ResourceEntry.read_of_readable tx),
        bind_of_error (ResourceEntry.read_of_not_readable rx)]
    · rw [bind_of_error (ResourceEntry.read_of_not_readable tx)]

/-- Rings that are found can be used. -/
theorem usable_of_found (h : placement.found m = .ok rings) : rings.Usable := by
  cases placement with
  | direct r => exact Rings.usable_of_check h
  | resourceTable txEntry rxEntry =>
    rw [found] at h
    cases named : Rings.ofEntries (stored m txEntry.toNat) (stored m rxEntry.toNat) with
    | error e =>
      rw [named] at h
      cases h
    | ok r =>
      rw [named] at h
      exact Rings.usable_of_check h

theorem usable_of_resolve (run : placement.resolve bus = .ok (.ok rings, bus')) : rings.Usable := by
  by_cases readable : placement.Readable bus.memory
  · rw [resolve_of_readable readable] at run
    exact usable_of_found (congrArg Prod.fst (Except.ok.inj run))
  · rw [resolve_of_not_readable readable] at run
    cases run

end Placement

/-! ## Attaching to the rings -/

namespace Multiplexer

open InterCore.Ring (Place Layout)

variable {placement : Placement} {rings : Rings} {e : Error}

/-- The firmware stands at the beginning of both rings, and none of its channels is in use. -/
structure Starts (mux : Multiplexer σ) (rings : Rings) : Prop where
  tx : mux.tx.layout.toPlace = ⟨rings.tx, rings.num⟩
  txTail : mux.tx.tail = 0
  rx : mux.rx.layout.toPlace = ⟨rings.rx, rings.num⟩
  rxTail : mux.rx.tail = 0
  channels : mux.channels.toList.map (·.state) = List.replicate 5 .unused
  nextAddr : mux.nextAddr = firstLocalAddr

theorem attach_of_refused (run : placement.resolve bus = .ok (.error e, bus')) :
    (attach placement : OnBus (Answer (Multiplexer σ))) bus = .ok (.error e, bus') := by
  rw [attach, bind_of_ok run]
  rfl

theorem attach_of_resolved (run : placement.resolve bus = .ok (.ok rings, bus'))
    (txFits : Place.ringEnd ⟨rings.tx, rings.num⟩ < UInt32.size)
    (rxFits : Place.ringEnd ⟨rings.rx, rings.num⟩ < UInt32.size) :
    ∃ mux : Multiplexer σ, attach placement bus = .ok (.ok mux, bus') ∧ mux.Starts rings := by
  have powerOfTwo := (Placement.usable_of_resolve run).size
  have tx := Ring.Device.attach_eq ⟨⟨rings.tx, rings.num⟩, powerOfTwo, txFits⟩
  have rx := Ring.Device.attach_eq ⟨⟨rings.rx, rings.num⟩, powerOfTwo, rxFits⟩
  refine ⟨{ tx := { layout := ⟨⟨rings.tx, rings.num⟩, powerOfTwo, txFits⟩ },
            rx := { layout := ⟨⟨rings.rx, rings.num⟩, powerOfTwo, rxFits⟩ } }, ?_, ?_⟩
  · rw [attach, bind_of_ok run]
    dsimp only
    rw [tx, rx]
    rfl
  · exact ⟨rfl, rfl, rfl, rfl, rfl, rfl⟩

end Multiplexer

/-! ## Both ways to place the rings -/

/-- Rings that are placed directly are accepted if and only if they can be used, and then their
size divides the number of indices; else the first check that fails is told. Two entries of a
resource table that name no size are refused, and otherwise stand for the rings that they name. The
firmware starts on the rings that were found, if they end below the top of the address space, and
passes on why there are none. The bus is in no case another one afterwards. -/
theorem placement_sound (σ : Type) (bus : Bus) :
    (∀ rings : Rings, ∃ answer, (Placement.direct rings).resolve bus = .ok (answer, bus) ∧
      (∀ found, answer = .ok found ↔ found = rings ∧ rings.Usable) ∧
      (∀ e, answer = .error e ↔ rings.Refused e) ∧
      (rings.Usable → rings.num.toNat ∣ 2 ^ 16)) ∧
    (∀ txEntry rxEntry : UInt32,
      (Placement.resourceTable txEntry rxEntry).Readable bus.memory →
      let tx := ResourceEntry.stored bus.memory txEntry.toNat
      let rx := ResourceEntry.stored bus.memory rxEntry.toNat
      (ResourceEntry.NoSize tx rx →
        (Placement.resourceTable txEntry rxEntry).resolve bus =
          .ok (.error .invalidRingSize, bus)) ∧
      ∀ num : UInt16, tx.num.toNat = num.toNat → rx.num.toNat = num.toNat →
        (Placement.resourceTable txEntry rxEntry).resolve bus =
          (Placement.direct ⟨tx.address, rx.address, num⟩).resolve bus) ∧
    (∀ placement : Placement, ¬ placement.Readable bus.memory →
      placement.resolve bus = .error .outsideMemory) ∧
    (∀ (placement : Placement) (e : Error), placement.resolve bus = .ok (.error e, bus) →
      (Multiplexer.attach placement : OnBus (Answer (Multiplexer σ))) bus = .ok (.error e, bus)) ∧
    ∀ (placement : Placement) (rings : Rings), placement.resolve bus = .ok (.ok rings, bus) →
      Ring.Place.ringEnd ⟨rings.tx, rings.num⟩ < UInt32.size →
      Ring.Place.ringEnd ⟨rings.rx, rings.num⟩ < UInt32.size →
      ∃ mux : Multiplexer σ, Multiplexer.attach placement bus = .ok (.ok mux, bus) ∧
        mux.Starts rings := by
  refine ⟨fun rings => ⟨rings.check, rfl, fun _ => Rings.check_eq_ok, fun _ => Rings.check_eq_error,
    fun usable => (Ring.isPowerOfTwo_iff_dvd rings.num).mp usable.size⟩, ?_,
    fun _ => Placement.resolve_of_not_readable, fun _ _ => Multiplexer.attach_of_refused,
    fun _ _ => Multiplexer.attach_of_resolved⟩
  intro txEntry rxEntry readable
  dsimp only
  rw [Placement.resolve_of_readable readable, Placement.found]
  constructor
  · intro noSize
    rw [ResourceEntry.ofEntries_of_noSize noSize]
    rfl
  · intro num ofTx ofRx
    rw [ResourceEntry.ofEntries_of_size ofTx ofRx]
    rfl

/-- A window with two entries of a resource table, one after the other. -/
def twoEntries : Bus where
  memory := ⟨0x100, ([0x3E800000, 0x1000, 256, 0, 0, 0x3E840000, 0x1000, 256, 1, 0].flatMap
    LittleEndian.encode32).toArray⟩

/-- The firmware starts on the rings that the entries name. -/
theorem placement_sound_twoEntries :
    (Placement.resourceTable 0x100 0x114).Readable twoEntries.memory ∧
      ∃ mux : Multiplexer Unit,
        Multiplexer.attach (.resourceTable 0x100 0x114) twoEntries = .ok (.ok mux, twoEntries) ∧
        mux.Starts ⟨0x3E800000, 0x3E840000, 256⟩ := by
  have readable : (Placement.resourceTable 0x100 0x114).Readable twoEntries.memory :=
    ⟨⟨by decide, by decide⟩, ⟨by decide, by decide⟩⟩
  obtain ⟨direct, table, -, -, starts⟩ := placement_sound Unit twoEntries
  have named := (table 0x100 0x114 readable).2 256 (by decide) (by decide)
  obtain ⟨answer, run, accepted, -⟩ := direct ⟨0x3E800000, 0x3E840000, 256⟩
  have usable : Rings.Usable ⟨0x3E800000, 0x3E840000, 256⟩ :=
    ⟨⟨8, by decide⟩, ⟨by decide, by decide⟩, ⟨by decide, by decide⟩⟩
  obtain rfl := (accepted _).mpr ⟨rfl, usable⟩
  exact ⟨readable, starts _ _ (named.trans run) (by decide) (by decide)⟩

end InterCore.Link
