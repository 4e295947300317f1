import InterCore.Proofs.Link.Backlog
import InterCore.Proofs.Link.Calls
import InterCore.Proofs.Link.Custody
import InterCore.Proofs.Ring.SetUp

/-!
# A link that was set up

The peer sets up both rings, one after the other, and the firmware attaches itself to them. If the
rings and the buffers have places that are apart (`Site.Fits`), the link is then in order and empty,
and every buffer can be used (`Site.Fits.setUp`).
-/

namespace InterCore.Link

open InterCore.Packet (Header maxLen)
open InterCore.Ring (Device Driver Buffer Layout Place Span)

/-- Where the rings of a link are to be, and the buffers of each, which follow each other. -/
structure Site where
  num : UInt16
  tx : UInt32
  rx : UInt32
  txBuffers : UInt32
  rxBuffers : UInt32
  bufSize : UInt32
  deriving DecidableEq, Repr

namespace Site

variable {p : Site} {m : Memory}

/-- Where all buffers of a ring are that start at an address. -/
def area (p : Site) (buffers : UInt32) : Span :=
  ⟨buffers.toNat, buffers.toNat + p.num.toNat * p.bufSize.toNat⟩

/-- Where a ring at `base` lies. -/
def ringSpan (p : Site) (base : UInt32) : Span :=
  ⟨base.toNat, (Place.mk base p.num).ringEnd⟩

/-- Buffers of a ring lie within the memory. -/
def InWindow (p : Site) (m : Memory) (buffers : UInt32) : Prop :=
  m.base.toNat ≤ (p.area buffers).start ∧ (p.area buffers).stop ≤ m.base.toNat + m.size ∧
    (p.area buffers).stop < UInt32.size

/-- The rings and the buffers have places in the memory that are apart from each other. -/
structure Fits (p : Site) (m : Memory) : Prop where
  tx : Ring.Placed p.tx p.num p.txBuffers p.bufSize m
  rx : Ring.Placed p.rx p.num p.rxBuffers p.bufSize m
  checked : (Rings.mk p.tx p.rx p.num).check = .ok ⟨p.tx, p.rx, p.num⟩
  txInWindow : p.InWindow m p.txBuffers
  rxInWindow : p.InWindow m p.rxBuffers
  rings : (p.ringSpan p.tx).Apart (p.ringSpan p.rx)
  txFromTx : (p.area p.txBuffers).Apart (p.ringSpan p.tx)
  txFromRx : (p.area p.txBuffers).Apart (p.ringSpan p.rx)
  rxFromTx : (p.area p.rxBuffers).Apart (p.ringSpan p.tx)
  rxFromRx : (p.area p.rxBuffers).Apart (p.ringSpan p.rx)
  buffers : (p.area p.rxBuffers).Apart (p.area p.txBuffers)

/-- The buffer number `i` of those that follow each other from an address on. -/
def buffer (p : Site) (buffers : UInt32) (i : Nat) : Buffer :=
  ⟨UInt32.ofNat (buffers.toNat + i * p.bufSize.toNat), p.bufSize⟩

section Buffers

variable {buffers : UInt32} {i j : Nat}

theorem toNat_buffer (window : p.InWindow m buffers) (inRing : i < p.num.toNat) :
    (p.buffer buffers i).addr.toNat = buffers.toNat + i * p.bufSize.toNat ∧
      buffers.toNat + i * p.bufSize.toNat + p.bufSize.toNat ≤ (p.area buffers).stop := by
  obtain ⟨-, -, below⟩ := window
  have within : (i + 1) * p.bufSize.toNat ≤ p.num.toNat * p.bufSize.toNat :=
    Nat.mul_le_mul_right _ inRing
  rw [Nat.add_mul, Nat.one_mul] at within
  simp only [area] at below ⊢
  refine ⟨?_, by omega⟩
  show (UInt32.ofNat _).toNat = _
  rw [UInt32.toNat_ofNat', Nat.mod_eq_of_lt]
  change _ < UInt32.size
  omega

theorem span_buffer (window : p.InWindow m buffers) (inRing : i < p.num.toNat) :
    (p.buffer buffers i).span.start = buffers.toNat + i * p.bufSize.toNat ∧
      (p.buffer buffers i).span.stop ≤ buffers.toNat + i * p.bufSize.toNat + p.bufSize.toNat := by
  obtain ⟨addr, -⟩ := toNat_buffer window inRing
  have capacity : (p.buffer buffers i).capacity ≤ p.bufSize.toNat := Nat.min_le_left _ _
  refine ⟨addr, ?_⟩
  show (p.buffer buffers i).addr.toNat + (p.buffer buffers i).capacity ≤ _
  omega

/-- A buffer lies in the area of all. -/
theorem apart_buffer {s : Span} (window : p.InWindow m buffers) (inRing : i < p.num.toNat)
    (apart : (p.area buffers).Apart s) : (p.buffer buffers i).span.Apart s := by
  obtain ⟨start, stop⟩ := span_buffer window inRing
  obtain ⟨-, below⟩ := toNat_buffer window inRing
  simp only [Span.Apart, area] at apart below ⊢
  omega

theorem buffers_apart (window : p.InWindow m buffers) (hi : i < p.num.toNat) (hj : j < p.num.toNat)
    (different : i ≠ j) : (p.buffer buffers i).span.Apart (p.buffer buffers j).span := by
  obtain ⟨starti, stopi⟩ := span_buffer window hi
  obtain ⟨startj, stopj⟩ := span_buffer window hj
  have ordered {a b : Nat} (less : a < b) :
      a * p.bufSize.toNat + p.bufSize.toNat ≤ b * p.bufSize.toNat := by
    have := Nat.mul_le_mul_right p.bufSize.toNat less
    rwa [Nat.succ_mul] at this
  simp only [Span.Apart]
  rcases Nat.lt_or_gt_of_ne different with less | less
  · have := ordered less
    omega
  · have := ordered less
    omega

theorem reachable_buffer (window : p.InWindow m buffers) (inRing : i < p.num.toNat) :
    (p.buffer buffers i).Reachable m := by
  obtain ⟨above, inside, below⟩ := window
  obtain ⟨addr, stop⟩ := toNat_buffer ⟨above, inside, below⟩ inRing
  have capacity : (p.buffer buffers i).capacity ≤ p.bufSize.toNat := Nat.min_le_left _ _
  intro roomy
  rw [addr]
  simp only [area] at above inside below stop
  refine ⟨⟨?_, ?_, ?_⟩, ?_, ?_, ?_⟩ <;> omega

end Buffers

/-! ## The link after it was set up -/

/-- A link before anything was offered. -/
structure Fresh (p : Site) (c : Cores) : Prop where
  ready : c.Ready
  disjoint : c.BuffersApart
  usable : c.Usable
  outgoing : c.outgoing = []
  incoming : c.incoming = []
  num : c.tx.layout.num = p.num ∧ c.rx.layout.num = p.num
  writable : ∀ i : UInt16, i.toNat < p.num.toNat →
    c.txBuffer i = p.buffer p.txBuffers i.toNat ∧ (c.txBuffer i).Reachable c.memory
  readable : ∀ i : UInt16, i.toNat < p.num.toNat →
    c.rxBuffer i = p.buffer p.rxBuffers i.toNat ∧ c.Readable i

namespace Fresh

variable {c c' : Cores} {idx : UInt16} {left : UInt16 → Prop}

/-- The peer may offer any outgoing buffer first. -/
theorem keeps_offeredTx (h : p.Fresh c) (inRing : idx.toNat < p.num.toNat)
    (step : Cores.Step c (.offeredTx idx) c') : Cores.Keeps left c [] c' := by
  obtain ⟨-, reachable⟩ := h.writable idx inRing
  rw [← h.num.1] at inRing
  exact step.keeps_peer h.usable rfl ⟨inRing, reachable⟩

/-- The peer may offer any incoming buffer first. -/
theorem keeps_offeredRx (h : p.Fresh c) (inRing : idx.toNat < p.num.toNat)
    (step : Cores.Step c (.offeredRx idx) c') : Cores.Keeps left c [idx] c' := by
  obtain ⟨-, readable⟩ := h.readable idx inRing
  have room : c.incoming.length < c.rx.layout.num.toNat := by
    rw [h.incoming]
    exact Layout.num_pos _
  exact step.keeps_peer h.usable rfl ⟨readable, room⟩

end Fresh

namespace Fits

/-- The layout of the outgoing ring. -/
def txLayout (h : p.Fits m) : Layout :=
  ⟨⟨p.tx, p.num⟩, h.tx.powerOfTwo, h.tx.ringFits⟩

/-- The layout of the incoming ring. -/
def rxLayout (h : p.Fits m) : Layout :=
  ⟨⟨p.rx, p.num⟩, h.rx.powerOfTwo, h.rx.ringFits⟩

/-- The memory after both rings were set up. -/
def memory (h : p.Fits m) : Memory :=
  (m.after (Driver.createEvents h.txLayout p.txBuffers p.bufSize)).after
    (Driver.createEvents h.rxLayout p.rxBuffers p.bufSize)

/-- Both cores right after the set-up: nothing is on offer, and nothing was handed back. -/
def cores (h : p.Fits m) : Cores where
  memory := h.memory
  rxKicks := {}
  txDriver := { layout := h.txLayout }
  rxDriver := { layout := h.rxLayout }
  tx := { layout := h.txLayout }
  rx := { layout := h.rxLayout }

theorem txWithin (h : p.Fits m) : h.txLayout.Within m := h.tx.inWindow

theorem rxWithin (h : p.Fits m) : h.rxLayout.Within m := h.rx.inWindow

/-- The ring for received packets is set up in a memory that holds it. -/
theorem rxWithin_after (h : p.Fits m) (es : List Event) : h.rxLayout.Within (m.after es) :=
  h.rxWithin.replay es

/-- The second ring that is set up leaves the first one alone. -/
theorem agreeOn_memory (h : p.Fits m) :
    (m.after (Driver.createEvents h.txLayout p.txBuffers p.bufSize)).AgreeOn h.memory
      h.txLayout.base.toNat h.txLayout.ringEnd :=
  Ring.agreeOn_create (h.rxWithin_after _) p.rxBuffers p.bufSize h.rings

theorem reachable_memory (h : p.Fits m) {b : Buffer} :
    b.Reachable h.memory ↔ b.Reachable m := by
  simp only [Buffer.Reachable, memory, Memory.covers_after]

theorem txBuffer_cores (h : p.Fits m) {i : UInt16} (inRing : i.toNat < p.num.toNat) :
    h.cores.txBuffer i = p.buffer p.txBuffers i.toNat := by
  have bounds : h.txLayout.base.toNat ≤ h.txLayout.descriptorAddr i ∧
    h.txLayout.descriptorAddr i + 16 ≤ h.txLayout.avail := Layout.descriptor_bounds inRing
  have areas := h.txLayout.avail_add_le_used
  have ends := h.txLayout.ringEnd_eq
  exact (Layout.buffer_agree (h.agreeOn_memory.mono bounds.1 (by omega))).trans
    (Driver.buffer_create h.txWithin inRing)

theorem rxBuffer_cores (h : p.Fits m) {i : UInt16} (inRing : i.toNat < p.num.toNat) :
    h.cores.rxBuffer i = p.buffer p.rxBuffers i.toNat :=
  Driver.buffer_create (h.rxWithin_after _) inRing

theorem separate_cores (h : p.Fits m) : h.cores.Separate := by
  refine ⟨h.rings, ?_, ?_⟩
  · intro i inRing
    rw [h.txBuffer_cores inRing]
    exact apart_buffer h.txInWindow inRing h.txFromTx
  · intro i inRing
    rw [h.txBuffer_cores inRing]
    exact apart_buffer h.txInWindow inRing h.txFromRx

theorem buffersApart_cores (h : p.Fits m) : h.cores.BuffersApart := by
  intro i j different hi hj
  rw [h.txBuffer_cores hi, h.txBuffer_cores hj]
  exact buffers_apart h.txInWindow hi hj fun same => different (UInt16.toNat_inj.mp same)

/-- The ring to the peer is as it was set up. -/
theorem ready_cores (h : p.Fits m) : h.cores.Ready := by
  obtain ⟨sound, empty⟩ := Ring.Ends.sound_create h.txWithin p.txBuffers p.bufSize
  have below := h.txLayout.avail_eq
  have start : h.txLayout.base.toNat ≤ h.txLayout.avail := by omega
  obtain ⟨sound', empty'⟩ := sound.elsewhere ((h.txWithin.replay _).replay _)
    (h.agreeOn_memory.mono start (Nat.le_refl _))
  exact ⟨sound', empty'.trans empty, rfl, (h.rxWithin.replay _).replay _, h.separate_cores⟩

/-- A buffer for received packets can be read. -/
theorem readable_cores (h : p.Fits m) {i : UInt16} (inRing : i.toNat < p.num.toNat) :
    h.cores.Readable i := by
  have buffer := h.rxBuffer_cores inRing
  refine ⟨inRing, ?_, ?_, ?_, ?_⟩
  · rw [buffer]
    exact h.reachable_memory.mpr (reachable_buffer h.rxInWindow inRing)
  · rw [buffer]
    exact apart_buffer h.rxInWindow inRing h.rxFromTx
  · rw [buffer]
    exact apart_buffer h.rxInWindow inRing h.rxFromRx
  · intro j inTx
    rw [buffer, h.txBuffer_cores inTx]
    exact (apart_buffer h.txInWindow inTx
      (apart_buffer h.rxInWindow inRing h.buffers).symm).symm

theorem fresh (h : p.Fits m) : p.Fresh h.cores := by
  obtain ⟨soundRx, emptyRx⟩ := Ring.Ends.sound_create (h.rxWithin_after _) p.rxBuffers p.bufSize
  have noneOffered := congrArg Ring.Queues.offered h.ready_cores.empty
  have noTx : h.cores.outgoing = [] := noneOffered
  have noneReceived := congrArg Ring.Queues.offered emptyRx
  have noRx : h.cores.incoming = [] := noneReceived
  have order : h.cores.InOrder := by
    refine ⟨h.ready_cores.sound, soundRx, h.separate_cores, ?_⟩
    rw [noTx]
    exact nofun
  refine ⟨h.ready_cores, h.buffersApart_cores, ⟨order, ?_, ?_⟩, noTx, noRx, ⟨rfl, rfl⟩, ?_,
    fun i inRing => ⟨h.rxBuffer_cores inRing, h.readable_cores inRing⟩⟩
  · rw [noTx]
    exact nofun
  · rw [noRx]
    exact nofun
  · intro i inRing
    have buffer := h.txBuffer_cores inRing
    refine ⟨buffer, ?_⟩
    rw [buffer]
    exact h.reachable_memory.mpr (reachable_buffer h.txInWindow inRing)

end Fits

end Site

/-- No channel was created yet. -/
structure Multiplexer.Fresh {σ : Type} (mux : Multiplexer σ) : Prop where
  channels : mux.channels = Vector.replicate maxChannels {}
  nextAddr : mux.nextAddr = firstLocalAddr

/-- So it is when the firmware has attached itself to its rings. -/
theorem Multiplexer.fresh_attach {σ : Type} {mux : Multiplexer σ} {placement : Placement}
    {bus bus' : Bus} (attached : Multiplexer.attach placement bus = .ok (.ok mux, bus')) :
    mux.Fresh := by
  obtain ⟨answer, bus₁, resolved, rest⟩ := bind_eq_ok.mp attached
  cases answer with
  | error e => cases rest
  | ok rings =>
    obtain ⟨tx, bus₂, attachedTx, rest⟩ := bind_eq_ok.mp rest
    obtain ⟨rx, bus₃, attachedRx, rest⟩ := bind_eq_ok.mp rest
    cases rest
    exact ⟨rfl, rfl⟩

/-- The peer sets up both rings, and the firmware attaches itself to them. -/
def Site.setUp {σ : Type} (p : Site) (app : σ) : OnBus (Answer (Station σ)) := do
  let tx ← Driver.create p.tx p.num p.txBuffers p.bufSize
  let rx ← Driver.create p.rx p.num p.rxBuffers p.bufSize
  match ← Multiplexer.attach (.direct ⟨p.tx, p.rx, p.num⟩) with
  | .error e => return .error e
  | .ok mux => return .ok ⟨{ machine := ⟨← get, {}, ⟨tx, rx, []⟩⟩ }, mux, app⟩

theorem Site.setUp_app {σ : Type} {p : Site} {app : σ} {s : Station σ} {bus bus' : Bus}
    (run : p.setUp app bus = .ok (.ok s, bus')) : s.app = app := by
  obtain ⟨tx, bus₁, -, run₁⟩ := bind_eq_ok.mp run
  obtain ⟨rx, bus₂, -, run₂⟩ := bind_eq_ok.mp run₁
  obtain ⟨mux?, bus₃, -, run₃⟩ := bind_eq_ok.mp run₂
  cases mux? <;> cases run₃
  rfl

/-- A link with two buffers in each direction. -/
def twoBuffers : Site where
  num := 2
  tx := 0x1000
  rx := 0x2020
  txBuffers := 0x3100
  rxBuffers := 0x3200
  bufSize := 64

/-- Three pages of memory that were not cleared. -/
def threePages : Bus where
  memory := ⟨0x1000, Array.replicate 0x3000 0xFF⟩

theorem size_threePages : threePages.memory.size = 0x3000 :=
  Array.size_replicate

/-- The third page has room for the buffers of both directions, behind the used ring that reaches
into it. -/
theorem Site.fits_of_thirdPage {p : Site} (num : p.num = 2) (tx : p.tx = 0x1000) (rx : p.rx = 0x2020)
    (txBuffers : 0x3014 ≤ (p.area p.txBuffers).start ∧ (p.area p.txBuffers).stop ≤ 0x4000)
    (rxBuffers : 0x3014 ≤ (p.area p.rxBuffers).start ∧ (p.area p.rxBuffers).stop ≤ 0x4000)
    (apart : (p.area p.rxBuffers).Apart (p.area p.txBuffers)) : p.Fits threePages.memory := by
  have base : threePages.memory.base.toNat = 0x1000 := rfl
  have size := size_threePages
  have inWindow {buffers : UInt32} (third : 0x3014 ≤ (p.area buffers).start ∧
      (p.area buffers).stop ≤ 0x4000) : p.InWindow threePages.memory buffers := by
    rw [InWindow, base, size]
    have top : (0x4000 : Nat) < UInt32.size := by decide
    omega
  have fits {buffers : UInt32} (third : (p.area buffers).stop ≤ 0x4000) :
      buffers.toNat + p.num.toNat * p.bufSize.toNat ≤ UInt32.size :=
    Nat.le_trans third (by decide)
  have txEnd : (p.ringSpan p.tx).stop = 0x2014 := by rw [ringSpan, num, tx]; decide
  have rxEnd : (p.ringSpan p.rx).stop = 0x3014 := by rw [ringSpan, num, rx]; decide
  have behind {buffers base : UInt32} (third : 0x3014 ≤ (p.area buffers).start)
      (ringEnd : (p.ringSpan base).stop ≤ 0x3014) : (p.area buffers).Apart (p.ringSpan base) :=
    .inr (Nat.le_trans ringEnd third)
  have early : (p.ringSpan p.tx).stop ≤ 0x3014 := by omega
  refine {
    tx := ⟨by rw [num]; exact ⟨1, rfl⟩, by rw [num, tx]; decide, fits txBuffers.2, ?_⟩
    rx := ⟨by rw [num]; exact ⟨1, rfl⟩, by rw [num, rx]; decide, fits rxBuffers.2, ?_⟩
    checked := by rw [num, tx, rx]; rfl
    txInWindow := inWindow txBuffers
    rxInWindow := inWindow rxBuffers
    rings := .inl (by rw [txEnd, ringSpan, rx]; exact Nat.le_of_ble_eq_true rfl)
    txFromTx := behind txBuffers.1 early
    txFromRx := behind txBuffers.1 (Nat.le_of_eq rxEnd)
    rxFromTx := behind rxBuffers.1 early
    rxFromRx := behind rxBuffers.1 (Nat.le_of_eq rxEnd)
    buffers := apart }
  · rw [size, num, tx]
    decide
  · rw [size, num, rx]
    decide

/-- There is a place for a link. -/
theorem fits_threePages : twoBuffers.Fits threePages.memory :=
  Site.fits_of_thirdPage rfl rfl rfl (by decide) (by decide) (by decide)

/-- A station whose link was set up: it has no channels, nobody has kicked, and the peer has no
turns in the waits to come. -/
structure Site.Fits.Starts {σ : Type} {p : Site} {m : Memory} (h : p.Fits m) (s : Station σ) :
    Prop where
  cores : s.cores = h.cores
  mux : s.mux.Fresh
  kicks : s.run.machine.kicks = {}
  noTurns : s.run.schedule = []

namespace Site.Fits.Starts

variable {σ : Type} {p : Site} {m : Memory} {h : p.Fits m} {s : Station σ}

theorem fresh (starts : h.Starts s) : p.Fresh s.cores := by
  rw [starts.cores]
  exact h.fresh

theorem covers (starts : h.Starts s) (addr len : Nat) :
    s.cores.memory.Covers addr len ↔ m.Covers addr len := by
  rw [starts.cores]
  show h.memory.Covers addr len ↔ _
  rw [memory, Memory.covers_after, Memory.covers_after]

end Site.Fits.Starts

/-- A link can be set up where it fits. -/
theorem Site.Fits.setUp {σ : Type} {p : Site} {bus : Bus} (h : p.Fits bus.memory) (app : σ) :
    ∃ s bus', p.setUp app bus = .ok (.ok s, bus') ∧ h.Starts s := by
  have within₁ : h.txLayout.Within bus.memory := h.tx.inWindow
  let bus₁ := bus.after (Driver.createEvents h.txLayout p.txBuffers p.bufSize)
  have within₂ : h.rxLayout.Within bus₁.memory := by
    have inWindow : h.rxLayout.Within bus.memory := h.rx.inWindow
    exact inWindow.after _
  let bus₂ := bus₁.after (Driver.createEvents h.rxLayout p.rxBuffers p.bufSize)
  have createdTx : Driver.create p.tx p.num p.txBuffers p.bufSize bus =
      .ok ({ layout := h.txLayout }, bus₁) :=
    Driver.create_eq within₁ fun i hi => h.tx.buffer_lt hi
  have createdRx : Driver.create p.rx p.num p.rxBuffers p.bufSize bus₁ =
      .ok ({ layout := h.rxLayout }, bus₂) :=
    Driver.create_eq within₂ fun i hi => h.rx.buffer_lt hi
  have tx : Device.attach p.tx p.num = .ok { layout := h.txLayout } := Device.attach_eq h.txLayout
  have rx : Device.attach p.rx p.num = .ok { layout := h.rxLayout } := Device.attach_eq h.rxLayout
  let mux : Multiplexer σ := { tx := { layout := h.txLayout }, rx := { layout := h.rxLayout } }
  have attached : (Multiplexer.attach (.direct ⟨p.tx, p.rx, p.num⟩) : OnBus (Answer (Multiplexer σ)))
      bus₂ = .ok (.ok mux, bus₂) := by
    simp only [Multiplexer.attach, Placement.resolve, h.checked, tx, rx, pure_bind]
    rfl
  have memory : bus₂.memory = h.memory := by
    rw [Bus.memory_after, Bus.memory_after]
    rfl
  let s : Station σ := ⟨{ machine := ⟨bus₂, {}, ⟨{ layout := h.txLayout }, { layout := h.rxLayout },
    []⟩⟩ }, mux, app⟩
  refine ⟨s, bus₂, ?_, ?_, Multiplexer.fresh_attach attached, rfl, rfl⟩
  · rw [Site.setUp, bind_of_ok createdTx, bind_of_ok createdRx, bind_of_ok attached]
    rfl
  · rw [Station.cores, Machine.cores]
    exact congrArg (fun m => { h.cores with memory := m }) memory

end InterCore.Link
