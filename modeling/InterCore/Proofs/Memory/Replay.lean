import InterCore.Memory.Bus
import InterCore.Proofs.Memory.Words

/-!
# Work on the bus as a list of events

What an operation does to the shared memory is the list of its events. `Bus.after` performs such a
list; every step of `Bus` that succeeds gives a value and performs at most one event. The lemmas of
the form `x bus = .ok (a, bus.after es)` are put together with `OnBus.bind_eq`.
-/

namespace InterCore

/-- What an event does to the memory. -/
def Event.onMemory : Event → Memory → Memory
  | write addr bytes, m => m.patch addr bytes
  | barrier, m => m
  | flush _ _, m => m
  | notify, m => m

@[simp]
theorem Event.base_onMemory (e : Event) (m : Memory) : (e.onMemory m).base = m.base := by
  cases e <;> rfl

@[simp]
theorem Event.size_onMemory (e : Event) (m : Memory) : (e.onMemory m).size = m.size := by
  cases e with
  | write addr bytes => exact Memory.size_patch _ _ _
  | _ => rfl

/-- What an event writes lies within the window. -/
def Event.Fits (m : Memory) : Event → Prop
  | write addr bytes => m.Covers addr bytes.length
  | barrier => True
  | flush _ _ => True
  | notify => True

theorem Event.fits_onMemory (e e' : Event) (m : Memory) :
    e'.Fits (e.onMemory m) ↔ e'.Fits m := by
  cases e' <;> simp only [Event.Fits, Memory.Covers, Event.base_onMemory, Event.size_onMemory]

/-- An event writes nothing from one address up to another. -/
def Event.Misses (start stop : Nat) : Event → Prop
  | write addr bytes => addr + bytes.length ≤ start ∨ stop ≤ addr
  | barrier => True
  | flush _ _ => True
  | notify => True

theorem Event.Misses.agreeOn {e : Event} {m : Memory} {start stop : Nat} (fits : e.Fits m)
    (misses : e.Misses start stop) : Memory.AgreeOn m (e.onMemory m) start stop := by
  cases e with
  | write addr bytes => exact Memory.agreeOn_patch fits misses
  | _ => exact fun _ _ _ => rfl

theorem Event.Misses.mono {e : Event} {start stop start' stop' : Nat} (h : e.Misses start stop)
    (lower : start ≤ start') (upper : stop' ≤ stop) : e.Misses start' stop' := by
  cases e with
  | write addr bytes =>
    simp only [Misses] at h ⊢
    omega
  | _ => trivial

/-- What an event writes lies between two addresses. -/
def Event.Inside (start stop : Nat) : Event → Prop
  | write addr bytes => start ≤ addr ∧ addr + bytes.length ≤ stop
  | barrier => True
  | flush _ _ => True
  | notify => True

theorem Event.Inside.misses {e : Event} {start stop start' stop' : Nat}
    (h : e.Inside start stop) (apart : stop' ≤ start ∨ stop ≤ start') : e.Misses start' stop' := by
  cases e with
  | write addr bytes =>
    simp only [Event.Inside] at h
    simp only [Event.Misses]
    omega
  | _ => trivial

theorem Event.Inside.mono {e : Event} {start stop start' stop' : Nat} (h : e.Inside start stop)
    (lower : start' ≤ start) (upper : stop ≤ stop') : e.Inside start' stop' := by
  cases e with
  | write addr bytes =>
    simp only [Event.Inside] at h ⊢
    omega
  | _ => trivial

/-- How many interrupts an event sends. -/
def Event.interrupts : Event → Nat
  | notify => 1
  | _ => 0

/-- How many interrupts some events send. -/
def Event.interruptsIn : List Event → Nat
  | [] => 0
  | e :: es => e.interrupts + interruptsIn es

namespace Memory

variable {m : Memory}

/-- The memory after events, in the order in which they happen. -/
def after (m : Memory) (es : List Event) : Memory :=
  es.foldl (fun m e => e.onMemory m) m

@[simp]
theorem after_nil (m : Memory) : m.after [] = m := rfl

@[simp]
theorem after_cons (m : Memory) (e : Event) (es : List Event) :
    m.after (e :: es) = (e.onMemory m).after es := rfl

theorem after_append (m : Memory) (es fs : List Event) :
    m.after (es ++ fs) = (m.after es).after fs :=
  List.foldl_append

@[simp]
theorem base_after (m : Memory) (es : List Event) : (m.after es).base = m.base := by
  induction es generalizing m with
  | nil => rfl
  | cons e es ih => rw [after_cons, ih, Event.base_onMemory]

@[simp]
theorem size_after (m : Memory) (es : List Event) : (m.after es).size = m.size := by
  induction es generalizing m with
  | nil => rfl
  | cons e es ih => rw [after_cons, ih, Event.size_onMemory]

@[simp]
theorem covers_after {addr len : Nat} (es : List Event) :
    (m.after es).Covers addr len ↔ m.Covers addr len := by
  simp only [Covers, base_after, size_after]

/-- Events that write nothing in a range leave it as it was. -/
theorem agreeOn_after {es : List Event} {start stop : Nat}
    (h : ∀ e ∈ es, e.Fits m ∧ e.Misses start stop) : m.AgreeOn (m.after es) start stop := by
  induction es generalizing m with
  | nil => exact fun _ _ _ => rfl
  | cons e es ih =>
    obtain ⟨fits, misses⟩ := h e List.mem_cons_self
    refine (misses.agreeOn fits).trans (ih ?_)
    intro e' mem
    obtain ⟨fits', misses'⟩ := h e' (List.mem_cons_of_mem e mem)
    exact ⟨(e.fits_onMemory e' m).mpr fits', misses'⟩

end Memory

theorem Event.fits_after (e : Event) (es : List Event) (m : Memory) :
    e.Fits (m.after es) ↔ e.Fits m := by
  cases e <;> simp only [Event.Fits, Memory.covers_after]

namespace Bus

variable {bus : Bus} {addr len : Nat}

/-- The bus after one event. -/
def perform (bus : Bus) (e : Event) : Bus :=
  ⟨e.onMemory bus.memory, e :: bus.journal, bus.notifications + e.interrupts⟩

/-- The bus after events, in the order in which they happen. -/
def after (bus : Bus) (es : List Event) : Bus :=
  es.foldl perform bus

@[simp]
theorem after_nil (bus : Bus) : bus.after [] = bus := rfl

@[simp]
theorem after_cons (bus : Bus) (e : Event) (es : List Event) :
    bus.after (e :: es) = (bus.perform e).after es := rfl

theorem after_append (bus : Bus) (es fs : List Event) :
    bus.after (es ++ fs) = (bus.after es).after fs :=
  List.foldl_append

@[simp]
theorem memory_perform (bus : Bus) (e : Event) :
    (bus.perform e).memory = e.onMemory bus.memory := rfl

@[simp]
theorem base_after (bus : Bus) (es : List Event) : (bus.after es).memory.base = bus.memory.base := by
  induction es generalizing bus with
  | nil => rfl
  | cons e es ih => rw [after_cons, ih, memory_perform, Event.base_onMemory]

@[simp]
theorem size_after (bus : Bus) (es : List Event) : (bus.after es).memory.size = bus.memory.size := by
  induction es generalizing bus with
  | nil => rfl
  | cons e es ih => rw [after_cons, ih, memory_perform, Event.size_onMemory]

@[simp]
theorem memory_after (bus : Bus) (es : List Event) :
    (bus.after es).memory = bus.memory.after es := by
  induction es generalizing bus with
  | nil => rfl
  | cons e es ih => rw [after_cons, ih, memory_perform, Memory.after_cons]

theorem notifications_after (bus : Bus) (es : List Event) :
    (bus.after es).notifications = bus.notifications + Event.interruptsIn es := by
  induction es generalizing bus with
  | nil => rfl
  | cons e es ih =>
    rw [after_cons, ih, Event.interruptsIn, ← Nat.add_assoc]
    rfl

theorem agreeOn_after {es : List Event} {start stop : Nat}
    (h : ∀ e ∈ es, e.Fits bus.memory ∧ e.Misses start stop) :
    Memory.AgreeOn bus.memory (bus.after es).memory start stop := by
  rw [memory_after]
  exact Memory.agreeOn_after h

theorem readBytes_eq (h : bus.memory.Covers addr len) :
    readBytes addr len bus = .ok (bus.memory.slice addr len, bus) := by
  rw [readBytes, Memory.read_eq h]

theorem writeBytes_eq {data : List UInt8} (h : bus.memory.Covers addr data.length) :
    writeBytes addr data bus = .ok ((), bus.after [.write addr data]) := by
  rw [writeBytes, Memory.write_eq h]
  rfl

theorem write16_eq (w : UInt16) (h : bus.memory.Covers addr 2) :
    write16 addr w bus = .ok ((), bus.after [.write addr (LittleEndian.encode16 w)]) :=
  writeBytes_eq (by rwa [LittleEndian.length_encode16])

theorem write32_eq (w : UInt32) (h : bus.memory.Covers addr 4) :
    write32 addr w bus = .ok ((), bus.after [.write addr (LittleEndian.encode32 w)]) :=
  writeBytes_eq (by rwa [LittleEndian.length_encode32])

theorem barrier_eq (bus : Bus) : barrier bus = .ok ((), bus.after [.barrier]) := rfl

theorem flush_eq (bus : Bus) (addr len : Nat) :
    flush addr len bus = .ok ((), bus.after [.flush addr len]) := rfl

end Bus

namespace OnBus

variable {bus bus' : Bus} {addr : Nat}

theorem bind_eq {x : OnBus α} {f : α → OnBus β} {a : α} (h : x bus = .ok (a, bus')) :
    (x >>= f) bus = f a bus' := by
  show (x bus >>= fun p => f p.1 p.2) = f a bus'
  rw [h]
  rfl

theorem lift_eq (a : α) (bus : Bus) :
    (liftM (Except.ok a : Except Fault α) : OnBus α) bus = .ok (a, bus) := rfl

theorem pure_eq (a : α) (bus : Bus) : (pure a : OnBus α) bus = .ok (a, bus) := rfl

theorem read16_eq (h : bus.memory.Covers addr 2) :
    Bus.read16 addr bus = .ok (bus.memory.word16 addr, bus) := by
  rw [Bus.read16, bind_eq (Bus.readBytes_eq h)]
  rfl

theorem read32_eq (h : bus.memory.Covers addr 4) :
    Bus.read32 addr bus = .ok (bus.memory.word32 addr, bus) := by
  rw [Bus.read32, bind_eq (Bus.readBytes_eq h)]
  rfl

end OnBus

/-! ## What work that succeeded did -/

/-- Work goes on where its first part ended. -/
theorem bind_of_ok {S α β : Type} {x : StateT S (Except Fault) α}
    {f : α → StateT S (Except Fault) β} {s s' : S} {a : α} (h : x s = .ok (a, s')) :
    (x >>= f) s = f a s' := by
  show (x s >>= fun p => f p.1 p.2) = f a s'
  rw [h]
  rfl

/-- What fails first fails the whole. -/
theorem bind_of_error {S α β : Type} {x : StateT S (Except Fault) α}
    {f : α → StateT S (Except Fault) β} {fault : Fault} {s : S} (h : x s = .error fault) :
    (x >>= f) s = .error fault := by
  show (x s >>= fun r => f r.1 r.2) = _
  rw [h]
  rfl

/-- Work in two parts that succeeded has succeeded in both. -/
theorem bind_eq_ok {S α β : Type} {x : StateT S (Except Fault) α}
    {f : α → StateT S (Except Fault) β} {s s' : S} {b : β} :
    (x >>= f) s = .ok (b, s') ↔ ∃ a s₁, x s = .ok (a, s₁) ∧ f a s₁ = .ok (b, s') := by
  show (x s >>= fun p => f p.1 p.2) = .ok (b, s') ↔ _
  cases x s with
  | error fault =>
    constructor
    · intro h
      cases h
    · rintro ⟨a, s₁, h, -⟩
      cases h
  | ok p =>
    constructor
    · intro h
      exact ⟨p.1, p.2, rfl, h⟩
    · rintro ⟨a, s₁, h, h'⟩
      cases h
      exact h'

theorem pure_eq_ok {S α : Type} {a b : α} {s s' : S} :
    (pure a : StateT S (Except Fault) α) s = .ok (b, s') ↔ b = a ∧ s' = s := by
  constructor
  · intro h
    cases h
    exact ⟨rfl, rfl⟩
  · rintro ⟨rfl, rfl⟩
    rfl

namespace OnBus

variable {bus bus' : Bus} {addr len : Nat}

theorem readBytes_eq_ok {bytes : List UInt8} (h : Bus.readBytes addr len bus = .ok (bytes, bus')) :
    bus.memory.Covers addr len ∧ bytes = bus.memory.slice addr len ∧ bus' = bus := by
  by_cases covered : bus.memory.Covers addr len
  · rw [Bus.readBytes_eq covered] at h
    cases h
    exact ⟨covered, rfl, rfl⟩
  · rw [Bus.readBytes, Memory.read, if_neg covered] at h
    cases h

theorem read16_eq_ok {w : UInt16} (h : Bus.read16 addr bus = .ok (w, bus')) :
    bus.memory.Covers addr 2 ∧ w = bus.memory.word16 addr ∧ bus' = bus := by
  obtain ⟨bytes, bus₁, read, rest⟩ := bind_eq_ok.mp h
  obtain ⟨covered, rfl, rfl⟩ := readBytes_eq_ok read
  cases rest
  exact ⟨covered, rfl, rfl⟩

theorem read32_eq_ok {w : UInt32} (h : Bus.read32 addr bus = .ok (w, bus')) :
    bus.memory.Covers addr 4 ∧ w = bus.memory.word32 addr ∧ bus' = bus := by
  obtain ⟨bytes, bus₁, read, rest⟩ := bind_eq_ok.mp h
  obtain ⟨covered, rfl, rfl⟩ := readBytes_eq_ok read
  cases rest
  exact ⟨covered, rfl, rfl⟩

theorem writeBytes_eq_ok {data : List UInt8} {u : Unit}
    (h : Bus.writeBytes addr data bus = .ok (u, bus')) :
    bus.memory.Covers addr data.length ∧ bus' = bus.after [.write addr data] := by
  by_cases covered : bus.memory.Covers addr data.length
  · rw [Bus.writeBytes_eq covered] at h
    cases h
    exact ⟨covered, rfl⟩
  · rw [Bus.writeBytes, Memory.write, if_neg covered] at h
    cases h

end OnBus

end InterCore
