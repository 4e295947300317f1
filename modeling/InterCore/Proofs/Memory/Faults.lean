import InterCore.Proofs.Memory.Replay

/-!
# Accesses outside the memory

The bus refuses an access that does not lie within the window, and has no other reason to fail. Of
longer work `OnlyOutside` says that its failures come from such an access.
-/

namespace InterCore

/-- What was run fails by no other fault than an access outside the memory. -/
def OnlyOutside (run : Except Fault α) : Prop :=
  ∀ fault, run = .error fault → fault = .outsideMemory

/-! ## One access -/

namespace Bus

variable {bus : Bus} {addr len : Nat}

theorem readBytes_outside (h : ¬ bus.memory.Covers addr len) :
    readBytes addr len bus = .error .outsideMemory := by
  rw [readBytes, Memory.read, if_neg h]

theorem read16_outside (h : ¬ bus.memory.Covers addr 2) :
    read16 addr bus = .error .outsideMemory := by
  rw [read16, bind_of_error (readBytes_outside h)]

theorem read32_outside (h : ¬ bus.memory.Covers addr 4) :
    read32 addr bus = .error .outsideMemory := by
  rw [read32, bind_of_error (readBytes_outside h)]

theorem writeBytes_outside {data : List UInt8} (h : ¬ bus.memory.Covers addr data.length) :
    writeBytes addr data bus = .error .outsideMemory := by
  rw [writeBytes, Memory.write, if_neg h]

theorem write16_outside (w : UInt16) (h : ¬ bus.memory.Covers addr 2) :
    write16 addr w bus = .error .outsideMemory :=
  writeBytes_outside (by rwa [LittleEndian.length_encode16])

theorem write32_outside (w : UInt32) (h : ¬ bus.memory.Covers addr 4) :
    write32 addr w bus = .error .outsideMemory :=
  writeBytes_outside (by rwa [LittleEndian.length_encode32])

end Bus

/-! ## Longer work -/

namespace OnlyOutside

variable {S α β : Type}

theorem ok (a : α) : OnlyOutside (.ok a) := by
  intro fault failed
  cases failed

theorem failed : OnlyOutside (.error .outsideMemory : Except Fault α) := by
  rintro fault ⟨⟩
  rfl

theorem bind {work : StateT S (Except Fault) α} {next : α → StateT S (Except Fault) β} {s : S}
    (first : OnlyOutside (work s)) (second : ∀ a s', work s = .ok (a, s') → OnlyOutside (next a s')) :
    OnlyOutside ((work >>= next) s) := by
  cases run : work s with
  | error fault =>
    cases first fault run
    rw [bind_of_error run]
    exact failed
  | ok r =>
    rw [bind_of_ok run]
    exact second r.1 r.2 run

/-- What does not fail by such an access does not fail. -/
theorem eq_ok {run : Except Fault α} (h : OnlyOutside run) (inside : run ≠ .error .outsideMemory) :
    ∃ a, run = .ok a := by
  cases result : run with
  | error fault =>
    cases h fault result
    exact absurd result inside
  | ok a => exact ⟨a, rfl⟩

/-! ### Work on the bus -/

variable {bus : Bus} {addr len : Nat}

theorem readBytes : OnlyOutside (Bus.readBytes addr len bus) := by
  by_cases covered : bus.memory.Covers addr len
  · rw [Bus.readBytes_eq covered]
    exact ok _
  · rw [Bus.readBytes_outside covered]
    exact failed

theorem writeBytes {data : List UInt8} : OnlyOutside (Bus.writeBytes addr data bus) := by
  by_cases covered : bus.memory.Covers addr data.length
  · rw [Bus.writeBytes_eq covered]
    exact ok _
  · rw [Bus.writeBytes_outside covered]
    exact failed

theorem read16 : OnlyOutside (Bus.read16 addr bus) :=
  readBytes.bind fun _ _ _ => ok _

theorem read32 : OnlyOutside (Bus.read32 addr bus) :=
  readBytes.bind fun _ _ _ => ok _

end OnlyOutside

end InterCore
