import DotMatrix.Proofs.Picture
import DotMatrix.Proofs.Refusal

/-!
# What programs cannot touch

The images, the size of external RAM, the moment of the picture and the picture itself are out of the
reach of a program, and a boot ROM that was unmapped stays so until the machine is switched off.

* `Bus.Confined` — a change of the bus that leaves all of this alone.

Principal results: `Machine.confined_steps` — every attempt of a step is confined, however many steps
are attempted, and no call but a reset maps the boot ROM again.
-/

set_option autoImplicit false

namespace DotMatrix

/-! ## Confined changes -/

/-- The low two bits of STAT are the code of the mode. -/
theorem Registers.stat_and_three (r : Registers) : r.stat &&& 0x03 = r.mode.bits := by
  have h : ∀ x : BitVec 8, UInt8.ofBitVec x &&& 0x03 = (Mode.ofBits (UInt8.ofBitVec x)).bits := by
    decide
  exact h r.stat.toBitVec

namespace Bus

/-- A change of the bus that leaves alone what is out of the reach of programs. -/
structure Confined (b b' : Bus) : Prop where
  rom : b'.rom = b.rom
  boot : b'.boot = b.boot
  eram_size : b'.eram.size = b.eram.size
  line : b'.video.regs.ly = b.video.regs.ly
  modeBits : b'.video.regs.stat &&& 0x03 = b.video.regs.stat &&& 0x03
  clock : b'.video.clock = b.video.clock
  windowLine : b'.video.windowLine = b.video.windowLine
  frame : b'.video.frame = b.video.frame
  bootMapped : b.bootMapped = false → b'.bootMapped = false

theorem Confined.refl (b : Bus) : b.Confined b := ⟨rfl, rfl, rfl, rfl, rfl, rfl, rfl, rfl, id⟩

/-- Writes to the bus do not map the boot ROM again. -/
theorem Touched.bootMapped_eq_false {b b' : Bus} (h : b.Touched b') (hb : b.bootMapped = false) :
    b'.bootMapped = false := by
  cases hm : b'.bootMapped with
  | false => rfl
  | true =>
    rw [h.bootMapped hm] at hb
    cases hb

/-- **What writes to the bus do is confined.** -/
theorem Touched.confined {b b' : Bus} (h : b.Touched b') : b.Confined b' := by
  have hhidden := h.video.hidden_eq
  simp only [Video.hidden, Prod.mk.injEq] at hhidden
  obtain ⟨hmode, hline, hclock, hwindow, hframe⟩ := hhidden
  refine ⟨h.rom, h.boot, h.eram_size, hline, ?_, hclock, hwindow, hframe, h.bootMapped_eq_false⟩
  rw [Registers.stat_and_three, Registers.stat_and_three, hmode]

end Bus

/-- Whether it is refused or not, a step of the CPU is confined. -/
theorem Cpu.confined_stepInPlace (c : Cpu) (b : Bus) :
    b.Confined (stepInPlace.on (c, b)).2.2 := by
  rw [stepInPlace_on]
  cases hs : c.step b with
  | error fault => exact .refl b
  | ok o => exact (touched_step hs).confined

/-! ## Steps that are attempted -/

namespace Machine

theorem attempts_add (j k : Nat) (m : Machine) :
    (attempts (j + k) m).2 = (attempts k (attempts j m).2).2 := by
  induction j generalizing m with
  | zero => rw [Nat.zero_add, attempts]
  | succ j ih =>
    rw [Nat.succ_add]
    exact ih (stepInPlace.on m).2

/-- What every step keeps, attempts keep. -/
theorem attempts_induction {P : Machine → Prop}
    (hstep : ∀ {m m' : Machine} {s : Step}, P m → m.step = .ok (m', s) → P m') {m : Machine}
    (hm : P m) (n : Nat) : P (attempts n m).2 := by
  induction n generalizing m with
  | zero => exact hm
  | succ n ih =>
    rw [attempts, stepInPlace_on]
    exact ih (stepOnce_induction hstep hm)

/-- Time passes in the video unit only, so after a step the rest of the bus is as the instruction left
it. -/
theorem images_step {m m' : Machine} {s : Step} (h : m.step = .ok (m', s)) :
    m'.bus.rom = m.bus.rom ∧ m'.bus.boot = m.bus.boot ∧
      (m.bus.bootMapped = false → m'.bus.bootMapped = false) := by
  obtain ⟨b, htouched, hbus, -⟩ := (stepped_of_step h).bus
  rw [hbus]
  exact ⟨htouched.rom, htouched.boot, htouched.bootMapped_eq_false⟩

theorem images_attempts (n : Nat) (m : Machine) :
    (attempts n m).2.bus.rom = m.bus.rom ∧ (attempts n m).2.bus.boot = m.bus.boot :=
  attempts_induction (P := fun m' => m'.bus.rom = m.bus.rom ∧ m'.bus.boot = m.bus.boot)
    (fun hm hs => ⟨(images_step hs).1.trans hm.1, (images_step hs).2.1.trans hm.2⟩) ⟨rfl, rfl⟩ n

theorem bootMapped_attempts {m : Machine} (h : m.bus.bootMapped = false) (n : Nat) :
    (attempts n m).2.bus.bootMapped = false :=
  attempts_induction (P := fun m' => m'.bus.bootMapped = false)
    (fun hm hs => (images_step hs).2.2 hm) h n

theorem bootMapped_withVideo (m : Machine) (v : Video) :
    (m.withVideo v).bus.bootMapped = m.bus.bootMapped := rfl

theorem bootMapped_images (m : Machine) (rom : Memory 0x8000) (boot : Memory 0x100) :
    ({ m with bus := { m.bus with rom := rom, boot := boot } } : Machine).bus.bootMapped =
      m.bus.bootMapped := rfl

/-- A reset is the only call that maps the boot ROM again. -/
theorem bootMapped_perform {m : Machine} (h : m.bus.bootMapped = false) {c : HostCall}
    (hc : c ≠ .reset) : (m.perform c).bus.bootMapped = false := by
  cases c with
  | step =>
    exact stepOnce_induction (P := fun m => m.bus.bootMapped = false)
      (fun hm hs => (images_step hs).2.2 hm) h
  | runFrame =>
    exact run_induction (P := fun m => m.bus.bootMapped = false)
      (fun hm hs => (images_step hs).2.2 hm) h _
  | reset => exact absurd rfl hc
  | write addr v => exact (Bus.touched_write m.bus addr v).bootMapped_eq_false h
  | write16 addr w => exact (Bus.touched_write16 m.bus addr w).bootMapped_eq_false h
  | skipBoot => rfl
  | load image => exact (bootMapped_images m (Memory.ofImage _ image) m.bus.boot).trans h
  | loadBoot image => exact (bootMapped_images m m.bus.rom (Memory.ofImage _ image)).trans h
  | _ => exact (bootMapped_withVideo m _).trans h

theorem bootMapped_calls {m : Machine} (h : m.bus.bootMapped = false) (calls : List HostCall)
    (hcalls : HostCall.reset ∉ calls) : (calls.foldl perform m).bus.bootMapped = false := by
  induction calls generalizing m with
  | nil => exact h
  | cons c calls ih =>
    obtain ⟨hc, hcalls⟩ := not_or.1 (mt List.mem_cons.2 hcalls)
    exact ih (bootMapped_perform h (Ne.symm hc)) hcalls

/-- **Programs are confined.**  A step of the CPU, refused or not, leaves alone the images, the size of
external RAM, line, mode, clock, window line and picture, and so does each instruction by itself.
However many steps are attempted, the images stay, and a boot ROM that is unmapped at one moment is
unmapped at every later one; among the calls of a host only a reset maps it again. -/
theorem confined_steps :
    (∀ (c : Cpu) (b : Bus), b.Confined (Cpu.stepInPlace.on (c, b)).2.2) ∧
      (∀ (i : Instr) (c : Cpu) (b : Bus), b.Confined (i.exec c b).bus) ∧
      (∀ (m : Machine) (n : Nat),
        (attempts n m).2.bus.rom = m.bus.rom ∧ (attempts n m).2.bus.boot = m.bus.boot) ∧
      (∀ (m : Machine) (j k : Nat), (attempts j m).2.bus.bootMapped = false →
        (attempts (j + k) m).2.bus.bootMapped = false) ∧
      ∀ (m : Machine) (calls : List HostCall), m.bus.bootMapped = false →
        HostCall.reset ∉ calls → (calls.foldl perform m).bus.bootMapped = false := by
  refine ⟨Cpu.confined_stepInPlace, ?_, ?_, ?_, ?_⟩
  · exact fun i c b => (i.touched_exec c b).confined
  · exact fun m n => images_attempts n m
  · intro m j k h
    rw [attempts_add]
    exact bootMapped_attempts h k
  · exact fun m calls h hcalls => bootMapped_calls h calls hcalls

/-- A machine whose boot program stores 1 in the latch. -/
def unmappingBoot : Machine := create { bootRom := some [0x3E, 0x01, 0xE0, 0x50] }

/-- After its second step the boot ROM is unmapped for good, also when the host then writes to the latch
and goes on. -/
theorem confined_unmappingBoot :
    unmappingBoot.bus.bootMapped = true ∧ (attempts 2 unmappingBoot).2.bus.bootMapped = false ∧
      (∀ k, (attempts (2 + k) unmappingBoot).2.bus.bootMapped = false) ∧
      ([HostCall.write 0xFF50 0, .runFrame].foldl perform
        (attempts 2 unmappingBoot).2).bus.bootMapped = false := by
  have hunmapped : (attempts 2 unmappingBoot).2.bus.bootMapped = false := by decide +kernel
  obtain ⟨-, -, -, hlater, hcalls⟩ := confined_steps
  exact ⟨rfl, hunmapped, fun k => hlater unmappingBoot 2 k hunmapped,
    hcalls _ _ hunmapped (by decide)⟩

end Machine

end DotMatrix
