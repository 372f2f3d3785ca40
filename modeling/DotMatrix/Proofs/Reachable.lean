import DotMatrix.Proofs.Phase
import DotMatrix.Proofs.SaveFormat

/-!
# Reachable machines

What a host can do to a machine, and what stays true however often it does it.

* `HostCall`, `Machine.perform` — the calls of a host and what they do.
* `Machine.Reachable` — the machines that calls lead to, among them those that were saved and
  restored.
* `Machine.Intact` — external RAM has its size, the tiles are those of video memory, register F has
  no spare bits.
* `Video.Reachable` — the video units that writes and time alone lead to.

Principal results: `Machine.Intact.step` and `Machine.phase_step` — what one step keeps and how it
moves the phase of the picture; `Video.Reachable.phase_induction` — what time keeps of a phase holds
in every reachable video unit; `Machine.Reachable.intact`, `Machine.Reachable.video` — reachable
machines are intact and their video units are reachable.
-/

set_option autoImplicit false

namespace DotMatrix

/-- A call that a host makes. -/
inductive HostCall where
  | step
  | runFrame
  | reset
  | skipBoot
  | load (image : List UInt8)
  | loadBoot (image : List UInt8)
  | write (addr : UInt16) (v : UInt8)
  | write16 (addr w : UInt16)
  /-- A write to video memory, past the bus. -/
  | writeMemory (addr : UInt16) (v : UInt8)
  /-- A write to the sprite table, past the bus. -/
  | writeSprites (i : Nat) (v : UInt8)
  /-- A write to a register of the video unit, past the bus. -/
  | writeRegister (addr : UInt16) (v : UInt8)
  /-- Time that passes in the video unit alone. -/
  | tick (ticks : UInt32)
  | decodeTiles
  deriving DecidableEq, Repr

/-- Video units that writes and time lead to from power on. -/
inductive Video.Reachable : Video → Prop
  | powerOn : Reachable powerOn
  | poke {v w : Video} (h : Reachable v) (hw : v.Poked w) : Reachable w
  | tick {v : Video} (h : Reachable v) (ticks : UInt32) : Reachable (v.tick ticks).1
  | decodeTiles {v : Video} (h : Reachable v) : Reachable v.decodeTiles

/-! ## Video units -/

namespace Video

theorem phase_powerOn : powerOn.phase = ⟨.oamScan, 0, 0⟩ := by decide

theorem phase_decodeTiles (v : Video) : v.decodeTiles.phase = v.phase := by
  simp only [phase, decodeTiles_regs, decodeTiles_clock]

/-- What the first phase has and time keeps, the phase of every reachable video unit has. -/
theorem Reachable.phase_induction {P : Phase → Prop} (hstart : P ⟨.oamScan, 0, 0⟩)
    (htick : ∀ {p : Phase} (ticks : Nat), P p → P (p.tick ticks).1) {v : Video}
    (h : v.Reachable) : P v.phase := by
  induction h with
  | powerOn =>
    rw [phase_powerOn]
    exact hstart
  | poke _ hw ih =>
    rw [hw.phase_eq]
    exact ih
  | @tick v _ ticks ih =>
    have hp : (v.tick ticks).1.phase = (v.phase.tick ticks.toNat).1 := by rw [← phase_tick]
    rw [hp]
    exact htick _ ih
  | decodeTiles _ ih =>
    rw [phase_decodeTiles]
    exact ih

/-- **Reachable video units are in a phase that lasts.** -/
theorem Reachable.sustained {v : Video} (h : v.Reachable) : v.phase.Sustained :=
  h.phase_induction ⟨by decide, by decide, .inr (by decide)⟩ fun ticks hp => hp.tick ticks

end Video

namespace Machine

/-- One step as a host sees it: what it returns, and the machine after it.  A step that is refused
leaves the machine as it is. -/
def stepOnce (m : Machine) : Except Fault Step × Machine :=
  match m.step with
  | .error fault => (.error fault, m)
  | .ok (next, s) => (.ok s, next)

/-- The machine with another video unit. -/
def withVideo (m : Machine) (v : Video) : Machine := { m with bus := { m.bus with video := v } }

/-- What a call does. -/
def perform (m : Machine) : HostCall → Machine
  | .step => m.stepOnce.2
  | .runFrame => m.runFrame.machine
  | .reset => m.reset
  | .skipBoot => m.skipBoot
  | .load image => m.load image
  | .loadBoot image => { m with bus := m.bus.loadBoot image }
  | .write addr v => { m with bus := m.bus.write addr v }
  | .write16 addr w => { m with bus := m.bus.write16 addr w }
  | .writeMemory addr v => m.withVideo (m.bus.video.writeMemory (Video.offset addr) v)
  | .writeSprites i v => m.withVideo (m.bus.video.writeSprites i v)
  | .writeRegister addr v => m.withVideo (m.bus.video.writeAddr addr v)
  | .tick ticks => m.withVideo (m.bus.video.tick ticks).1
  | .decodeTiles => m.withVideo m.bus.video.decodeTiles

/-- Machines that a host can come to from new ones.  What it restores are reachable machines that
were saved, in the same machine or in another one. -/
inductive Reachable : Machine → Prop
  | create (config : Config) : Reachable (create config)
  | call {m : Machine} (h : Reachable m) (c : HostCall) : Reachable (m.perform c)
  | resume {m saved : Machine} (h : Reachable m) (hs : Reachable saved) :
    Reachable (m.afterRestore saved.save)

/-! ## Single steps -/

/-- What no program can break. -/
structure Intact (m : Machine) : Prop where
  eram : m.bus.eram.size = Bus.eramSize
  tiles : m.bus.video.Coherent
  spareBits : Cpu.spareBits m.cpu.f = 0

/-- Where the video unit of a machine is in the picture. -/
def phase (m : Machine) : Phase := m.bus.video.phase

theorem toNat_ticks {cycles : Nat} (h : cycles ≤ 6) :
    (UInt32.ofNat (ticksPerCycle * cycles)).toNat = 4 * cycles := by
  simp only [ticksPerCycle, UInt32.toNat_ofNat']
  omega

/-- **A step moves the phase by the time that its instruction takes**, whatever the instruction
writes. -/
theorem phase_step {m m' : Machine} {s : Step} (h : m.step = .ok (m', s)) :
    (m'.phase, s.frameComplete) = m.phase.tick (4 * s.cycles) := by
  have hs := stepped_of_step h
  obtain ⟨b, htouched, hbus, hframe⟩ := hs.bus
  have ht := b.video.phase_tick (UInt32.ofNat (ticksPerCycle * s.cycles))
  rw [toNat_ticks hs.cycles_le, htouched.video.phase_eq] at ht
  rw [phase, hbus, hframe]
  exact ht

theorem sustained_step {m m' : Machine} {s : Step} (h : m.phase.Sustained)
    (hs : m.step = .ok (m', s)) : m'.phase.Sustained := by
  have ht := h.tick (4 * s.cycles)
  rw [← phase_step hs] at ht
  exact ht

theorem Intact.step {m m' : Machine} {s : Step} (hm : m.Intact) (h : m.step = .ok (m', s)) :
    m'.Intact := by
  have hs := stepped_of_step h
  obtain ⟨b, htouched, hbus, -⟩ := hs.bus
  refine ⟨?_, ?_, ?_⟩
  · rw [hbus]
    exact htouched.eram_size.trans hm.eram
  · rw [hbus]
    exact (htouched.video.coherent hm.tiles).tick _
  · rcases hs.spareBits with h | h
    · rw [h, hm.spareBits]
    · exact h

/-- What every step keeps, a run keeps. -/
theorem run_induction {P : Machine → Prop}
    (hstep : ∀ {m m' : Machine} {s : Step}, P m → m.step = .ok (m', s) → P m') {m : Machine}
    (hm : P m) (n : Nat) : P (m.run n).machine := by
  have hrun : ∀ (n done : Nat) (m : Machine), P m → P (runFrom done n m).machine := by
    intro n
    induction n with
    | zero => exact fun _ _ hm => hm
    | succ n ih =>
      intro done m hm
      unfold runFrom
      split
      · exact hm
      · rename_i next s hok
        exact ih (done + 1) next (hstep hm hok)
  exact hrun n 0 m hm

theorem stepOnce_induction {P : Machine → Prop}
    (hstep : ∀ {m m' : Machine} {s : Step}, P m → m.step = .ok (m', s) → P m') {m : Machine}
    (hm : P m) : P m.stepOnce.2 := by
  unfold stepOnce
  split
  · exact hm
  · rename_i next s hok
    exact hstep hm hok

/-! ## Calls -/

theorem writeAddr_poked (v : Video) (addr : UInt16) (b : UInt8) : v.Poked (v.writeAddr addr b) := by
  unfold Video.writeAddr
  split
  · exact .register .refl _ b
  · exact .refl

theorem Intact.skipBoot {m : Machine} (h : m.Intact) : m.skipBoot.Intact := by
  have hf : Cpu.spareBits (Bus.lowByte 0x01B0 &&& 0xF0) = 0 := by decide
  exact ⟨h.eram, h.tiles, hf⟩

theorem intact_reset (m : Machine) : m.reset.Intact := by
  have hf : Cpu.spareBits Cpu.powerOn.f = 0 := by decide
  have h : Intact ⟨Cpu.powerOn, m.bus.reset, m.config, 0, 0⟩ :=
    ⟨Array.size_replicate, Video.coherent_powerOn, hf⟩
  unfold reset
  simp only
  split
  · exact h
  · exact h.skipBoot

theorem phase_skipBoot (m : Machine) : m.skipBoot.phase = m.phase := rfl

theorem phase_reset (m : Machine) : m.reset.phase = ⟨.oamScan, 0, 0⟩ := by
  unfold reset
  simp only
  split
  · exact Video.phase_powerOn
  · rw [phase_skipBoot]
    exact Video.phase_powerOn

theorem Intact.of_images {m : Machine} (h : m.Intact) (rom : Memory 0x8000) (boot : Memory 0x100) :
    Intact { m with bus := { m.bus with rom := rom, boot := boot } } :=
  ⟨h.eram, h.tiles, h.spareBits⟩

theorem Intact.withVideo {m : Machine} (h : m.Intact) {v : Video} (hv : v.Coherent) :
    (m.withVideo v).Intact :=
  ⟨h.eram, hv, h.spareBits⟩

theorem Intact.touched {m : Machine} (h : m.Intact) {b : Bus} (hb : m.bus.Touched b) :
    Intact { m with bus := b } :=
  ⟨hb.eram_size.trans h.eram, hb.video.coherent h.tiles, h.spareBits⟩

theorem phase_touched {m : Machine} {b : Bus} (hb : m.bus.Touched b) :
    phase { m with bus := b } = m.phase :=
  hb.video.phase_eq

/-- **No call breaks a machine.** -/
theorem Intact.perform {m : Machine} (h : m.Intact) (c : HostCall) : (m.perform c).Intact := by
  cases c with
  | step => exact stepOnce_induction (fun hm hs => hm.step hs) h
  | runFrame => exact run_induction (fun hm hs => hm.step hs) h _
  | reset => exact intact_reset m
  | skipBoot => exact h.skipBoot
  | load image => exact h.of_images (Memory.ofImage _ image) m.bus.boot
  | loadBoot image => exact h.of_images m.bus.rom (Memory.ofImage _ image)
  | write addr v => exact h.touched (Bus.touched_write m.bus addr v)
  | write16 addr w => exact h.touched (Bus.touched_write16 m.bus addr w)
  | writeMemory addr v => exact h.withVideo (h.tiles.writeMemory _ v)
  | writeSprites i v => exact h.withVideo ((Video.Poked.sprites .refl i v).coherent h.tiles)
  | writeRegister addr v => exact h.withVideo ((writeAddr_poked _ addr v).coherent h.tiles)
  | tick ticks => exact h.withVideo (h.tiles.tick ticks)
  | decodeTiles => exact h.withVideo (Video.coherent_decodeTiles _)

theorem video_step {m m' : Machine} {s : Step} (h : m.bus.video.Reachable)
    (hs : m.step = .ok (m', s)) : m'.bus.video.Reachable := by
  obtain ⟨b, htouched, hbus, -⟩ := (stepped_of_step hs).bus
  rw [hbus]
  exact (h.poke htouched.video).tick _

theorem video_reset (m : Machine) : m.reset.bus.video.Reachable := by
  unfold reset
  simp only
  split
  · exact .powerOn
  · exact .poke .powerOn (.register (.register .refl .lcdc 0x91) .bgp 0xFC)

theorem video_images {m : Machine} (h : m.bus.video.Reachable) (rom : Memory 0x8000)
    (boot : Memory 0x100) :
    ({ m with bus := { m.bus with rom := rom, boot := boot } } : Machine).bus.video.Reachable :=
  h

/-- A call reaches the video unit through writes and time only, or switches it on again. -/
theorem video_perform {m : Machine} (h : m.bus.video.Reachable) (c : HostCall) :
    (m.perform c).bus.video.Reachable := by
  cases c with
  | step => exact stepOnce_induction (P := fun m => m.bus.video.Reachable) video_step h
  | runFrame => exact run_induction (P := fun m => m.bus.video.Reachable) video_step h _
  | reset => exact video_reset m
  | skipBoot => exact h.poke (.register (.register .refl .lcdc 0x91) .bgp 0xFC)
  | load image => exact video_images h (Memory.ofImage _ image) m.bus.boot
  | loadBoot image => exact video_images h m.bus.rom (Memory.ofImage _ image)
  | write addr v => exact h.poke (Bus.touched_write m.bus addr v).video
  | write16 addr w => exact h.poke (Bus.touched_write16 m.bus addr w).video
  | writeMemory addr v => exact h.poke (.memory .refl _ v)
  | writeSprites i v => exact h.poke (.sprites .refl i v)
  | writeRegister addr v => exact h.poke (writeAddr_poked _ addr v)
  | tick ticks => exact h.tick ticks
  | decodeTiles => exact h.decodeTiles

/-! ## Saved machines -/

theorem Intact.valid {m : Machine} (h : m.Intact) (hline : m.phase.line ≤ 153)
    (hclock : m.phase.clock < m.phase.mode.duration) : m.snapshot.Valid :=
  ⟨h.eram, UInt8.le_iff_toNat_le.2 hline, hclock⟩

/-- Where there are no spare bits, restoring has none to clear. -/
theorem Intact.and_f {m : Machine} (h : m.Intact) : m.cpu.f &&& 0xF0 = m.cpu.f := by
  have hb : ∀ f : BitVec 8, Cpu.spareBits (UInt8.ofBitVec f) = 0 →
      UInt8.ofBitVec f &&& 0xF0 = UInt8.ofBitVec f := by decide
  exact hb m.cpu.f.toBitVec h.spareBits

/-- An intact machine on a line that exists, with its mode not yet over, is restored from what it
saved. -/
theorem Intact.restore_save {m : Machine} (h : m.Intact) (hline : m.phase.line ≤ 153)
    (hclock : m.phase.clock < m.phase.mode.duration) (m' : Machine) :
    m'.restore m.save = .ok { m with config := m'.config } :=
  Machine.restore_save (h.valid hline hclock) h.tiles h.and_f m'

/-- What was restored is intact, on a line that exists, with its mode not yet over. -/
theorem intact_of_restore {m m' : Machine} {b : List UInt8} (h : m.restore b = .ok m') :
    m'.Intact ∧ m'.phase.line ≤ 153 ∧ m'.phase.clock < m'.phase.mode.duration := by
  obtain ⟨hvalid, htiles, hf, -⟩ := save_of_restore h
  have hb : ∀ f : BitVec 8, UInt8.ofBitVec f &&& 0xF0 = UInt8.ofBitVec f →
      Cpu.spareBits (UInt8.ofBitVec f) = 0 := by decide
  exact ⟨⟨hvalid.eram, htiles, hb m'.cpu.f.toBitVec hf⟩, UInt8.le_iff_toNat_le.1 hvalid.line,
    hvalid.clock⟩

theorem Reachable.intact_and_video {m : Machine} (h : Reachable m) :
    m.Intact ∧ m.bus.video.Reachable := by
  induction h with
  | create config => exact ⟨intact_reset _, video_reset _⟩
  | call _ c ih => exact ⟨ih.1.perform c, video_perform ih.2 c⟩
  | @resume m saved _ _ _ ihs =>
    have hs := ihs.2.sustained
    have hr := ihs.1.restore_save hs.line hs.clock m
    rw [afterRestore_of_ok hr]
    exact ⟨⟨ihs.1.eram, ihs.1.tiles, ihs.1.spareBits⟩, ihs.2⟩

/-- **Reachable machines are intact.** -/
theorem Reachable.intact {m : Machine} (h : Reachable m) : m.Intact := h.intact_and_video.1

/-- **The video unit of a reachable machine is reachable by itself.** -/
theorem Reachable.video {m : Machine} (h : Reachable m) : m.bus.video.Reachable :=
  h.intact_and_video.2

/-- **Reachable machines are in a phase that lasts.** -/
theorem Reachable.sustained {m : Machine} (h : Reachable m) : m.phase.Sustained :=
  h.video.sustained

end Machine

end DotMatrix
