import DotMatrix.Proofs.Picture

/-!
# What is on the screen

The screen has opaque greys and nothing else, and it changes where a line is drawn and nowhere else.

* `Frame.Shaded` — every pixel is one of the four shades.
* `Video.EndsScan` — the scan of video memory gives way to the horizontal blank.

Principal results: `Frame.Shaded.drawRow` — painting a row leaves shades; `Video.frame_tick_of_endsScan`
and `Video.frame_tick_of_not` — the end of a scan draws the line, and time does nothing else to the
picture; `Machine.screen_repainted` — what is on the screen of a machine, and what a step does to it.
-/

set_option autoImplicit false

namespace DotMatrix

/-! ## Shades -/

/-- White, the two greys and black. -/
theorem Shade.intensity_cases (s : Shade) :
    s.intensity = 0xFF ∨ s.intensity = 0xAA ∨ s.intensity = 0x55 ∨ s.intensity = 0x00 := by
  revert s
  decide

namespace Frame

/-- Every pixel is one of the four shades: three equal components, and opaque. -/
def Shaded (f : Frame) : Prop := ∀ y x, ∃ s : Shade, f.pixel y x = shadeBytes s

theorem shaded_white : white.Shaded := by
  intro y x
  refine ⟨Shade.white, ?_⟩
  simp only [pixel, white, Memory.getElem_filled]
  rfl

theorem Shaded.drawRow {f : Frame} (h : f.Shaded) (y : Fin 144) (row : ShadeRow) :
    (f.drawRow y row).Shaded := by
  intro y' x
  rw [pixel_drawRow]
  split
  · exact ⟨row.get x, rfl⟩
  · exact h y' x

end Frame

/-! ## Video units -/

namespace Video

variable {v w : Video} {ticks : UInt32}

/-- The scan of video memory gives way to the horizontal blank between two moments. -/
def EndsScan (v w : Video) : Prop := v.regs.mode = .vramScan ∧ w.regs.mode = .hblank

theorem Poked.endsScan_iff (h : v.Poked w) (x : Video) : w.EndsScan x ↔ v.EndsScan x := by
  have hmode : w.regs.mode = v.regs.mode := congrArg Phase.mode h.phase_eq
  rw [EndsScan, EndsScan, hmode]

theorem tick_of_scanned (hmode : v.regs.mode = .vramScan)
    (hover : v.regs.mode.duration ≤ (advanceClock v.clock ticks).toNat) :
    (v.tick ticks).1 = v.atDrawing.drawLine := by
  unfold tick nextMode
  simp only
  rw [if_pos hover, hmode]
  rfl

theorem phase_atDrawing (v : Video) : v.atDrawing.phase = ⟨.hblank, v.regs.ly.toNat, 0⟩ := by
  simp only [phase, atDrawing, Registers.mode_setMode, Registers.ly_setMode]
  rfl

/-- A scan ends when its time is over. -/
theorem endsScan_tick_iff :
    v.EndsScan (v.tick ticks).1 ↔
      v.regs.mode = .vramScan ∧ v.regs.mode.duration ≤ (advanceClock v.clock ticks).toNat := by
  constructor
  · rintro ⟨hmode, hnext⟩
    refine ⟨hmode, Nat.le_of_not_lt fun hlasts => ?_⟩
    rw [tick, if_neg (Nat.not_le_of_lt hlasts)] at hnext
    exact absurd (hmode.symm.trans hnext) (by decide)
  · rintro ⟨hmode, hover⟩
    refine ⟨hmode, ?_⟩
    rw [tick_of_scanned hmode hover]
    exact congrArg Phase.mode (v.atDrawing.phase_drawLine.trans v.phase_atDrawing)

/-- **Only the end of a scan reaches the picture.** -/
theorem frame_tick_of_not (h : ¬ v.EndsScan (v.tick ticks).1) :
    (v.tick ticks).1.frame = v.frame := by
  have hrow : v.rowDrawn? ticks = none := if_neg (mt endsScan_tick_iff.2 h)
  rw [frame_tick, hrow]

/-- **The end of a scan draws the line.**  Its row gets the shades of the line, and no byte of another row
changes. -/
theorem frame_tick_of_endsScan (h : v.EndsScan (v.tick ticks).1) :
    (v.tick ticks).1.regs.ly = v.regs.ly ∧
      (∀ (y : Fin 144) (x : Fin 160), y.val = v.regs.ly.toNat →
        (v.tick ticks).1.frame.pixel y x = Frame.shadeBytes (v.atDrawing.lineShades.get x)) ∧
      ∀ i : Fin 92160, i.val / 640 ≠ v.regs.ly.toNat →
        (v.tick ticks).1.frame.get i = v.frame.get i := by
  have hscan := endsScan_tick_iff.1 h
  have hline : (v.tick ticks).1.regs.ly.toNat = v.regs.ly.toNat := by
    rw [tick_of_scanned hscan.1 hscan.2]
    exact congrArg Phase.line (v.atDrawing.phase_drawLine.trans v.phase_atDrawing)
  have hrow : v.rowDrawn? ticks =
      if h : v.regs.ly.toNat < 144 then some ⟨v.regs.ly.toNat, h⟩ else none := if_pos hscan
  rw [frame_tick, hrow]
  refine ⟨UInt8.toNat_inj.1 hline, ?_, ?_⟩
  · intro y x hy
    have hlt : v.regs.ly.toNat < 144 := hy ▸ y.isLt
    simp only [dif_pos hlt]
    rw [Frame.pixel_drawRow, if_pos (Fin.ext hy)]
  · intro i hi
    by_cases hlt : v.regs.ly.toNat < 144
    · simp only [dif_pos hlt]
      exact Frame.get_drawRow_of_ne _ _ _ hi
    · simp only [dif_neg hlt]

theorem shaded_tick (h : v.frame.Shaded) (ticks : UInt32) : (v.tick ticks).1.frame.Shaded := by
  rw [frame_tick]
  split
  · exact h
  · exact h.drawRow _ _

theorem Reachable.shaded (h : v.Reachable) : v.frame.Shaded := by
  induction h with
  | powerOn => exact Frame.shaded_white
  | poke _ hw ih =>
    rw [hw.frame_eq]
    exact ih
  | tick _ ticks ih => exact shaded_tick ih ticks
  | decodeTiles _ ih =>
    rw [decodeTiles_frame]
    exact ih

end Video

/-! ## Machines -/

namespace Machine

/-- A step that is carried out is, for the video unit, writes and then time. -/
theorem video_perform_step (m : Machine) :
    (∃ v ticks, m.bus.video.Poked v ∧ (m.perform .step).bus.video = (v.tick ticks).1) ∨
      m.perform .step = m := by
  unfold perform stepOnce
  cases hs : m.step with
  | error fault => exact .inr rfl
  | ok r =>
    obtain ⟨v, ticks, hpoked, -, -, hvideo⟩ := video_of_step hs
    exact .inl ⟨v, ticks, hpoked, hvideo⟩

/-- **The screen of a machine.**  Every pixel of a reachable machine is white, black or one of two greys, and
opaque.  A step of any machine that ends the scan of video memory draws the row of the current line, with the
shades that the line has after the instruction's writes, and changes no byte outside this row; no other step
changes the picture. -/
theorem screen_repainted :
    (∀ m, Reachable m → ∀ (y : Fin 144) (x : Fin 160), ∃ g : UInt8,
      (g = 0xFF ∨ g = 0xAA ∨ g = 0x55 ∨ g = 0x00) ∧
        m.bus.video.frame.pixel y x = [g, g, g, 0xFF]) ∧
      ∀ m : Machine,
        if m.bus.video.regs.mode = .vramScan ∧ (m.perform .step).bus.video.regs.mode = .hblank then
          (m.perform .step).bus.video.regs.ly = m.bus.video.regs.ly ∧
            (∃ v, m.bus.video.Poked v ∧ ∀ (y : Fin 144) (x : Fin 160),
              y.val = m.bus.video.regs.ly.toNat →
                (m.perform .step).bus.video.frame.pixel y x =
                  Frame.shadeBytes (v.atDrawing.lineShades.get x)) ∧
            ∀ i : Fin 92160, i.val / 640 ≠ m.bus.video.regs.ly.toNat →
              (m.perform .step).bus.video.frame.get i = m.bus.video.frame.get i
        else (m.perform .step).bus.video.frame = m.bus.video.frame := by
  constructor
  · intro m hm y x
    obtain ⟨s, hs⟩ := hm.video.shaded y x
    exact ⟨s.intensity, s.intensity_cases, hs⟩
  · intro m
    rcases m.video_perform_step with ⟨v, ticks, hpoked, hvideo⟩ | hrefused
    · have hly : v.regs.ly = m.bus.video.regs.ly :=
        UInt8.toNat_inj.1 (congrArg Phase.line hpoked.phase_eq)
      rw [hvideo, ← hpoked.frame_eq, ← hly]
      split
      · rename_i hends
        obtain ⟨hline, hdrawn, hkept⟩ :=
          Video.frame_tick_of_endsScan ((hpoked.endsScan_iff _).2 hends)
        exact ⟨hline, ⟨v, hpoked, hdrawn⟩, hkept⟩
      · rename_i hends
        exact Video.frame_tick_of_not (mt (hpoked.endsScan_iff _).1 hends)
    · rw [hrefused, if_neg]
      rintro ⟨hscan, hblank⟩
      rw [hscan] at hblank
      cases hblank

/-- A machine whose scan of video memory on the first line has one tick left. -/
def scanEnding : Machine := ((create {}).perform (.tick 80)).perform (.tick 171)

theorem screen_scanEnding :
    Reachable scanEnding ∧
      (scanEnding.bus.video.regs.mode = .vramScan ∧
        (scanEnding.perform .step).bus.video.regs.mode = .hblank) ∧
      (∀ px, ∃ g : UInt8, (g = 0xFF ∨ g = 0xAA ∨ g = 0x55 ∨ g = 0x00) ∧
        scanEnding.bus.video.frame.pixel 143 px = [g, g, g, 0xFF]) ∧
      ∀ i : Fin 92160, 640 ≤ i.val →
        (scanEnding.perform .step).bus.video.frame.get i = scanEnding.bus.video.frame.get i := by
  have hreach : Reachable scanEnding := ((Reachable.create _).call _).call _
  have hends : scanEnding.bus.video.regs.mode = .vramScan ∧
      (scanEnding.perform .step).bus.video.regs.mode = .hblank := by decide +kernel
  have hline : scanEnding.bus.video.regs.ly.toNat = 0 := by decide +kernel
  have hstep := screen_repainted.2 scanEnding
  rw [if_pos hends, hline] at hstep
  refine ⟨hreach, hends, screen_repainted.1 _ hreach 143, fun i hi => hstep.2.2 i ?_⟩
  omega

end Machine

end DotMatrix
