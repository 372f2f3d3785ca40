import DotMatrix.Proofs.Checked.Sprite
import DotMatrix.Video.Timing

/-!
# The video unit, with all checks

A line is drawn into the picture when its scan of video memory is over, and writes to video memory decode
a tile row again.  Everything else that the video unit does wraps around, stops at the largest number or
ignores what is out of range.

* `Checked.paintRow`, `Checked.drawLine` — the bytes of a row of the picture, and drawing them.
* `Checked.nextMode`, `Checked.tick` — passage of time.
* `Checked.readMemory`, `Checked.writeMemory` — access to video memory.

Principal results: `Checked.drawLine_eq`, `Checked.tick_eq`, `Checked.writeMemory_eq` — in no state of the
video unit a check fails.
-/

set_option autoImplicit false

namespace DotMatrix

namespace Checked

/-- Paints a row of the picture. -/
def paintRow (frame : Frame) (line : Nat) (shades : ShadeRow) : Checked Frame := do
  let base ← Width.index.mul (← Width.index.mul line 160) 4
  loop 0 160 frame fun frame px => do
    let shade ← fetch shades px
    let intensity ← Width.byte.sub 255 (← Width.byte.mul shade.val 85)
    let offset ← Width.index.add base (← Width.index.mul px 4)
    let frame ← store frame offset (UInt8.ofNat intensity)
    let frame ← store frame (← Width.index.add offset 1) (UInt8.ofNat intensity)
    let frame ← store frame (← Width.index.add offset 2) (UInt8.ofNat intensity)
    store frame (← Width.index.add offset 3) 0xFF

/-- The shades of a line with its sprites. -/
def lineShades (v : Video) (l : LineBuffers) : Checked ShadeRow := do
  if ← layerBit v.regs 1 then paintSprites v l.colors l.shades else return l.shades

/-- Draws the current line into the picture. -/
def drawLine (v : Video) : Checked Video := do
  let line := v.regs.ly.toNat
  if 144 ≤ line then return v
  else
    let (l, windowLine) ← background v .blank >>= window v
    let frame ← paintRow v.frame line (← lineShades v l)
    return { v with frame := frame, windowLine := windowLine }

/-- Goes on from a mode that is over. -/
def nextMode (v : Video) : Checked (Video × Bool) := do
  match v.regs.mode with
  | .vramScan => return (← drawLine { v with regs := v.regs.setMode .hblank }, false)
  | _ => return v.nextMode

/-- Lets clock ticks pass. -/
def tick (v : Video) (ticks : UInt32) : Checked (Video × Bool) :=
  let clock := Video.advanceClock v.clock ticks
  if v.regs.mode.duration ≤ clock.toNat then nextMode { v with clock := 0 }
  else return ({ v with clock := clock }, false)

/-- Reads a byte of video memory. -/
def readMemory (v : Video) (addr : UInt16) : Checked UInt8 := fetch v.vram (addr.toNat % 0x2000)

/-- Writes a byte of video memory. -/
def writeMemory (v : Video) (addr : UInt16) (b : UInt8) : Checked Video := do
  let i := addr.toNat % 0x2000
  let vram ← store v.vram i b
  if i < (← Width.index.mul 384 16) then
    return { v with vram := vram, tiles := ← decodeRow vram v.tiles i }
  else return { v with vram := vram }

/-! ## No check fails -/

theorem paintRow_eq (frame : Frame) (y : Fin 144) (shades : ShadeRow) :
    paintRow frame y.val shades = .ok (frame.drawRow y shades) := by
  rw [paintRow, Width.mul_ok (by simp only [Width.limit]; omega), ok_bind,
    Width.mul_ok (by simp only [Width.limit]; omega), ok_bind]
  refine loop_eq_foldl (fun frame px => ?_) frame
  have hshade := (shades.get px).isLt
  have hoffset : y.val * 160 * 4 + px.val * 4 = 640 * y.val + 4 * px.val := by omega
  rw [fetch_ok shades px.isLt, ok_bind, ← get_eq_getElem shades px,
    Width.mul_ok (by simp only [Width.limit]; omega), ok_bind, Width.sub_ok (by omega), ok_bind,
    Width.mul_ok (by simp only [Width.limit]; omega), ok_bind,
    Width.add_ok (by simp only [Width.limit]; omega), ok_bind, hoffset,
    store_ok frame (by omega), ok_bind,
    Width.add_ok (by simp only [Width.limit]; omega), ok_bind, store_ok _ (by omega), ok_bind,
    Width.add_ok (by simp only [Width.limit]; omega), ok_bind, store_ok _ (by omega), ok_bind,
    Width.add_ok (by simp only [Width.limit]; omega), ok_bind, store_ok _ (by omega)]
  rfl

theorem lineShades_eq (v : Video) : lineShades v (.ofPixels v.backdrop) = .ok v.lineShades := by
  have hcolors : (LineBuffers.ofPixels v.backdrop).colors = v.backdropRow.map Pixel.color := by
    simp only [LineBuffers.ofPixels, Video.backdropRow, Vector.map_ofFn]
    rfl
  have hshades : (LineBuffers.ofPixels v.backdrop).shades = v.backdropRow.map Pixel.shade := by
    simp only [LineBuffers.ofPixels, Video.backdropRow, Vector.map_ofFn]
    rfl
  rw [lineShades, layerBit_eq _ (by decide), ok_bind, hcolors, hshades, paintSprites_eq]
  unfold Video.lineShades Registers.spritesEnabled
  split <;> rfl

/-- **Every line can be drawn**, in the picture or below it. -/
theorem drawLine_eq (v : Video) : drawLine v = .ok v.drawLine := by
  unfold drawLine Video.drawLine
  by_cases hline : v.regs.ly.toNat < 144
  · rw [if_neg (by omega), dif_pos hline, backdrop_eq, ok_bind]
    simp only
    rw [lineShades_eq, ok_bind, paintRow_eq v.frame ⟨v.regs.ly.toNat, hline⟩, ok_bind]
    rfl
  · rw [if_pos (by omega), dif_neg hline]
    rfl

theorem nextMode_eq (v : Video) : nextMode v = .ok v.nextMode := by
  unfold nextMode
  cases hmode : v.regs.mode with
  | vramScan =>
    simp only [drawLine_eq, ok_bind, Video.nextMode, hmode]
    rfl
  | _ => rfl

theorem tick_eq (v : Video) (ticks : UInt32) : tick v ticks = .ok (v.tick ticks) := by
  unfold tick Video.tick
  simp only [nextMode_eq]
  split <;> rfl

theorem readMemory_eq (v : Video) (addr : UInt16) :
    readMemory v addr = .ok (v.readMemory (Video.offset addr)) :=
  fetch_ok v.vram (Nat.mod_lt _ (by decide))

theorem writeMemory_eq (v : Video) (addr : UInt16) (b : UInt8) :
    writeMemory v addr b = .ok (v.writeMemory (Video.offset addr) b) := by
  rw [writeMemory, store_ok v.vram (Nat.mod_lt _ (by decide)), ok_bind, Width.mul_ok (by decide),
    ok_bind]
  unfold Video.writeMemory
  by_cases hi : addr.toNat % 0x2000 < 0x1800
  · rw [if_pos (by omega), dif_pos (show (Video.offset addr).val < 0x1800 from hi),
      decodeRow_eq _ _ hi]
    rfl
  · rw [if_neg (by omega), dif_neg (show ¬ (Video.offset addr).val < 0x1800 from hi)]
    rfl

end Checked

end DotMatrix
