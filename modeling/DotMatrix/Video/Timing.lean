import DotMatrix.Video.Line

/-!
# Passage of time in the video unit

The clock of the current mode runs until the mode's duration is over; then the clock restarts and
the video unit goes on to the next mode.  However many ticks pass at once, at most one step is
made.

* `Video.advanceClock` — the clock after some ticks; it stops at the largest number it can hold.
* `Video.nextMode` — what happens when a mode is over.
* `Video.tick` — lets ticks pass; the flag says that the picture was completed.
-/

set_option autoImplicit false

namespace DotMatrix

namespace Video

/-- The line whose beginning starts the vertical blank. -/
def blankLine : UInt8 := 143

/-- The last line of the vertical blank. -/
def lastLine : UInt8 := 153

/-- The clock after some ticks. -/
def advanceClock (clock ticks : UInt32) : UInt32 :=
  UInt32.ofNat (min (clock.toNat + ticks.toNat) 0xFFFFFFFF)

/-- Goes on from a mode that is over.  The flag says that the vertical blank begins, and with it
that the picture is complete. -/
def nextMode (v : Video) : Video × Bool :=
  match v.regs.mode with
  | .oamScan => ({ v with regs := v.regs.setMode .vramScan }, false)
  | .vramScan => (drawLine { v with regs := v.regs.setMode .hblank }, false)
  | .hblank =>
    let line := v.regs.ly + 1
    if line = blankLine then ({ v with regs := (v.regs.setLine line).setMode .vblank }, true)
    else ({ v with regs := (v.regs.setLine line).setMode .oamScan }, false)
  | .vblank =>
    let line := v.regs.ly + 1
    if lastLine < line then
      ({ v with regs := (v.regs.setLine 0).setMode .oamScan, windowLine := 0 }, false)
    else ({ v with regs := v.regs.setLine line }, false)

/-- Lets clock ticks pass. -/
def tick (v : Video) (ticks : UInt32) : Video × Bool :=
  let clock := advanceClock v.clock ticks
  if v.regs.mode.duration ≤ clock.toNat then nextMode { v with clock := 0 }
  else ({ v with clock := clock }, false)

end Video

end DotMatrix
