import DotMatrix.Video.Mode

/-!
# Registers of the video unit

Twelve bytes control the picture.  Most are plain storage, but the mode and coincidence bits of STAT
belong to the hardware, the line counter cannot be written, and a new comparison line is compared
with the current line at once.

* `VideoRegister` — the twelve registers as names; `VideoRegister.ofAddr?` finds the one at an
  address.
* `Registers` — their contents; `Registers.read` and `Registers.write` are what a program does.
* `Registers.mode`, `Registers.setMode`, `Registers.setLine` — what the video unit does.

Principal results: `Registers.mode_setMode`, `Registers.coincidence_compareLine` — the hardware's
bits of STAT are what they stand for; `Registers.mode_write` — a program cannot change the mode.
-/

set_option autoImplicit false

namespace DotMatrix

/-- A register of the video unit, as programs address it. -/
inductive VideoRegister where
  | lcdc
  | stat
  | scy
  | scx
  | ly
  | lyc
  | dma
  | bgp
  | obp0
  | obp1
  | wy
  | wx
  deriving DecidableEq, Repr

namespace VideoRegister

/-- The registers in the order of their addresses. -/
def all : List VideoRegister := [lcdc, stat, scy, scx, ly, lyc, dma, bgp, obp0, obp1, wy, wx]

/-- The register at an address of the bus, if there is one: they lie side by side from 0xFF40 on. -/
def ofAddr? (addr : UInt16) : Option VideoRegister :=
  if addr.toNat < 0xFF40 then none else all[addr.toNat - 0xFF40]?

end VideoRegister

/-- Contents of the registers. -/
structure Registers where
  /-- Switches of the picture's layers. -/
  lcdc : UInt8
  /-- The mode in bits 0 and 1, the coincidence of line and comparison line in bit 2. -/
  stat : UInt8
  /-- Top of the background's visible part. -/
  scy : UInt8
  /-- Left edge of the background's visible part. -/
  scx : UInt8
  /-- The current line. -/
  ly : UInt8
  /-- The comparison line. -/
  lyc : UInt8
  /-- Source page of the last transfer to the sprite table. -/
  dma : UInt8
  /-- Palette of background and window. -/
  bgp : UInt8
  /-- First palette of the sprites. -/
  obp0 : UInt8
  /-- Second palette of the sprites. -/
  obp1 : UInt8
  /-- First line of the window. -/
  wy : UInt8
  /-- First column of the window, plus 7. -/
  wx : UInt8
  deriving DecidableEq, Repr

namespace Registers

/-- The display is switched on. -/
def lcdEnabled (r : Registers) : Bool := r.lcdc.toNat.testBit 7

/-- The window uses the second tile map. -/
def windowMapHigh (r : Registers) : Bool := r.lcdc.toNat.testBit 6

/-- The window is shown. -/
def windowEnabled (r : Registers) : Bool := r.lcdc.toNat.testBit 5

/-- Map entries of background and window count tiles from 0. -/
def tilesUnsigned (r : Registers) : Bool := r.lcdc.toNat.testBit 4

/-- The background uses the second tile map. -/
def backgroundMapHigh (r : Registers) : Bool := r.lcdc.toNat.testBit 3

/-- Sprites are two tiles high. -/
def spritesTall (r : Registers) : Bool := r.lcdc.toNat.testBit 2

/-- Sprites are shown. -/
def spritesEnabled (r : Registers) : Bool := r.lcdc.toNat.testBit 1

/-- The background is shown. -/
def backgroundEnabled (r : Registers) : Bool := r.lcdc.toNat.testBit 0

/-- The current mode, kept in STAT. -/
def mode (r : Registers) : Mode := Mode.ofBits r.stat

/-- The coincidence bit of STAT: what programs are told about line and comparison line. -/
def coincidence (r : Registers) : Bool := r.stat.toNat.testBit 2

/-- Changes the mode and leaves the other bits of STAT alone. -/
def setMode (r : Registers) (m : Mode) : Registers :=
  { r with stat := (r.stat &&& 0xFC) ||| m.bits }

/-- Brings the coincidence bit of STAT up to date. -/
def compareLine (r : Registers) : Registers :=
  { r with stat := if r.ly = r.lyc then r.stat ||| 0x04 else r.stat &&& 0xFB }

/-- Moves to a line. -/
def setLine (r : Registers) (line : UInt8) : Registers :=
  compareLine { r with ly := line }

/-- Every register is zero. -/
def zero : Registers := ⟨0, 0, 0, 0, 0, 0, 0, 0, 0, 0, 0, 0⟩

/-- The registers after power on: the scan of line 0 begins. -/
def powerOn : Registers := (zero.setMode .oamScan).compareLine

/-- What a program reads from a register. -/
def read (r : Registers) : VideoRegister → UInt8
  | .lcdc => r.lcdc
  | .stat => r.stat
  | .scy => r.scy
  | .scx => r.scx
  | .ly => r.ly
  | .lyc => r.lyc
  | .dma => r.dma
  | .bgp => r.bgp
  | .obp0 => r.obp0
  | .obp1 => r.obp1
  | .wy => r.wy
  | .wx => r.wx

/-- What a program's write to a register does.  Mode and coincidence bits and the
current line cannot be written; a new comparison line is compared at once. -/
def write (r : Registers) (p : VideoRegister) (b : UInt8) : Registers :=
  match p with
  | .lcdc => { r with lcdc := b }
  | .stat => { r with stat := (b &&& 0x78) ||| (r.stat &&& 0x07) }
  | .scy => { r with scy := b }
  | .scx => { r with scx := b }
  | .ly => r
  | .lyc => compareLine { r with lyc := b }
  | .dma => { r with dma := b }
  | .bgp => { r with bgp := b }
  | .obp0 => { r with obp0 := b }
  | .obp1 => { r with obp1 := b }
  | .wy => { r with wy := b }
  | .wx => { r with wx := b }

/-- The window is drawn on the current line. -/
def windowShows (r : Registers) : Bool :=
  r.windowEnabled && decide (r.wy ≤ r.ly) && decide (r.wx ≤ 166)

theorem mode_setMode (r : Registers) (m : Mode) : (r.setMode m).mode = m :=
  Mode.ofBits_or_bits r.stat m

theorem mode_compareLine (r : Registers) : r.compareLine.mode = r.mode := by
  unfold compareLine mode
  split
  · exact Mode.ofBits_or_four r.stat
  · exact Mode.ofBits_and_not_four r.stat

theorem coincidence_compareLine (r : Registers) :
    r.compareLine.coincidence = decide (r.ly = r.lyc) := by
  have hset : ∀ x : BitVec 8, (UInt8.ofBitVec x ||| 0x04).toNat.testBit 2 = true := by decide
  have hclear : ∀ x : BitVec 8, (UInt8.ofBitVec x &&& 0xFB).toNat.testBit 2 = false := by decide
  unfold compareLine coincidence
  by_cases h : r.ly = r.lyc
  · simp only [h, if_pos, decide_true]
    exact hset r.stat.toBitVec
  · simp only [h, if_neg, decide_false, not_false_eq_true]
    exact hclear r.stat.toBitVec

theorem coincidence_setMode (r : Registers) (m : Mode) :
    (r.setMode m).coincidence = r.coincidence := by
  have h : ∀ x : BitVec 8, ((UInt8.ofBitVec x &&& 0xFC) ||| m.bits).toNat.testBit 2 =
      (UInt8.ofBitVec x).toNat.testBit 2 := by
    cases m <;> decide
  exact h r.stat.toBitVec

/-- **A program cannot change the mode.** -/
theorem mode_write (r : Registers) (p : VideoRegister) (b : UInt8) :
    (r.write p b).mode = r.mode := by
  have hx : ∀ x : BitVec 8, (UInt8.ofBitVec x &&& 0x78).toNat % 4 = 0 := by decide
  have hy : ∀ y : BitVec 8,
      (UInt8.ofBitVec y &&& 0x07).toNat % 4 = (UInt8.ofBitVec y).toNat % 4 := by decide
  have hor : ∀ m n : Nat, (m ||| n) % 4 = (m % 4 ||| n % 4) :=
    fun m n => Nat.or_mod_two_pow (n := 2)
  cases p
  case stat =>
    have e : ((b &&& 0x78) ||| (r.stat &&& 0x07)).toNat % 4 = r.stat.toNat % 4 := by
      rw [UInt8.toNat_or, hor, hx b.toBitVec, hy r.stat.toBitVec, Nat.zero_or]
    show Mode.ofBits ((b &&& 0x78) ||| (r.stat &&& 0x07)) = Mode.ofBits r.stat
    unfold Mode.ofBits
    rw [e]
  case lyc => exact mode_compareLine { r with lyc := b }
  all_goals rfl

end Registers

end DotMatrix
