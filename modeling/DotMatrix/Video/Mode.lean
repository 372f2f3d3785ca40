/-!
# Modes of the video unit

A visible line goes through three modes: a scan of the sprite table, a scan of video memory and a
horizontal blank.  The lines below the picture are spent in the vertical blank.

* `Mode` — the four modes; `Mode.bits` and `Mode.ofBits` give their two-bit code.
* `Mode.duration` — how many clock ticks a mode lasts (for the vertical blank: each of its lines).
-/

set_option autoImplicit false

namespace DotMatrix

/-- What the video unit is doing. -/
inductive Mode where
  | hblank
  | vblank
  | oamScan
  | vramScan
  deriving DecidableEq, Repr

namespace Mode

/-- The code of a mode in the low two bits of the STAT register. -/
def bits : Mode → UInt8
  | hblank => 0
  | vblank => 1
  | oamScan => 2
  | vramScan => 3

/-- The mode whose code is in the low two bits of a byte; the other bits do not matter. -/
def ofBits (b : UInt8) : Mode :=
  match b.toNat % 4 with
  | 0 => hblank
  | 1 => vblank
  | 2 => oamScan
  | _ => vramScan

/-- Clock ticks after which the video unit leaves the mode, or goes to the next line of the
vertical blank. -/
def duration : Mode → Nat
  | oamScan => 80
  | vramScan => 172
  | hblank => 204
  | vblank => 456

theorem ofBits_bits (m : Mode) : ofBits m.bits = m := by
  cases m <;> rfl

/-- The code of a mode, put into the low bits of any byte, is read back. -/
theorem ofBits_or_bits (b : UInt8) (m : Mode) : ofBits ((b &&& 0xFC) ||| m.bits) = m := by
  have h : ∀ x : BitVec 8, ofBits ((UInt8.ofBitVec x &&& 0xFC) ||| m.bits) = m := by
    cases m <;> decide
  exact h b.toBitVec

/-- Bit 2 of a byte has no part in the mode. -/
theorem ofBits_or_four (b : UInt8) : ofBits (b ||| 0x04) = ofBits b := by
  have h : ∀ x : BitVec 8, ofBits (UInt8.ofBitVec x ||| 0x04) = ofBits (UInt8.ofBitVec x) := by
    decide
  exact h b.toBitVec

theorem ofBits_and_not_four (b : UInt8) : ofBits (b &&& 0xFB) = ofBits b := by
  have h : ∀ x : BitVec 8, ofBits (UInt8.ofBitVec x &&& 0xFB) = ofBits (UInt8.ofBitVec x) := by
    decide
  exact h b.toBitVec

end Mode

end DotMatrix
