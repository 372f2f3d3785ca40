import DotMatrix.Cpu.Basic

/-!
# Arithmetic and logic

The operations of the arithmetic unit as functions of bytes and flags, with carries computed in
the natural numbers, where nothing wraps.

* `AluOp.eval` — the eight accumulator operations: a byte and all four flags.
* `ShiftOp.eval` — the eight shifts and rotations: a byte and the bit that falls out.
* `Alu.decimalAdjust` — corrects a sum or difference of packed decimal digits.
* `Alu.offset` — adds a signed byte to a word.
* `Cpu.accumulate`, `Cpu.shift` and others — the same with the registers of the CPU.
-/

set_option autoImplicit false

namespace DotMatrix

/-- An accumulator operation. -/
inductive AluOp where
  | add
  | adc
  | sub
  | sbc
  | and
  | xor
  | or
  | cp
  deriving DecidableEq, Repr

/-- A shift or rotation. -/
inductive ShiftOp where
  | rlc
  | rrc
  | rl
  | rr
  | sla
  | sra
  | swap
  | srl
  deriving DecidableEq, Repr

namespace Alu

/-- Sum of two bytes and a carry. -/
def sum (a v : UInt8) (carry : Bool) : UInt8 × Flags :=
  let k := carry.toNat
  let r := UInt8.ofNat (a.toNat + v.toNat + k)
  (r, { z := r = 0, n := false
        h := 16 ≤ a.toNat % 16 + v.toNat % 16 + k
        c := 256 ≤ a.toNat + v.toNat + k })

/-- Difference of two bytes and a borrow. -/
def difference (a v : UInt8) (borrow : Bool) : UInt8 × Flags :=
  let k := borrow.toNat
  let r := a - v - UInt8.ofNat k
  (r, { z := r = 0, n := true
        h := a.toNat % 16 < v.toNat % 16 + k
        c := a.toNat < v.toNat + k })

/-- Result of a bitwise operation: no carries. -/
def bitwise (r : UInt8) (half : Bool) : UInt8 × Flags :=
  (r, { z := r = 0, n := false, h := half, c := false })

/-- Makes packed decimal digits of the result of an addition or subtraction of such digits, given
the flags that the operation left.  Returns the byte and the carry. -/
def decimalAdjust (a : UInt8) (n h c : Bool) : UInt8 × Bool :=
  if n then
    let x := if c then a - 0x60 else a
    (if h then x - 0x06 else x, c)
  else
    let carry := c || decide (0x99 < a)
    let x := if carry then a + 0x60 else a
    (if h || decide (9 < x.toNat % 16) then x + 0x06 else x, carry)

/-- A byte read as a two's-complement number, in a word. -/
def signExtend (e : UInt8) : UInt16 :=
  if e.toNat < 0x80 then UInt16.ofNat e.toNat else UInt16.ofNat (0xFF00 + e.toNat)

/-- A word plus a signed byte.  Both carries are those of the low bytes. -/
def offset (w : UInt16) (e : UInt8) : UInt16 × Flags :=
  (w + signExtend e,
    { z := false, n := false
      h := 16 ≤ w.toNat % 16 + e.toNat % 16
      c := 256 ≤ w.toNat % 256 + e.toNat })

end Alu

namespace AluOp

/-- The operation that a three-bit code selects; higher bits do not matter. -/
def ofCode (code : Nat) : AluOp :=
  match code % 8 with
  | 0 => add
  | 1 => adc
  | 2 => sub
  | 3 => sbc
  | 4 => and
  | 5 => xor
  | 6 => or
  | _ => cp

/-- Result and flags of an operation on the accumulator and an operand.  A comparison has the
result and flags of a subtraction. -/
def eval (op : AluOp) (a v : UInt8) (carry : Bool) : UInt8 × Flags :=
  match op with
  | add => Alu.sum a v false
  | adc => Alu.sum a v carry
  | sub => Alu.difference a v false
  | sbc => Alu.difference a v carry
  | and => Alu.bitwise (a &&& v) true
  | xor => Alu.bitwise (a ^^^ v) false
  | or => Alu.bitwise (a ||| v) false
  | cp => Alu.difference a v false

end AluOp

namespace ShiftOp

/-- The operation that a three-bit code selects; higher bits do not matter. -/
def ofCode (code : Nat) : ShiftOp :=
  match code % 8 with
  | 0 => rlc
  | 1 => rrc
  | 2 => rl
  | 3 => rr
  | 4 => sla
  | 5 => sra
  | 6 => swap
  | _ => srl

/-- The bit at the left end. -/
def topBit (v : UInt8) : Bool := v.toNat.testBit 7

/-- The bit at the right end. -/
def lowBit (v : UInt8) : Bool := v.toNat.testBit 0

/-- Result of a shift, and the bit that falls out. -/
def eval (op : ShiftOp) (v : UInt8) (carry : Bool) : UInt8 × Bool :=
  let k := UInt8.ofNat carry.toNat
  match op with
  | rlc => (v <<< 1 ||| v >>> 7, topBit v)
  | rrc => (v >>> 1 ||| v <<< 7, lowBit v)
  | rl => (v <<< 1 ||| k, topBit v)
  | rr => (v >>> 1 ||| k <<< 7, lowBit v)
  | sla => (v <<< 1, topBit v)
  | sra => (v >>> 1 ||| v &&& 0x80, lowBit v)
  | swap => (v <<< 4 ||| v >>> 4, false)
  | srl => (v >>> 1, lowBit v)

end ShiftOp

namespace Cpu

/-- Applies an accumulator operation.  A comparison sets the flags only. -/
def accumulate (c : Cpu) (op : AluOp) (v : UInt8) : Cpu :=
  let r := op.eval c.a v (c.flag .c)
  { c with a := if op = AluOp.cp then c.a else r.1 }.setFlags r.2

/-- Applies a shift to a byte and sets all four flags. -/
def shift (c : Cpu) (op : ShiftOp) (v : UInt8) : UInt8 × Cpu :=
  let r := op.eval v (c.flag .c)
  (r.1, c.setFlags { z := r.1 = 0, n := false, h := false, c := r.2 })

/-- Sets the flags Z, N and H and leaves the carry alone. -/
def setZnh (c : Cpu) (z n h : Bool) : Cpu := ((c.setFlag .z z).setFlag .n n).setFlag .h h

/-- Sets the flags N, H and C and leaves Z alone. -/
def setNhc (c : Cpu) (n h carry : Bool) : Cpu := ((c.setFlag .n n).setFlag .h h).setFlag .c carry

/-- Adds a word to HL; Z stays as it is. -/
def addHl (c : Cpu) (w : UInt16) : Cpu :=
  (c.setNhc false (decide (4096 ≤ c.hl.toNat % 4096 + w.toNat % 4096))
    (decide (65536 ≤ c.hl.toNat + w.toNat))).set16 .hl (c.hl + w)

/-- Corrects the accumulator after decimal arithmetic; N stays as it is. -/
def decimalAdjust (c : Cpu) : Cpu :=
  let r := Alu.decimalAdjust c.a (c.flag .n) (c.flag .h) (c.flag .c)
  ((({ c with a := r.1 }.setFlag .z (r.1 = 0)).setFlag .h false).setFlag .c r.2)

end Cpu

end DotMatrix
