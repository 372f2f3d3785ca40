import DotMatrix.Proofs.Checked.Bus
import Mathlib.Data.Nat.Bitwise

/-!
# Instructions, with all checks

Carries are found by sums of halves of bytes and words, in types that are barely wide enough for them.
What wraps around on purpose — increments, addresses, decimal corrections — is not checked.

* `Checked.get16`, `Checked.set16`, `Checked.getOperand`, `Checked.setOperand`, `Checked.push`,
  `Checked.pop` — registers, operands and the stack.
* `Checked.sum`, `Checked.difference`, `Checked.offset`, `Checked.evalShift` — the arithmetic unit.
* `Checked.exec` — what an instruction does.

Principal result: `Checked.exec_eq` — while external RAM has its size, no instruction fails a check.
-/

set_option autoImplicit false

namespace DotMatrix

namespace Checked

/-! ## Registers and operands -/

/-- The content of a 16-bit register. -/
def get16 (c : Cpu) : Reg16 → Checked UInt16
  | .af => word c.f c.a
  | .bc => word c.c c.b
  | .de => word c.e c.d
  | .hl => word c.l c.h
  | .sp => return c.sp

/-- Changes a 16-bit register. -/
def set16 (c : Cpu) (r : Reg16) (v : UInt16) : Checked Cpu := do
  let hi ← highByte v
  match r with
  | .af => return { c with a := hi, f := Bus.lowByte v &&& 0xF0 }
  | .bc => return { c with b := hi, c := Bus.lowByte v }
  | .de => return { c with d := hi, e := Bus.lowByte v }
  | .hl => return { c with h := hi, l := Bus.lowByte v }
  | .sp => return { c with sp := v }

/-- The value of an operand. -/
def getOperand (c : Cpu) (b : Bus) : Operand → Checked UInt8
  | .reg r => return c.get8 r
  | .atHl => do read b (← get16 c .hl)

/-- Changes an operand. -/
def setOperand (c : Cpu) (b : Bus) (o : Operand) (v : UInt8) : Checked (Cpu × Bus) :=
  match o with
  | .reg r => return (c.set8 r v, b)
  | .atHl => return (c, ← write b (← get16 c .hl) v)

/-- The byte after the opcode. -/
def imm8 (c : Cpu) (b : Bus) : Checked UInt8 := read b (c.pc + 1)

/-- The word after the opcode. -/
def imm16 (c : Cpu) (b : Bus) : Checked UInt16 := read16 b (c.pc + 1)

/-- Puts a word on the stack. -/
def push (c : Cpu) (b : Bus) (w : UInt16) : Checked (Cpu × Bus) := do
  let sp := c.sp - 2
  return ({ c with sp := sp }, ← write16 b sp w)

/-- Takes a word from the stack. -/
def pop (c : Cpu) (b : Bus) : Checked (UInt16 × Cpu) :=
  return (← read16 b c.sp, { c with sp := c.sp + 2 })

/-! ## Arithmetic -/

/-- Sum of two bytes and a carry: the whole in 16 bits, the low halves in 8. -/
def sum (a v : UInt8) (carry : Bool) : Checked (UInt8 × Flags) := do
  let k := carry.toNat
  let whole ← Width.word.add (← Width.word.add a.toNat v.toNat) k
  let half ← Width.byte.add (← Width.byte.add (a.toNat &&& 0xF) (v.toNat &&& 0xF)) k
  let r := UInt8.ofNat whole
  return (r, { z := r = 0, n := false, h := 0xF < half, c := 0xFF < whole })

/-- Difference of two bytes and a borrow, which wraps around. -/
def difference (a v : UInt8) (borrow : Bool) : Checked (UInt8 × Flags) := do
  let k := borrow.toNat
  let r := a - v - UInt8.ofNat k
  let half ← Width.byte.add (v.toNat &&& 0xF) k
  let whole ← Width.word.add v.toNat k
  return (r, { z := r = 0, n := true, h := (a.toNat &&& 0xF) < half, c := a.toNat < whole })

/-- Result and flags of an operation on the accumulator and an operand. -/
def evalAlu (op : AluOp) (a v : UInt8) (carry : Bool) : Checked (UInt8 × Flags) :=
  match op with
  | .add => sum a v false
  | .adc => sum a v carry
  | .sub => difference a v false
  | .sbc => difference a v carry
  | .cp => difference a v false
  | .and => return AluOp.and.eval a v carry
  | .xor => return AluOp.xor.eval a v carry
  | .or => return AluOp.or.eval a v carry

/-- Result of a shift, and the bit that falls out.  Rotations by a fixed number of bits are not
shifts. -/
def evalShift (op : ShiftOp) (v : UInt8) (carry : Bool) : Checked (UInt8 × Bool) := do
  let k := carry.toNat
  match op with
  | .rl => return (UInt8.ofNat ((← Width.byte.shiftLeft v.toNat 1) ||| k), ShiftOp.topBit v)
  | .rr =>
    let high ← Width.byte.shiftLeft k 7
    return (UInt8.ofNat ((← Width.byte.shiftRight v.toNat 1) ||| high), ShiftOp.lowBit v)
  | .sla => return (UInt8.ofNat (← Width.byte.shiftLeft v.toNat 1), ShiftOp.topBit v)
  | .sra =>
    let low ← Width.byte.shiftRight v.toNat 1
    return (UInt8.ofNat (low ||| (v.toNat &&& 0x80)), ShiftOp.lowBit v)
  | .srl => return (UInt8.ofNat (← Width.byte.shiftRight v.toNat 1), ShiftOp.lowBit v)
  | .rlc => return ShiftOp.rlc.eval v carry
  | .rrc => return ShiftOp.rrc.eval v carry
  | .swap => return ShiftOp.swap.eval v carry

/-- Applies an accumulator operation. -/
def accumulate (c : Cpu) (op : AluOp) (v : UInt8) : Checked Cpu := do
  let r ← evalAlu op c.a v (c.flag .c)
  return { c with a := if op = AluOp.cp then c.a else r.1 }.setFlags r.2

/-- Applies a shift to a byte. -/
def shift (c : Cpu) (op : ShiftOp) (v : UInt8) : Checked (UInt8 × Cpu) := do
  let r ← evalShift op v (c.flag .c)
  return (r.1, c.setFlags { z := r.1 = 0, n := false, h := false, c := r.2 })

/-- Adds a word to HL. -/
def addHl (c : Cpu) (w : UInt16) : Checked Cpu := do
  let hl ← get16 c .hl
  let half ← Width.word.add (hl.toNat &&& 0xFFF) (w.toNat &&& 0xFFF)
  set16 (c.setNhc false (0xFFF < half) (0x10000 ≤ hl.toNat + w.toNat)) .hl (hl + w)

/-- A word plus a signed byte. -/
def offset (w : UInt16) (e : UInt8) : Checked (UInt16 × Flags) := do
  let d := Alu.signExtend e
  let half ← Width.word.add (w.toNat &&& 0xF) (d.toNat &&& 0xF)
  let whole ← Width.word.add (w.toNat &&& 0xFF) (d.toNat &&& 0xFF)
  return (w + d, { z := false, n := false, h := 0xF < half, c := 0xFF < whole })

/-- The byte in which one bit is set. -/
def oneBit (bit : Fin 8) : Checked UInt8 :=
  return UInt8.ofNat (← Width.byte.shiftLeft 1 bit.val)

/-! ## Instructions -/

/-- Memory address of a pointer. -/
def pointerAddr (c : Cpu) (b : Bus) : Pointer → Checked UInt16
  | .bc => get16 c .bc
  | .de => get16 c .de
  | .hlInc => get16 c .hl
  | .hlDec => get16 c .hl
  | .highImm => return UInt16.ofNat (0xFF00 ||| (← imm8 c b).toNat)
  | .highC => return UInt16.ofNat (0xFF00 ||| c.c.toNat)
  | .imm => imm16 c b

/-- Moves HL on after an access through it. -/
def advancePointer (c : Cpu) : Pointer → Checked Cpu
  | .hlInc => do set16 c .hl ((← get16 c .hl) + 1)
  | .hlDec => do set16 c .hl ((← get16 c .hl) - 1)
  | _ => return c

/-- Goes to the address after the opcode. -/
def execJump (c : Cpu) (b : Bus) : Checked Outcome := return ⟨c.jump (← imm16 c b), b, 4⟩

/-- Goes to an address relative to the next instruction. -/
def execJumpRelative (c : Cpu) (b : Bus) : Checked Outcome :=
  return ⟨c.jump (c.pc + 2 + Alu.signExtend (← imm8 c b)), b, 3⟩

/-- Goes to the address after the opcode and leaves the address of the next instruction. -/
def execCall (c : Cpu) (b : Bus) : Checked Outcome := do
  let target ← imm16 c b
  let r ← push c b (c.pc + 3)
  return ⟨r.1.jump target, r.2, 6⟩

/-- Goes to the address on the stack. -/
def execRet (c : Cpu) (b : Bus) : Checked Outcome := do
  let r ← pop c b
  return ⟨r.2.jump r.1, b, 4⟩

/-- Goes to one of eight fixed addresses and leaves the address of the next instruction. -/
def execRestart (c : Cpu) (b : Bus) (vector : Fin 8) : Checked Outcome := do
  let r ← push c b (c.pc + 1)
  return ⟨r.1.jump (UInt16.ofNat (8 * vector.val)), r.2, 4⟩

/-- Carries out an instruction whose opcode is at the program counter. -/
def exec (i : Instr) (c : Cpu) (b : Bus) : Checked Outcome :=
  match i with
  | .load dst src => do
    let r ← setOperand c b dst (← getOperand c b src)
    return ⟨r.1, r.2, if dst.isMemory || src.isMemory then 2 else 1⟩
  | .loadImm dst => do
    let r ← setOperand c b dst (← imm8 c b)
    return ⟨r.1, r.2, Instr.operandCycles dst 2 3⟩
  | .loadA p => do
    let v ← read b (← pointerAddr c b p)
    return ⟨← advancePointer { c with a := v } p, b, 2 + Instr.pointerBytes p⟩
  | .storeA p => do
    let written ← write b (← pointerAddr c b p) c.a
    return ⟨← advancePointer c p, written, 2 + Instr.pointerBytes p⟩
  | .loadImm16 dst => do return ⟨← set16 c dst (← imm16 c b), b, 3⟩
  | .storeSp => do return ⟨c, ← write16 b (← imm16 c b) c.sp, 5⟩
  | .loadSpHl => do return ⟨{ c with sp := ← get16 c .hl }, b, 2⟩
  | .loadHlSp => do
    let r ← offset c.sp (← imm8 c b)
    return ⟨← set16 (c.setFlags r.2) .hl r.1, b, 3⟩
  | .push src => do
    let r ← push c b (← get16 c src)
    return ⟨r.1, r.2, 4⟩
  | .pop dst => do
    let r ← pop c b
    return ⟨← set16 r.2 dst r.1, b, 3⟩
  | .alu op src => do
    return ⟨← accumulate c op (← getOperand c b src), b, Instr.operandCycles src 1 2⟩
  | .aluImm op => do return ⟨← accumulate c op (← imm8 c b), b, 2⟩
  | .inc o => do
    let v ← getOperand c b o
    let r ← setOperand c b o (v + 1)
    return ⟨r.1.setZnh (v + 1 = 0) false (v.toNat % 16 = 15), r.2, Instr.operandCycles o 1 3⟩
  | .dec o => do
    let v ← getOperand c b o
    let r ← setOperand c b o (v - 1)
    return ⟨r.1.setZnh (v - 1 = 0) true (v.toNat % 16 = 0), r.2, Instr.operandCycles o 1 3⟩
  | .inc16 r => do return ⟨← set16 c r ((← get16 c r) + 1), b, 2⟩
  | .dec16 r => do return ⟨← set16 c r ((← get16 c r) - 1), b, 2⟩
  | .addHl src => do return ⟨← addHl c (← get16 c src), b, 2⟩
  | .addSp => do
    let r ← offset c.sp (← imm8 c b)
    return ⟨{ c.setFlags r.2 with sp := r.1 }, b, 4⟩
  | .rotateA op => do
    let r ← shift c op c.a
    return ⟨{ r.2 with a := r.1 }.setFlag .z false, b, 1⟩
  | .shift op o => do
    let r ← shift c op (← getOperand c b o)
    let s ← setOperand r.2 b o r.1
    return ⟨s.1, s.2, Instr.operandCycles o 2 4⟩
  | .testBit bit o => do
    let mask ← oneBit bit
    let v ← getOperand c b o
    return ⟨c.setZnh (v &&& mask = 0) false true, b, Instr.operandCycles o 2 4⟩
  | .clearBit bit o => do
    let mask ← oneBit bit
    let r ← setOperand c b o ((← getOperand c b o) &&& ~~~mask)
    return ⟨r.1, r.2, Instr.operandCycles o 2 4⟩
  | .setBit bit o => do
    let mask ← oneBit bit
    let r ← setOperand c b o ((← getOperand c b o) ||| mask)
    return ⟨r.1, r.2, Instr.operandCycles o 2 4⟩
  | .jump cond => if Instr.taken c cond then execJump c b else return ⟨c, b, 3⟩
  | .jumpHl => do return ⟨c.jump (← get16 c .hl), b, 1⟩
  | .jumpRelative cond => if Instr.taken c cond then execJumpRelative c b else return ⟨c, b, 2⟩
  | .call cond => if Instr.taken c cond then execCall c b else return ⟨c, b, 3⟩
  | .ret none => execRet c b
  | .ret (some x) =>
    if c.holds x then return { (← execRet c b) with cycles := 5 } else return ⟨c, b, 2⟩
  | .retEnable => execRet { c with ime := true } b
  | .restart vector => execRestart c b vector
  -- The others set flags and control bits, or correct the accumulator, and nothing can fail.
  | i => return i.exec c b

/-! ## No check fails -/

theorem and_low_half (n : Nat) : n &&& 0xF = n % 16 := Nat.and_two_pow_sub_one_eq_mod n 4

theorem and_low_byte (n : Nat) : n &&& 0xFF = n % 256 := Nat.and_two_pow_sub_one_eq_mod n 8

theorem and_low_twelve (n : Nat) : n &&& 0xFFF = n % 4096 := Nat.and_two_pow_sub_one_eq_mod n 12

/-! ### The arithmetic unit -/

theorem sum_eq (a v : UInt8) (carry : Bool) : sum a v carry = .ok (Alu.sum a v carry) := by
  have ha := a.toNat_lt
  have hv := v.toNat_lt
  have hcarry := carry.toNat_le
  simp only [sum, and_low_half]
  rw [Width.add_ok (by simp only [Width.limit]; omega), ok_bind,
    Width.add_ok (by simp only [Width.limit]; omega), ok_bind,
    Width.add_ok (by simp only [Width.limit]; omega), ok_bind,
    Width.add_ok (by simp only [Width.limit]; omega), ok_bind]
  rfl

theorem difference_eq (a v : UInt8) (borrow : Bool) :
    difference a v borrow = .ok (Alu.difference a v borrow) := by
  have hv := v.toNat_lt
  have hborrow := borrow.toNat_le
  simp only [difference, and_low_half]
  rw [Width.add_ok (by simp only [Width.limit]; omega), ok_bind,
    Width.add_ok (by simp only [Width.limit]; omega), ok_bind]
  rfl

theorem evalAlu_eq (op : AluOp) (a v : UInt8) (carry : Bool) :
    evalAlu op a v carry = .ok (op.eval a v carry) := by
  cases op with
  | add => exact sum_eq a v false
  | adc => exact sum_eq a v carry
  | sub => exact difference_eq a v false
  | sbc => exact difference_eq a v carry
  | cp => exact difference_eq a v false
  | _ => rfl

theorem ofNat_shiftLeft (n : Nat) {k : Nat} (h : k < 8) :
    UInt8.ofNat (n <<< k % Width.byte.limit) = UInt8.ofNat n <<< UInt8.ofNat k := by
  rw [← UInt8.ofNat_shiftLeft _ _ h]
  exact UInt8.ofNat_mod_size

theorem ofNat_shiftRight_one (v : UInt8) : UInt8.ofNat (v.toNat >>> 1) = v >>> 1 := by
  have hv := v.toNat_lt
  apply UInt8.toNat.inj
  rw [UInt8.toNat_ofNat', UInt8.toNat_shiftRight, Nat.shiftRight_eq_div_pow, Nat.mod_eq_of_lt]
  · rfl
  · omega

theorem evalShift_eq (op : ShiftOp) (v : UInt8) (carry : Bool) :
    evalShift op v carry = .ok (op.eval v carry) := by
  have hone : 1 < Width.byte.bits := by decide
  have hseven : 7 < Width.byte.bits := by decide
  cases op with
  | rl =>
    rw [evalShift, Width.shiftLeft_ok hone, ok_bind, UInt8.ofNat_or, ofNat_shiftLeft _ hone,
      UInt8.ofNat_toNat]
    rfl
  | rr =>
    rw [evalShift, Width.shiftLeft_ok hseven, ok_bind, Width.shiftRight_ok hone, ok_bind,
      UInt8.ofNat_or, ofNat_shiftLeft _ hseven, ofNat_shiftRight_one]
    rfl
  | sla =>
    rw [evalShift, Width.shiftLeft_ok hone, ok_bind, ofNat_shiftLeft _ hone, UInt8.ofNat_toNat]
    rfl
  | sra =>
    rw [evalShift, Width.shiftRight_ok hone, ok_bind, UInt8.ofNat_or, UInt8.ofNat_and,
      ofNat_shiftRight_one, UInt8.ofNat_toNat]
    rfl
  | srl =>
    rw [evalShift, Width.shiftRight_ok hone, ok_bind, ofNat_shiftRight_one]
    rfl
  | _ => rfl

theorem offset_eq (w : UInt16) (e : UInt8) : offset w e = .ok (Alu.offset w e) := by
  have he := e.toNat_lt
  have hlow : (Alu.signExtend e).toNat % 256 = e.toNat := by
    unfold Alu.signExtend
    split <;> rw [UInt16.toNat_ofNat'] <;> omega
  have hhalf : (Alu.signExtend e).toNat % 16 = e.toNat % 16 := by omega
  simp only [offset, and_low_half, and_low_byte, hlow, hhalf]
  rw [Width.add_ok (by simp only [Width.limit]; omega), ok_bind,
    Width.add_ok (by simp only [Width.limit]; omega), ok_bind]
  rfl

theorem oneBit_eq (bit : Fin 8) : oneBit bit = .ok (1 <<< UInt8.ofNat bit.val) := by
  rw [oneBit, Width.shiftLeft_ok bit.isLt, ok_bind, ofNat_shiftLeft _ bit.isLt]
  rfl

theorem and_oneBit (v : UInt8) (bit : Fin 8) :
    decide (v &&& 1 <<< UInt8.ofNat bit.val = 0) = !v.toNat.testBit bit.val := by
  have hmask : ∀ bit : Fin 8, ((1 : UInt8) <<< UInt8.ofNat bit.val).toNat = 2 ^ bit.val := by
    decide
  have hand : v &&& 1 <<< UInt8.ofNat bit.val = 0 ↔ v.toNat.testBit bit.val = false := by
    rw [← UInt8.toNat_inj, UInt8.toNat_and, hmask, Nat.and_two_pow]
    cases v.toNat.testBit bit.val <;> simp
  cases h : v.toNat.testBit bit.val with
  | true => exact decide_eq_false fun e => Bool.false_ne_true ((hand.1 e).symm.trans h)
  | false => exact decide_eq_true (hand.2 h)

/-! ### Registers and operands -/

theorem get16_eq (c : Cpu) (r : Reg16) : get16 c r = .ok (c.get16 r) := by
  cases r with
  | sp => rfl
  | _ => exact word_eq _ _

theorem set16_eq (c : Cpu) (r : Reg16) (v : UInt16) : set16 c r v = .ok (c.set16 r v) := by
  rw [set16, highByte_eq, ok_bind]
  cases r <;> rfl

theorem accumulate_eq (c : Cpu) (op : AluOp) (v : UInt8) :
    accumulate c op v = .ok (c.accumulate op v) := by
  rw [accumulate, evalAlu_eq, ok_bind]
  rfl

theorem shift_eq (c : Cpu) (op : ShiftOp) (v : UInt8) : shift c op v = .ok (c.shift op v) := by
  rw [shift, evalShift_eq, ok_bind]
  rfl

theorem addHl_eq (c : Cpu) (w : UInt16) : addHl c w = .ok (c.addHl w) := by
  simp only [addHl, get16_eq, ok_bind, and_low_twelve]
  rw [Width.add_ok (by simp only [Width.limit]; omega), ok_bind, set16_eq]
  rfl

variable {b : Bus}

theorem getOperand_eq (h : b.eram.size = Bus.eramSize) (c : Cpu) (o : Operand) :
    getOperand c b o = .ok (c.getOperand b o) := by
  cases o with
  | reg r => rfl
  | atHl =>
    rw [getOperand, get16_eq, ok_bind, read_eq h]
    rfl

theorem setOperand_eq (h : b.eram.size = Bus.eramSize) (c : Cpu) (o : Operand) (v : UInt8) :
    setOperand c b o v = .ok (c.setOperand b o v) := by
  cases o with
  | reg r => rfl
  | atHl =>
    rw [setOperand, get16_eq, ok_bind, write_eq h, ok_bind]
    rfl

theorem push_eq (h : b.eram.size = Bus.eramSize) (c : Cpu) (w : UInt16) :
    push c b w = .ok (c.push b w) := by
  simp only [push]
  rw [write16_eq h, ok_bind]
  rfl

theorem pop_eq (h : b.eram.size = Bus.eramSize) (c : Cpu) : pop c b = .ok (c.pop b) := by
  rw [pop, read16_eq h, ok_bind]
  rfl

theorem imm8_eq (h : b.eram.size = Bus.eramSize) (c : Cpu) : imm8 c b = .ok (c.imm8 b) :=
  read_eq h _

theorem imm16_eq (h : b.eram.size = Bus.eramSize) (c : Cpu) : imm16 c b = .ok (c.imm16 b) :=
  read16_eq h _

/-- An address in the last page. -/
theorem highPage (n : UInt8) : UInt16.ofNat (0xFF00 ||| n.toNat) = Bus.word n 0xFF := by
  have hor : (0xFF00 : Nat) ||| n.toNat = 0xFF00 + n.toNat :=
    (Nat.shiftLeft_add_eq_or_of_lt n.toNat_lt 0xFF).symm
  rw [hor, Bus.word, Nat.add_comm]
  rfl

theorem pointerAddr_eq (h : b.eram.size = Bus.eramSize) (c : Cpu) (p : Pointer) :
    pointerAddr c b p = .ok (Instr.pointerAddr c b p) := by
  cases p with
  | highImm =>
    rw [pointerAddr, imm8_eq h, ok_bind, highPage]
    rfl
  | highC =>
    rw [pointerAddr, highPage]
    rfl
  | bc => exact get16_eq c .bc
  | de => exact get16_eq c .de
  | hlInc => exact get16_eq c .hl
  | hlDec => exact get16_eq c .hl
  | imm => exact imm16_eq h c

theorem advancePointer_eq (c : Cpu) (p : Pointer) :
    advancePointer c p = .ok (Instr.advancePointer c p) := by
  cases p with
  | hlInc =>
    rw [advancePointer, get16_eq, ok_bind, set16_eq]
    rfl
  | hlDec =>
    rw [advancePointer, get16_eq, ok_bind, set16_eq]
    rfl
  | _ => rfl

/-! ### Instructions -/

theorem execJump_eq (h : b.eram.size = Bus.eramSize) (c : Cpu) :
    execJump c b = .ok (Instr.execJump c b) := by
  rw [execJump, imm16_eq h, ok_bind]
  rfl

theorem execJumpRelative_eq (h : b.eram.size = Bus.eramSize) (c : Cpu) :
    execJumpRelative c b = .ok (Instr.execJumpRelative c b) := by
  rw [execJumpRelative, imm8_eq h, ok_bind]
  rfl

theorem execCall_eq (h : b.eram.size = Bus.eramSize) (c : Cpu) :
    execCall c b = .ok (Instr.execCall c b) := by
  rw [execCall, imm16_eq h, ok_bind, push_eq h, ok_bind]
  rfl

theorem execRet_eq (h : b.eram.size = Bus.eramSize) (c : Cpu) :
    execRet c b = .ok (Instr.execRet c b) := by
  rw [execRet, pop_eq h, ok_bind]
  rfl

theorem execRestart_eq (h : b.eram.size = Bus.eramSize) (c : Cpu) (vector : Fin 8) :
    execRestart c b vector = .ok (Instr.execRestart c b vector) := by
  rw [execRestart, push_eq h, ok_bind]
  rfl

/-- **Every instruction can be carried out.** -/
theorem exec_eq (h : b.eram.size = Bus.eramSize) (i : Instr) (c : Cpu) :
    exec i c b = .ok (i.exec c b) := by
  cases i with
  | load dst src =>
    rw [exec, getOperand_eq h, ok_bind, setOperand_eq h, ok_bind]
    rfl
  | loadImm dst =>
    rw [exec, imm8_eq h, ok_bind, setOperand_eq h, ok_bind]
    rfl
  | loadA p =>
    rw [exec, pointerAddr_eq h, ok_bind, read_eq h, ok_bind, advancePointer_eq, ok_bind]
    rfl
  | storeA p =>
    rw [exec, pointerAddr_eq h, ok_bind, write_eq h, ok_bind, advancePointer_eq, ok_bind]
    rfl
  | loadImm16 dst =>
    rw [exec, imm16_eq h, ok_bind, set16_eq, ok_bind]
    rfl
  | storeSp =>
    rw [exec, imm16_eq h, ok_bind, write16_eq h, ok_bind]
    rfl
  | loadSpHl =>
    rw [exec, get16_eq, ok_bind]
    rfl
  | loadHlSp =>
    rw [exec, imm8_eq h, ok_bind, offset_eq, ok_bind, set16_eq, ok_bind]
    rfl
  | push src =>
    rw [exec, get16_eq, ok_bind, push_eq h, ok_bind]
    rfl
  | pop dst =>
    rw [exec, pop_eq h, ok_bind, set16_eq, ok_bind]
    rfl
  | alu op src =>
    rw [exec, getOperand_eq h, ok_bind, accumulate_eq, ok_bind]
    rfl
  | aluImm op =>
    rw [exec, imm8_eq h, ok_bind, accumulate_eq, ok_bind]
    rfl
  | inc o =>
    rw [exec, getOperand_eq h, ok_bind, setOperand_eq h, ok_bind]
    rfl
  | dec o =>
    rw [exec, getOperand_eq h, ok_bind, setOperand_eq h, ok_bind]
    rfl
  | inc16 r =>
    rw [exec, get16_eq, ok_bind, set16_eq, ok_bind]
    rfl
  | dec16 r =>
    rw [exec, get16_eq, ok_bind, set16_eq, ok_bind]
    rfl
  | addHl src =>
    rw [exec, get16_eq, ok_bind, addHl_eq, ok_bind]
    rfl
  | addSp =>
    rw [exec, imm8_eq h, ok_bind, offset_eq, ok_bind]
    rfl
  | rotateA op =>
    rw [exec, shift_eq, ok_bind]
    rfl
  | shift op o =>
    rw [exec, getOperand_eq h, ok_bind, shift_eq, ok_bind, setOperand_eq h, ok_bind]
    rfl
  | testBit bit o =>
    rw [exec, oneBit_eq, ok_bind, getOperand_eq h, ok_bind, and_oneBit]
    rfl
  | clearBit bit o =>
    rw [exec, oneBit_eq, ok_bind, getOperand_eq h, ok_bind, setOperand_eq h, ok_bind]
    rfl
  | setBit bit o =>
    rw [exec, oneBit_eq, ok_bind, getOperand_eq h, ok_bind, setOperand_eq h, ok_bind]
    rfl
  | jump cond =>
    rw [exec, execJump_eq h, Instr.exec]
    split <;> rfl
  | jumpHl =>
    rw [exec, get16_eq, ok_bind]
    rfl
  | jumpRelative cond =>
    rw [exec, execJumpRelative_eq h, Instr.exec]
    split <;> rfl
  | call cond =>
    rw [exec, execCall_eq h, Instr.exec]
    split <;> rfl
  | ret cond =>
    cases cond with
    | none => exact execRet_eq h c
    | some x =>
      rw [exec, execRet_eq h, Instr.exec]
      split <;> rfl
  | retEnable => exact execRet_eq h _
  | restart vector => exact execRestart_eq h c vector
  | _ => rfl

end Checked

end DotMatrix
