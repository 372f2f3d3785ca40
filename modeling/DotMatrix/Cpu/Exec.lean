import DotMatrix.Cpu.Instr
import DotMatrix.Hex

/-!
# Carrying out instructions

* `Outcome` — registers and bus after an instruction, and the machine cycles it took.
* `Instr.exec` — what an instruction does, with the program counter still at its opcode.
* `Cpu.step` — fetches, decodes and carries out one instruction and goes on to the next one.
* `Fault` — the reason why a step is refused: the opcode at the program counter has no instruction.
  Nothing has changed then.
-/

set_option autoImplicit false

namespace DotMatrix

/-- Result of an instruction. -/
structure Outcome where
  cpu : Cpu
  bus : Bus
  /-- Machine cycles. -/
  cycles : Nat

/-- A step that was refused. -/
inductive Fault where
  /-- The opcode at `pc` has no instruction. -/
  | unimplemented (opcode : Opcode) (pc : UInt16)
  deriving DecidableEq, Repr

/-- The reason in words. -/
def Fault.message : Fault → String
  | unimplemented op pc => "unimplemented opcode " ++ Hex.word op.key ++ " at " ++ Hex.word pc

namespace Instr

/-- Memory address of a pointer. -/
def pointerAddr (c : Cpu) (b : Bus) : Pointer → UInt16
  | .bc => c.get16 .bc
  | .de => c.get16 .de
  | .hlInc => c.hl
  | .hlDec => c.hl
  | .highImm => Bus.word (c.imm8 b) 0xFF
  | .highC => Bus.word c.c 0xFF
  | .imm => c.imm16 b

/-- Moves HL on after an access through it. -/
def advancePointer (c : Cpu) : Pointer → Cpu
  | .hlInc => c.set16 .hl (c.hl + 1)
  | .hlDec => c.set16 .hl (c.hl - 1)
  | _ => c

/-- Cycles of an instruction that works on an operand: more if the operand is in memory. -/
def operandCycles (o : Operand) (register memory : Nat) : Nat :=
  if o.isMemory then memory else register

/-- The condition of a branch holds, or there is none. -/
def taken (c : Cpu) : Option Condition → Bool
  | none => true
  | some x => c.holds x

/-- Goes to the address after the opcode. -/
def execJump (c : Cpu) (b : Bus) : Outcome := ⟨c.jump (c.imm16 b), b, 4⟩

/-- Goes to an address relative to the next instruction. -/
def execJumpRelative (c : Cpu) (b : Bus) : Outcome :=
  ⟨c.jump (c.pc + 2 + Alu.signExtend (c.imm8 b)), b, 3⟩

/-- Puts the address of the next instruction on the stack and goes to the address after the
opcode, which is read first. -/
def execCall (c : Cpu) (b : Bus) : Outcome :=
  let target := c.imm16 b
  let r := c.push b (c.pc + 3)
  ⟨r.1.jump target, r.2, 6⟩

/-- Goes to the address on the stack. -/
def execRet (c : Cpu) (b : Bus) : Outcome :=
  let r := c.pop b
  ⟨r.2.jump r.1, b, 4⟩

/-- Puts the address of the next instruction on the stack and goes to one of eight fixed
addresses. -/
def execRestart (c : Cpu) (b : Bus) (vector : Fin 8) : Outcome :=
  let r := c.push b (c.pc + 1)
  ⟨r.1.jump (UInt16.ofNat (8 * vector.val)), r.2, 4⟩

/-- Reads an operand, changes it and writes it back. -/
def modify (c : Cpu) (b : Bus) (o : Operand) (f : UInt8 → UInt8) : Cpu × Bus :=
  c.setOperand b o (f (c.getOperand b o))

/-- Carries out an instruction whose opcode is at the program counter. -/
def exec (i : Instr) (c : Cpu) (b : Bus) : Outcome :=
  match i with
  | nop => ⟨c, b, 1⟩
  | halt => ⟨c, b, 1⟩
  | stop => ⟨c, b, 1⟩
  | disableInterrupts => ⟨{ c with ime := false }, b, 1⟩
  | enableInterrupts => ⟨{ c with ime := true }, b, 1⟩
  | setCarry => ⟨c.setNhc false false true, b, 1⟩
  | complementCarry => ⟨c.setNhc false false (!c.flag .c), b, 1⟩
  | complement => ⟨({ c with a := ~~~c.a }.setFlag .n true).setFlag .h true, b, 1⟩
  | decimalAdjust => ⟨c.decimalAdjust, b, 1⟩
  | load dst src =>
    let r := c.setOperand b dst (c.getOperand b src)
    ⟨r.1, r.2, if dst.isMemory || src.isMemory then 2 else 1⟩
  | loadImm dst =>
    let r := c.setOperand b dst (c.imm8 b)
    ⟨r.1, r.2, operandCycles dst 2 3⟩
  | loadA p =>
    ⟨advancePointer { c with a := b.read (pointerAddr c b p) } p, b, 2 + pointerBytes p⟩
  | storeA p => ⟨advancePointer c p, b.write (pointerAddr c b p) c.a, 2 + pointerBytes p⟩
  | loadImm16 dst => ⟨c.set16 dst (c.imm16 b), b, 3⟩
  | storeSp => ⟨c, b.write16 (c.imm16 b) c.sp, 5⟩
  | loadSpHl => ⟨{ c with sp := c.hl }, b, 2⟩
  | loadHlSp =>
    let r := Alu.offset c.sp (c.imm8 b)
    ⟨(c.setFlags r.2).set16 .hl r.1, b, 3⟩
  | push src =>
    let r := c.push b (c.get16 src)
    ⟨r.1, r.2, 4⟩
  | pop dst =>
    let r := c.pop b
    ⟨r.2.set16 dst r.1, b, 3⟩
  | alu op src => ⟨c.accumulate op (c.getOperand b src), b, operandCycles src 1 2⟩
  | aluImm op => ⟨c.accumulate op (c.imm8 b), b, 2⟩
  | inc o =>
    let v := c.getOperand b o
    let r := c.setOperand b o (v + 1)
    ⟨r.1.setZnh (v + 1 = 0) false (v.toNat % 16 = 15), r.2, operandCycles o 1 3⟩
  | dec o =>
    let v := c.getOperand b o
    let r := c.setOperand b o (v - 1)
    ⟨r.1.setZnh (v - 1 = 0) true (v.toNat % 16 = 0), r.2, operandCycles o 1 3⟩
  | inc16 r => ⟨c.set16 r (c.get16 r + 1), b, 2⟩
  | dec16 r => ⟨c.set16 r (c.get16 r - 1), b, 2⟩
  | addHl src => ⟨c.addHl (c.get16 src), b, 2⟩
  | addSp =>
    let r := Alu.offset c.sp (c.imm8 b)
    ⟨{ c.setFlags r.2 with sp := r.1 }, b, 4⟩
  | rotateA op =>
    let r := c.shift op c.a
    ⟨{ r.2 with a := r.1 }.setFlag .z false, b, 1⟩
  | shift op o =>
    let r := c.shift op (c.getOperand b o)
    let s := r.2.setOperand b o r.1
    ⟨s.1, s.2, operandCycles o 2 4⟩
  | testBit bit o =>
    ⟨c.setZnh (!(c.getOperand b o).toNat.testBit bit.val) false true, b, operandCycles o 2 4⟩
  | clearBit bit o =>
    let r := modify c b o fun v => v &&& ~~~(1 <<< UInt8.ofNat bit.val)
    ⟨r.1, r.2, operandCycles o 2 4⟩
  | setBit bit o =>
    let r := modify c b o fun v => v ||| 1 <<< UInt8.ofNat bit.val
    ⟨r.1, r.2, operandCycles o 2 4⟩
  | jump cond => if taken c cond then execJump c b else ⟨c, b, 3⟩
  | jumpHl => ⟨c.jump c.hl, b, 1⟩
  | jumpRelative cond => if taken c cond then execJumpRelative c b else ⟨c, b, 2⟩
  | call cond => if taken c cond then execCall c b else ⟨c, b, 3⟩
  | ret none => execRet c b
  | ret (some x) => if c.holds x then { execRet c b with cycles := 5 } else ⟨c, b, 2⟩
  | retEnable => execRet { c with ime := true } b
  | restart vector => execRestart c b vector

end Instr

namespace Cpu

/-- Goes on to the next instruction, unless the program counter was set. -/
def advance (c : Cpu) (length : Nat) : Cpu :=
  { c with pc := if c.autoAdvance then c.pc + UInt16.ofNat length else c.pc, autoAdvance := true }

/-- Carries out a decoded instruction and goes on to the next one. -/
def carryOut (c : Cpu) (b : Bus) (i : Instr) : Outcome :=
  let r := i.exec { c with autoAdvance := true } b
  { r with cpu := r.cpu.advance i.length }

/-- Carries out the instruction at the program counter. -/
def step (c : Cpu) (b : Bus) : Except Fault Outcome :=
  let op := Opcode.fetch b c.pc
  match op.decode? with
  | none => .error (.unimplemented op c.pc)
  | some i => .ok (c.carryOut b i)

end Cpu

end DotMatrix
