import DotMatrix.Bus

/-!
# Registers of the CPU

Eight registers of 8 bits, of which one holds the flags, a stack pointer and a program counter.
Pairs of 8-bit registers serve as 16-bit registers, high byte first.

* `Cpu` — the registers and the two control bits of the CPU.
* `Flag`, `Flags` — the four flags in the high half of register F; its low half is not touched by
  flag operations.
* `Reg8`, `Reg16`, `Operand`, `Condition` — what instructions name, with the codes that select them.
* `Cpu.push`, `Cpu.pop` — the stack, in memory below SP.
-/

set_option autoImplicit false

namespace DotMatrix

/-- Registers of the CPU. -/
structure Cpu where
  a : UInt8
  f : UInt8
  b : UInt8
  c : UInt8
  d : UInt8
  e : UInt8
  h : UInt8
  l : UInt8
  pc : UInt16
  sp : UInt16
  /-- Interrupts are enabled. -/
  ime : Bool
  /-- The program counter goes on to the next instruction; off while an instruction that has set
  the program counter itself is carried out. -/
  autoAdvance : Bool
  deriving DecidableEq, Repr

/-- A flag of the arithmetic unit. -/
inductive Flag where
  /-- The result is zero. -/
  | z
  /-- The operation was a subtraction. -/
  | n
  /-- Carry out of the low half. -/
  | h
  /-- Carry out of the whole. -/
  | c
  deriving DecidableEq, Repr

/-- The bit of a flag in register F. -/
def Flag.mask : Flag → UInt8
  | z => 0x80
  | n => 0x40
  | h => 0x20
  | c => 0x10

/-- Values for all four flags. -/
structure Flags where
  z : Bool
  n : Bool
  h : Bool
  c : Bool
  deriving DecidableEq, Repr

/-- An 8-bit register that instructions can name.  The flag register is not among them. -/
inductive Reg8 where
  | a
  | b
  | c
  | d
  | e
  | h
  | l
  deriving DecidableEq, Repr

/-- A 16-bit register: a pair of 8-bit registers, or the stack pointer. -/
inductive Reg16 where
  | af
  | bc
  | de
  | hl
  | sp
  deriving DecidableEq, Repr

namespace Reg16

/-- The register that a two-bit code selects in arithmetic and loads; higher bits do not matter. -/
def ofCode (code : Nat) : Reg16 :=
  match code % 4 with
  | 0 => bc
  | 1 => de
  | 2 => hl
  | _ => sp

/-- The register that a two-bit code selects for the stack: AF in place of SP. -/
def ofStackCode (code : Nat) : Reg16 :=
  match code % 4 with
  | 0 => bc
  | 1 => de
  | 2 => hl
  | _ => af

end Reg16

/-- What an 8-bit instruction works on. -/
inductive Operand where
  /-- A register. -/
  | reg (r : Reg8)
  /-- The byte in memory that HL points to. -/
  | atHl
  deriving DecidableEq, Repr

namespace Operand

/-- The operand that a three-bit code selects; higher bits do not matter. -/
def ofCode (code : Nat) : Operand :=
  match code % 8 with
  | 0 => reg .b
  | 1 => reg .c
  | 2 => reg .d
  | 3 => reg .e
  | 4 => reg .h
  | 5 => reg .l
  | 6 => atHl
  | _ => reg .a

/-- The operand is in memory. -/
def isMemory : Operand → Bool
  | reg _ => false
  | atHl => true

end Operand

/-- The condition of a branch. -/
inductive Condition where
  | notZero
  | zero
  | notCarry
  | carry
  deriving DecidableEq, Repr

namespace Condition

/-- The condition that a two-bit code selects; higher bits do not matter. -/
def ofCode (code : Nat) : Condition :=
  match code % 4 with
  | 0 => notZero
  | 1 => zero
  | 2 => notCarry
  | _ => carry

end Condition

namespace Cpu

/-- The CPU after power on: every register is zero. -/
def powerOn : Cpu where
  a := 0
  f := 0
  b := 0
  c := 0
  d := 0
  e := 0
  h := 0
  l := 0
  pc := 0
  sp := 0
  ime := false
  autoAdvance := true

/-- The value of a flag. -/
def flag (c : Cpu) (x : Flag) : Bool := decide (c.f &&& x.mask ≠ 0)

/-- Sets or clears a flag. -/
def setFlag (c : Cpu) (x : Flag) (on : Bool) : Cpu :=
  { c with f := if on then c.f ||| x.mask else c.f &&& ~~~x.mask }

/-- Sets all four flags. -/
def setFlags (c : Cpu) (fs : Flags) : Cpu :=
  (((c.setFlag .z fs.z).setFlag .n fs.n).setFlag .h fs.h).setFlag .c fs.c

/-- The condition holds. -/
def holds (c : Cpu) : Condition → Bool
  | .notZero => !c.flag .z
  | .zero => c.flag .z
  | .notCarry => !c.flag .c
  | .carry => c.flag .c

/-- The content of an 8-bit register. -/
def get8 (c : Cpu) : Reg8 → UInt8
  | .a => c.a
  | .b => c.b
  | .c => c.c
  | .d => c.d
  | .e => c.e
  | .h => c.h
  | .l => c.l

/-- Changes an 8-bit register. -/
def set8 (c : Cpu) (r : Reg8) (v : UInt8) : Cpu :=
  match r with
  | .a => { c with a := v }
  | .b => { c with b := v }
  | .c => { c with c := v }
  | .d => { c with d := v }
  | .e => { c with e := v }
  | .h => { c with h := v }
  | .l => { c with l := v }

/-- The content of a 16-bit register. -/
def get16 (c : Cpu) : Reg16 → UInt16
  | .af => Bus.word c.f c.a
  | .bc => Bus.word c.c c.b
  | .de => Bus.word c.e c.d
  | .hl => Bus.word c.l c.h
  | .sp => c.sp

/-- Changes a 16-bit register.  The low half of F cannot be written. -/
def set16 (c : Cpu) (r : Reg16) (v : UInt16) : Cpu :=
  match r with
  | .af => { c with a := Bus.highByte v, f := Bus.lowByte v &&& 0xF0 }
  | .bc => { c with b := Bus.highByte v, c := Bus.lowByte v }
  | .de => { c with d := Bus.highByte v, e := Bus.lowByte v }
  | .hl => { c with h := Bus.highByte v, l := Bus.lowByte v }
  | .sp => { c with sp := v }

/-- Register pair HL. -/
def hl (c : Cpu) : UInt16 := c.get16 .hl

/-- The value of an operand. -/
def getOperand (c : Cpu) (b : Bus) : Operand → UInt8
  | .reg r => c.get8 r
  | .atHl => b.read c.hl

/-- Changes an operand. -/
def setOperand (c : Cpu) (b : Bus) (o : Operand) (v : UInt8) : Cpu × Bus :=
  match o with
  | .reg r => (c.set8 r v, b)
  | .atHl => (c, b.write c.hl v)

/-- The byte after the opcode. -/
def imm8 (c : Cpu) (b : Bus) : UInt8 := b.read (c.pc + 1)

/-- The word after the opcode. -/
def imm16 (c : Cpu) (b : Bus) : UInt16 := b.read16 (c.pc + 1)

/-- Puts a word on the stack. -/
def push (c : Cpu) (b : Bus) (w : UInt16) : Cpu × Bus :=
  let sp := c.sp - 2
  ({ c with sp := sp }, b.write16 sp w)

/-- Takes a word from the stack. -/
def pop (c : Cpu) (b : Bus) : UInt16 × Cpu := (b.read16 c.sp, { c with sp := c.sp + 2 })

/-- Goes to an address instead of the next instruction. -/
def jump (c : Cpu) (target : UInt16) : Cpu := { c with pc := target, autoAdvance := false }

end Cpu

end DotMatrix
