import DotMatrix.Cpu.Alu

/-!
# The instruction set

An opcode is one byte, or the byte 0xCB and one more.  Its bits fall into three fields that select
operation, operands and conditions; eleven of the one-byte opcodes select nothing.

* `Instr` — the instructions, with what their opcode fixes; immediate operands are read when the
  instruction is carried out.
* `Opcode` — the two kinds of opcode, numbered by `Opcode.key`; `Opcode.fetch` reads one.
* `Opcode.decode?` — the instruction of an opcode.
* `Instr.length`, `Instr.mnemonic` — its length in bytes and the name of its family.
-/

set_option autoImplicit false

namespace DotMatrix

/-- Where the accumulator is loaded from or stored to. -/
inductive Pointer where
  /-- At BC. -/
  | bc
  /-- At DE. -/
  | de
  /-- At HL, which is then incremented. -/
  | hlInc
  /-- At HL, which is then decremented. -/
  | hlDec
  /-- In the last page, at an immediate offset. -/
  | highImm
  /-- In the last page, at the offset in C. -/
  | highC
  /-- At an immediate address. -/
  | imm
  deriving DecidableEq, Repr

/-- An instruction.  A branch without a condition is always taken. -/
inductive Instr where
  | nop
  | halt
  | stop
  | disableInterrupts
  | enableInterrupts
  | setCarry
  | complementCarry
  | complement
  | decimalAdjust
  | load (dst src : Operand)
  | loadImm (dst : Operand)
  | loadA (src : Pointer)
  | storeA (dst : Pointer)
  | loadImm16 (dst : Reg16)
  | storeSp
  | loadSpHl
  | loadHlSp
  | push (src : Reg16)
  | pop (dst : Reg16)
  | alu (op : AluOp) (src : Operand)
  | aluImm (op : AluOp)
  | inc (o : Operand)
  | dec (o : Operand)
  | inc16 (r : Reg16)
  | dec16 (r : Reg16)
  | addHl (src : Reg16)
  | addSp
  | rotateA (op : ShiftOp)
  | shift (op : ShiftOp) (o : Operand)
  | testBit (bit : Fin 8) (o : Operand)
  | clearBit (bit : Fin 8) (o : Operand)
  | setBit (bit : Fin 8) (o : Operand)
  | jump (cond : Option Condition)
  | jumpHl
  | jumpRelative (cond : Option Condition)
  | call (cond : Option Condition)
  | ret (cond : Option Condition)
  | retEnable
  | restart (vector : Fin 8)
  deriving DecidableEq, Repr

/-- An opcode. -/
inductive Opcode where
  /-- One byte. -/
  | base (b : UInt8)
  /-- The byte 0xCB, and this one. -/
  | extended (b : UInt8)
  deriving DecidableEq, Repr

namespace Opcode

/-- The number of an opcode: its bytes, the first one in front. -/
def key : Opcode → UInt16
  | base b => Bus.word b 0x00
  | extended b => Bus.word b 0xCB

/-- The opcode with a number. -/
def ofKey? (k : UInt16) : Option Opcode :=
  if Bus.highByte k = 0x00 then some (base (Bus.lowByte k))
  else if Bus.highByte k = 0xCB then some (extended (Bus.lowByte k))
  else none

theorem ofKey?_key (op : Opcode) : ofKey? op.key = some op := by
  cases op with
  | base b => simp only [ofKey?, key, Bus.highByte_word, Bus.lowByte_word, if_pos]
  | extended b =>
    simp only [ofKey?, key, Bus.highByte_word, Bus.lowByte_word]
    rfl

/-- All opcodes. -/
def all : List Opcode :=
  (List.range 256).map (fun n => base (UInt8.ofNat n)) ++
    (List.range 256).map (fun n => extended (UInt8.ofNat n))

/-- Reads the opcode at an address. -/
def fetch (b : Bus) (pc : UInt16) : Opcode :=
  let first := b.read pc
  if first = 0xCB then extended (b.read (pc + 1)) else base first

/-- Opcodes below 0x40: loads of immediates and pairs, increments, relative jumps and operations on
the accumulator.  `y` and `z` are the middle and the low three bits. -/
def decodeLow (y z : Nat) : Instr :=
  match z with
  | 0 =>
    match y with
    | 0 => .nop
    | 1 => .storeSp
    | 2 => .stop
    | 3 => .jumpRelative none
    | _ => .jumpRelative (some (Condition.ofCode y))
  | 1 => if y % 2 = 0 then .loadImm16 (Reg16.ofCode (y / 2)) else .addHl (Reg16.ofCode (y / 2))
  | 2 =>
    match y with
    | 0 => .storeA .bc
    | 1 => .loadA .bc
    | 2 => .storeA .de
    | 3 => .loadA .de
    | 4 => .storeA .hlInc
    | 5 => .loadA .hlInc
    | 6 => .storeA .hlDec
    | _ => .loadA .hlDec
  | 3 => if y % 2 = 0 then .inc16 (Reg16.ofCode (y / 2)) else .dec16 (Reg16.ofCode (y / 2))
  | 4 => .inc (Operand.ofCode y)
  | 5 => .dec (Operand.ofCode y)
  | 6 => .loadImm (Operand.ofCode y)
  | _ =>
    match y with
    | 0 => .rotateA .rlc
    | 1 => .rotateA .rrc
    | 2 => .rotateA .rl
    | 3 => .rotateA .rr
    | 4 => .decimalAdjust
    | 5 => .complement
    | 6 => .setCarry
    | _ => .complementCarry

/-- Opcodes from 0xC0 on: branches, the stack, and operations with immediates. -/
def decodeHigh? (y z : Nat) : Option Instr :=
  match z with
  | 0 =>
    match y with
    | 4 => some (.storeA .highImm)
    | 5 => some .addSp
    | 6 => some (.loadA .highImm)
    | 7 => some .loadHlSp
    | _ => some (.ret (some (Condition.ofCode y)))
  | 1 =>
    match y with
    | 1 => some (.ret none)
    | 3 => some .retEnable
    | 5 => some .jumpHl
    | 7 => some .loadSpHl
    | _ => some (.pop (Reg16.ofStackCode (y / 2)))
  | 2 =>
    match y with
    | 4 => some (.storeA .highC)
    | 5 => some (.storeA .imm)
    | 6 => some (.loadA .highC)
    | 7 => some (.loadA .imm)
    | _ => some (.jump (some (Condition.ofCode y)))
  | 3 =>
    match y with
    | 0 => some (.jump none)
    | 6 => some .disableInterrupts
    | 7 => some .enableInterrupts
    | _ => none
  | 4 => if y < 4 then some (.call (some (Condition.ofCode y))) else none
  | 5 =>
    match y with
    | 1 => some (.call none)
    | 3 => none
    | 5 => none
    | 7 => none
    | _ => some (.push (Reg16.ofStackCode (y / 2)))
  | 6 => some (.aluImm (AluOp.ofCode y))
  | _ => some (.restart (Fin.ofNat 8 y))

/-- The instruction of a one-byte opcode. -/
def decodeBase? (b : UInt8) : Option Instr :=
  let y := b.toNat / 8 % 8
  let z := b.toNat % 8
  match b.toNat / 64 with
  | 0 => some (decodeLow y z)
  | 1 => some (if y = 6 ∧ z = 6 then .halt else .load (Operand.ofCode y) (Operand.ofCode z))
  | 2 => some (.alu (AluOp.ofCode y) (Operand.ofCode z))
  | _ => decodeHigh? y z

/-- The instruction of an opcode after the byte 0xCB. -/
def decodeExtended (b : UInt8) : Instr :=
  let y := b.toNat / 8 % 8
  let o := Operand.ofCode (b.toNat % 8)
  match b.toNat / 64 with
  | 0 => .shift (ShiftOp.ofCode y) o
  | 1 => .testBit (Fin.ofNat 8 y) o
  | 2 => .clearBit (Fin.ofNat 8 y) o
  | _ => .setBit (Fin.ofNat 8 y) o

/-- The instruction of an opcode, if it has one. -/
def decode? : Opcode → Option Instr
  | base b => decodeBase? b
  | extended b => some (decodeExtended b)

/-- How many opcodes have an instruction. -/
def implemented : Nat := (all.filter fun op => op.decode?.isSome).length

end Opcode

namespace Instr

/-- Bytes of immediate operand that follow a pointer's opcode. -/
def pointerBytes : Pointer → Nat
  | .highImm => 1
  | .imm => 2
  | _ => 0

/-- Length of an instruction in bytes, opcode and immediate operand together. -/
def length : Instr → Nat
  | stop => 2
  | loadImm _ => 2
  | loadA p => 1 + pointerBytes p
  | storeA p => 1 + pointerBytes p
  | loadImm16 _ => 3
  | storeSp => 3
  | loadHlSp => 2
  | aluImm _ => 2
  | addSp => 2
  | shift _ _ => 2
  | testBit _ _ => 2
  | clearBit _ _ => 2
  | setBit _ _ => 2
  | jump _ => 3
  | jumpRelative _ => 2
  | call _ => 3
  | _ => 1

/-- How the manual writes a pointer. -/
def pointerText : Pointer → String
  | .bc => "(BC)"
  | .de => "(DE)"
  | .hlInc => "(HL+)"
  | .hlDec => "(HL-)"
  | .highImm => "(n)"
  | .highC => "(C)"
  | .imm => "(nn)"

/-- The name of an accumulator operation, up to its operand. -/
def aluText : AluOp → String
  | .add => "ADD A,"
  | .adc => "ADC A,"
  | .sub => "SUB "
  | .sbc => "SBC A,"
  | .and => "AND "
  | .xor => "XOR "
  | .or => "OR "
  | .cp => "CP "

/-- The name of a shift. -/
def shiftText : ShiftOp → String
  | .rlc => "RLC"
  | .rrc => "RRC"
  | .rl => "RL"
  | .rr => "RR"
  | .sla => "SLA"
  | .sra => "SRA"
  | .swap => "SWAP"
  | .srl => "SRL"

/-- The name of a load of the accumulator: the last page has one of its own for immediates. -/
def loadText : Pointer → String
  | .highImm => "LDH "
  | _ => "LD "

/-- The name of an instruction's family, with the kinds of its operands. -/
def mnemonic : Instr → String
  | nop => "NOP"
  | halt => "HALT"
  | stop => "STOP"
  | disableInterrupts => "DI"
  | enableInterrupts => "EI"
  | setCarry => "SCF"
  | complementCarry => "CCF"
  | complement => "CPL"
  | decimalAdjust => "DAA"
  | load _ _ => "LD r,r'"
  | loadImm _ => "LD r,n"
  | loadA p => loadText p ++ "A," ++ pointerText p
  | storeA p => loadText p ++ pointerText p ++ ",A"
  | loadImm16 _ => "LD rr,nn"
  | storeSp => "LD (nn),SP"
  | loadSpHl => "LD SP,HL"
  | loadHlSp => "LD HL,SP+e"
  | push _ => "PUSH rr"
  | pop _ => "POP rr"
  | alu op _ => aluText op ++ "r"
  | aluImm op => aluText op ++ "n"
  | inc _ => "INC r"
  | dec _ => "DEC r"
  | inc16 _ => "INC rr"
  | dec16 _ => "DEC rr"
  | addHl _ => "ADD HL,rr"
  | addSp => "ADD SP,e"
  | rotateA op => shiftText op ++ "A"
  | shift op _ => shiftText op ++ " r"
  | testBit _ _ => "BIT b,r"
  | clearBit _ _ => "RES b,r"
  | setBit _ _ => "SET b,r"
  | jump none => "JP nn"
  | jump (some _) => "JP cc,nn"
  | jumpHl => "JP (HL)"
  | jumpRelative none => "JR e"
  | jumpRelative (some _) => "JR cc,e"
  | call none => "CALL nn"
  | call (some _) => "CALL cc,nn"
  | ret none => "RET"
  | ret (some _) => "RET cc"
  | retEnable => "RETI"
  | restart _ => "RST n"

end Instr

end DotMatrix
