import DotMatrix.Cpu.Exec
import DotMatrix.Proofs.MemoryMap

/-!
# Operands in registers and in memory

Three bits of an opcode select an operand, and one of their eight values stands for the byte in memory
that HL points to.  What is done to that byte is what is done to a register that holds it; the access
takes more time.

* `OperandOp` — what instructions do with an operand, whichever it is; `OperandOp.on` — the instruction
  with its operand.
* `OperandOp.eval` — the CPU and the operand afterwards, as a function of the operand.
* `OperandOp.SameWork`, `Instr.SameLoad`, `Instr.SameStore` — what the two forms have in common.

Principal result: `Cpu.operandForms_agree` — with a byte of memory at HL, the two forms of all
instructions agree.
-/

set_option autoImplicit false

namespace DotMatrix

/-- What an instruction does with its operand. -/
inductive OperandOp where
  | alu (op : AluOp)
  | inc
  | dec
  | shift (op : ShiftOp)
  | testBit (bit : Fin 8)
  | clearBit (bit : Fin 8)
  | setBit (bit : Fin 8)
  deriving DecidableEq, Repr

namespace OperandOp

/-- The instruction with its operand. -/
def on (w : OperandOp) (o : Operand) : Instr :=
  match w with
  | alu op => .alu op o
  | inc => .inc o
  | dec => .dec o
  | shift op => .shift op o
  | testBit bit => .testBit bit o
  | clearBit bit => .clearBit bit o
  | setBit bit => .setBit bit o

/-- The operand is written back. -/
def writes : OperandOp → Bool
  | alu _ => false
  | testBit _ => false
  | _ => true

/-- Cycles that an operand in memory adds. -/
def accessCycles : OperandOp → Nat
  | alu _ => 1
  | _ => 2

/-- The CPU and the operand after work on an operand `v`. -/
def eval (w : OperandOp) (c : Cpu) (v : UInt8) : Cpu × UInt8 :=
  match w with
  | alu op => (c.accumulate op v, v)
  | inc => (c.setZnh (v + 1 = 0) false (v.toNat % 16 = 15), v + 1)
  | dec => (c.setZnh (v - 1 = 0) true (v.toNat % 16 = 0), v - 1)
  | shift op => ((c.shift op v).2, (c.shift op v).1)
  | testBit bit => (c.setZnh (!v.toNat.testBit bit.val) false true, v)
  | clearBit bit => (c, v &&& ~~~(1 <<< UInt8.ofNat bit.val))
  | setBit bit => (c, v ||| 1 <<< UInt8.ofNat bit.val)

variable (w : OperandOp) (c c' : Cpu) (b b' : Bus) (v : UInt8)

/-! ## Work -/

/-- Work depends on the accumulator, the flags and the operand, and changes nothing else. -/
theorem eval_eq (ha : c'.a = c.a) (hf : c'.f = c.f) :
    w.eval c' v =
      ({ c' with a := (w.eval c v).1.a, f := (w.eval c v).1.f }, (w.eval c v).2) := by
  have hc : c' = { c' with a := c.a, f := c.f } := by rw [← ha, ← hf]
  rw [hc]
  cases w <;> rfl

theorem eval_of_not_writes (h : w.writes = false) : (w.eval c v).2 = v := by
  cases w with
  | alu op => rfl
  | testBit bit => rfl
  | _ => cases h

theorem exec_atHl :
    ((w.on .atHl).exec c b).cpu = (w.eval c (b.read c.hl)).1 ∧
      ((w.on .atHl).exec c b).bus =
        if w.writes then b.write c.hl (w.eval c (b.read c.hl)).2 else b := by
  cases w <;> exact ⟨rfl, rfl⟩

theorem exec_reg {r : Reg8} (hr : r ≠ .a) :
    ((w.on (.reg r)).exec c b).cpu = (w.eval c (c.get8 r)).1.set8 r (w.eval c (c.get8 r)).2 ∧
      ((w.on (.reg r)).exec c b).bus = b := by
  cases r with
  | a => exact absurd rfl hr
  | _ => cases w <;> exact ⟨rfl, rfl⟩

theorem cycles_on (r : Reg8) :
    ((w.on .atHl).exec c b).cycles = ((w.on (.reg r)).exec c' b').cycles + w.accessCycles := by
  cases w <;> rfl

end OperandOp

/-! ## Registers -/

namespace Cpu

variable (c : Cpu) (r : Reg8) (v : UInt8)

theorem get8_set8 : (c.set8 r v).get8 r = v := by
  cases r <;> rfl

theorem a_set8 {r : Reg8} (hr : r ≠ .a) : (c.set8 r v).a = c.a := by
  cases r with
  | a => exact absurd rfl hr
  | _ => rfl

end Cpu

/-! ## The two forms -/

/-- How an outcome `m` of work on the byte at HL, from `c` and `b`, relates to an outcome `n` of the same
work on a register `r`, from `c'` and `b'`. -/
structure OperandOp.SameWork (w : OperandOp) (c : Cpu) (b : Bus) (m : Outcome) (r : Reg8) (c' : Cpu)
    (b' : Bus) (n : Outcome) : Prop where
  /-- Accumulator and flags become those of the register form; all other registers stay. -/
  cpu : m.cpu = { c with a := n.cpu.a, f := n.cpu.f }
  bus : m.bus = if w.writes then b.write c.hl (n.cpu.get8 r) else b
  /-- The byte becomes what the register becomes, also where its echo is read. -/
  read : ∀ x, m.bus.read x = if Bus.SameByte c.hl x then n.cpu.get8 r else b.read x
  registerCpu : n.cpu = { c' with a := n.cpu.a, f := n.cpu.f }.set8 r (n.cpu.get8 r)
  registerBus : n.bus = b'
  cycles : m.cycles = n.cycles + w.accessCycles

/-- How an outcome `m` of a load from HL relates to an outcome `n` of a load from a register. -/
structure Instr.SameLoad (c : Cpu) (b : Bus) (m : Outcome) (dst : Reg8) (c' : Cpu) (b' : Bus)
    (n : Outcome) : Prop where
  value : n.cpu.get8 dst = b.read c.hl
  cpu : m.cpu = c.set8 dst (n.cpu.get8 dst)
  bus : m.bus = b
  registerCpu : n.cpu = c'.set8 dst (n.cpu.get8 dst)
  registerBus : n.bus = b'
  cycles : m.cycles = n.cycles + 1

/-- How an outcome `m` of a store at HL relates to an outcome `n` of a load of a register `dst`. -/
structure Instr.SameStore (c : Cpu) (b : Bus) (m : Outcome) (src dst : Reg8) (c' : Cpu) (b' : Bus)
    (n : Outcome) : Prop where
  value : n.cpu.get8 dst = c.get8 src
  cpu : m.cpu = c
  bus : m.bus = b.write c.hl (n.cpu.get8 dst)
  read : ∀ x, m.bus.read x = if Bus.SameByte c.hl x then n.cpu.get8 dst else b.read x
  registerCpu : n.cpu = c'.set8 dst (n.cpu.get8 dst)
  registerBus : n.bus = b'
  cycles : m.cycles = n.cycles + 1

section Agreement

variable {c c' : Cpu} {b : Bus}

theorem OperandOp.sameWork (hmemory : Bus.InMemory c.hl) (hpresent : b.Present c.hl) (w : OperandOp)
    {r : Reg8} (hr : r ≠ .a) (ha : c'.a = c.a) (hf : c'.f = c.f) (hv : c'.get8 r = b.read c.hl)
    (b' : Bus) :
    w.SameWork c b ((w.on .atHl).exec c b) r c' b' ((w.on (.reg r)).exec c' b') := by
  obtain ⟨hmCpu, hmBus⟩ := w.exec_atHl c b
  obtain ⟨hnCpu, hnBus⟩ := w.exec_reg c' b' hr
  -- the work of the register form is that of the memory form, in another CPU
  rw [hv, w.eval_eq c c' _ ha hf] at hnCpu
  have hna : ((w.on (.reg r)).exec c' b').cpu.a = (w.eval c (b.read c.hl)).1.a := by
    rw [hnCpu, Cpu.a_set8 _ _ hr]
  have hnf : ((w.on (.reg r)).exec c' b').cpu.f = (w.eval c (b.read c.hl)).1.f := by
    rw [hnCpu, Cpu.f_set8]
  have hnv : ((w.on (.reg r)).exec c' b').cpu.get8 r = (w.eval c (b.read c.hl)).2 := by
    rw [hnCpu, Cpu.get8_set8]
  refine ⟨?_, ?_, fun x => ?_, ?_, hnBus, w.cycles_on c c' b b' r⟩
  · rw [hmCpu, hna, hnf]
    exact congrArg Prod.fst (w.eval_eq c c _ rfl rfl)
  · rw [hmBus, hnv]
  · rw [hmBus, hnv]
    cases hwrites : w.writes with
    | true => rw [if_pos rfl, Bus.read_write_of_inMemory hpresent hmemory]
    | false =>
      rw [if_neg Bool.false_ne_true, w.eval_of_not_writes c _ hwrites]
      split
      · exact Bus.read_of_sameByte hmemory ‹_›
      · rfl
  · rw [hna, hnf, hnv]
    exact hnCpu

theorem Instr.sameLoad (dst : Reg8) {src : Reg8} (hv : c'.get8 src = b.read c.hl) (b' : Bus) :
    SameLoad c b ((load (.reg dst) .atHl).exec c b) dst c' b'
      ((load (.reg dst) (.reg src)).exec c' b') := by
  have hn : ((load (.reg dst) (.reg src)).exec c' b').cpu = c'.set8 dst (b.read c.hl) := by
    rw [← hv]
    rfl
  have hvalue : ((load (.reg dst) (.reg src)).exec c' b').cpu.get8 dst = b.read c.hl := by
    rw [hn, Cpu.get8_set8]
  exact ⟨hvalue, by rw [hvalue]; rfl, rfl, by rw [hvalue, hn], rfl, rfl⟩

theorem Instr.sameStore (hmemory : Bus.InMemory c.hl) (hpresent : b.Present c.hl) {src : Reg8}
    (dst : Reg8) (hv : c'.get8 src = c.get8 src) (b' : Bus) :
    SameStore c b ((load .atHl (.reg src)).exec c b) src dst c' b'
      ((load (.reg dst) (.reg src)).exec c' b') := by
  have hn : ((load (.reg dst) (.reg src)).exec c' b').cpu = c'.set8 dst (c.get8 src) := by
    rw [← hv]
    rfl
  have hvalue : ((load (.reg dst) (.reg src)).exec c' b').cpu.get8 dst = c.get8 src := by
    rw [hn, Cpu.get8_set8]
  refine ⟨hvalue, rfl, by rw [hvalue]; rfl, fun x => ?_, by rw [hvalue, hn], rfl, rfl⟩
  rw [hvalue]
  exact Bus.read_write_of_inMemory hpresent hmemory (c.get8 src) x

/-- **An operand in memory is worked on like one in a register.**  Let HL point to a byte of memory.  Work
on the byte leaves there, in the accumulator and in the flags what the same work leaves in a register that
held the byte and beside it, from the same accumulator and flags; loads and stores at HL move what loads
between registers move.  Nothing else changes but the time. -/
theorem Cpu.operandForms_agree (hmemory : Bus.InMemory c.hl) (hpresent : b.Present c.hl) :
    (∀ (w : OperandOp) (r : Reg8) (c' : Cpu) (b' : Bus), r ≠ .a → c'.a = c.a → c'.f = c.f →
      c'.get8 r = b.read c.hl →
        w.SameWork c b ((w.on .atHl).exec c b) r c' b' ((w.on (.reg r)).exec c' b')) ∧
      (∀ (dst src : Reg8) (c' : Cpu) (b' : Bus), c'.get8 src = b.read c.hl →
        Instr.SameLoad c b ((Instr.load (.reg dst) .atHl).exec c b) dst c' b'
          ((Instr.load (.reg dst) (.reg src)).exec c' b')) ∧
      ∀ (src dst : Reg8) (c' : Cpu) (b' : Bus), c'.get8 src = c.get8 src →
        Instr.SameStore c b ((Instr.load .atHl (.reg src)).exec c b) src dst c' b'
          ((Instr.load (.reg dst) (.reg src)).exec c' b') := by
  refine ⟨?_, ?_, ?_⟩
  · intro w r c' b' hr ha hf hv
    exact w.sameWork hmemory hpresent hr ha hf hv b'
  · intro dst src c' b' hv
    exact Instr.sameLoad dst hv b'
  · intro src dst c' b' hv
    exact Instr.sameStore hmemory hpresent dst hv b'

end Agreement

/-- The bus after power on with a single byte of external RAM, whose low half is full. -/
def shortRam : Bus := (Bus.powerOn.resizeEram 1).write 0xA000 0x0F

/-- A CPU with HL at that byte. -/
def atShortRam : Cpu := { Cpu.powerOn with h := 0xA0 }

theorem Cpu.operandForms_agree_atShortRam :
    ((Instr.inc .atHl).exec atShortRam shortRam).bus.read 0xA000 = 0x10 ∧
      ((Instr.inc .atHl).exec atShortRam shortRam).cpu.f = 0x20 ∧
      ((Instr.inc .atHl).exec atShortRam shortRam).cycles =
        ((Instr.inc (.reg .b)).exec { atShortRam with b := 0x0F } shortRam).cycles + 2 := by
  have hmemory : Bus.InMemory atShortRam.hl := .inl (by decide)
  have hpresent : shortRam.Present atShortRam.hl := by
    intro _ _
    decide +kernel
  have hsame := (Cpu.operandForms_agree hmemory hpresent).1 .inc .b { atShortRam with b := 0x0F }
    shortRam (by decide) rfl rfl (by decide +kernel)
  refine ⟨?_, congrArg Cpu.f hsame.cpu, hsame.cycles⟩
  exact (hsame.read 0xA000).trans (if_pos (.inl rfl))

end DotMatrix
