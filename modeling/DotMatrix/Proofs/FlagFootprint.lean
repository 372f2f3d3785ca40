import DotMatrix.Proofs.FlagRegister
import DotMatrix.Proofs.Refusal

/-!
# What instructions leave alone

A loop counts in a register while a carry waits for the next byte, so programs depend on the flags that an
instruction does not touch as much as on those that it sets.  The manual has a row for each instruction that
says, flag by flag, what becomes of it; `Instr.flagRow` is this table.

* `FlagEffect`, `FlagRow` — what may become of one flag, and of all four.
* `Instr.ime?` — what the instruction makes of the interrupt enable; `Instr.movesSp` — it names SP as its
  destination, or uses the stack.
* `Instr.Footprint` — an instruction keeps to its row, and to its part of the control registers.
* `Machine.Executed` — the instructions that a run carries out.

16-bit instructions select SP where those of the stack select AF (`Opcode.selectable_decode`); otherwise an
increment of AF would reach the flags.

Principal results: `Cpu.footprint_of_step` — every step has the footprint of its instruction;
`Machine.Executed.flag_eq`, `f_eq`, `ime_eq` and `sp_eq` — what no instruction of a run touches is the same
after it.
-/

set_option autoImplicit false

namespace DotMatrix

/-! ## The table -/

/-- What becomes of a flag. -/
inductive FlagEffect where
  | kept
  | cleared
  | set
  /-- It depends on the operands. -/
  | computed
  deriving DecidableEq, Repr

/-- A flag with this effect may have these values before and after. -/
def FlagEffect.Allows (before after : Bool) : FlagEffect → Prop
  | kept => after = before
  | cleared => after = false
  | set => after = true
  | computed => True

/-- What becomes of the four flags. -/
structure FlagRow where
  z : FlagEffect
  n : FlagEffect
  h : FlagEffect
  c : FlagEffect
  deriving DecidableEq, Repr

namespace FlagRow

def untouched : FlagRow := ⟨.kept, .kept, .kept, .kept⟩

def get (row : FlagRow) : Flag → FlagEffect
  | .z => row.z
  | .n => row.n
  | .h => row.h
  | .c => row.c

/-- Between `c` and `c'`, each flag did what the row says. -/
def Allows (row : FlagRow) (c c' : Cpu) : Prop :=
  ∀ x, (row.get x).Allows (c.flag x) (c'.flag x)

end FlagRow

/-- The flags of the accumulator operations. -/
def AluOp.flagRow : AluOp → FlagRow
  | add => ⟨.computed, .cleared, .computed, .computed⟩
  | adc => ⟨.computed, .cleared, .computed, .computed⟩
  | sub => ⟨.computed, .set, .computed, .computed⟩
  | sbc => ⟨.computed, .set, .computed, .computed⟩
  | and => ⟨.computed, .cleared, .set, .cleared⟩
  | xor => ⟨.computed, .cleared, .cleared, .cleared⟩
  | or => ⟨.computed, .cleared, .cleared, .cleared⟩
  | cp => ⟨.computed, .set, .computed, .computed⟩

/-- The flags of the shifts. -/
def ShiftOp.flagRow : ShiftOp → FlagRow
  | swap => ⟨.computed, .cleared, .cleared, .cleared⟩
  | _ => ⟨.computed, .cleared, .cleared, .computed⟩

namespace Instr

/-- The flags of every instruction. -/
def flagRow : Instr → FlagRow
  | nop => .untouched
  | halt => .untouched
  | stop => .untouched
  | disableInterrupts => .untouched
  | enableInterrupts => .untouched
  | setCarry => ⟨.kept, .cleared, .cleared, .set⟩
  | complementCarry => ⟨.kept, .cleared, .cleared, .computed⟩
  | complement => ⟨.kept, .set, .set, .kept⟩
  | decimalAdjust => ⟨.computed, .kept, .cleared, .computed⟩
  | load _ _ => .untouched
  | loadImm _ => .untouched
  | loadA _ => .untouched
  | storeA _ => .untouched
  | loadImm16 _ => .untouched
  | storeSp => .untouched
  | loadSpHl => .untouched
  | loadHlSp => ⟨.cleared, .cleared, .computed, .computed⟩
  | push _ => .untouched
  | pop .af => ⟨.computed, .computed, .computed, .computed⟩
  | pop _ => .untouched
  | alu op _ => op.flagRow
  | aluImm op => op.flagRow
  | inc _ => ⟨.computed, .cleared, .computed, .kept⟩
  | dec _ => ⟨.computed, .set, .computed, .kept⟩
  | inc16 _ => .untouched
  | dec16 _ => .untouched
  | addHl _ => ⟨.kept, .cleared, .computed, .computed⟩
  | addSp => ⟨.cleared, .cleared, .computed, .computed⟩
  | rotateA _ => ⟨.cleared, .cleared, .cleared, .computed⟩
  | shift op _ => op.flagRow
  | testBit _ _ => ⟨.computed, .cleared, .set, .kept⟩
  | clearBit _ _ => .untouched
  | setBit _ _ => .untouched
  | jump _ => .untouched
  | jumpHl => .untouched
  | jumpRelative _ => .untouched
  | call _ => .untouched
  | ret _ => .untouched
  | retEnable => .untouched
  | restart _ => .untouched

/-- What the instruction makes of the interrupt enable, if anything. -/
def ime? : Instr → Option Bool
  | enableInterrupts => some true
  | retEnable => some true
  | disableInterrupts => some false
  | _ => none

/-- The instruction names SP as its destination, or uses the stack. -/
def movesSp : Instr → Bool
  | loadImm16 dst => dst = .sp
  | inc16 r => r = .sp
  | dec16 r => r = .sp
  | loadSpHl => true
  | addSp => true
  | push _ => true
  | pop _ => true
  | call _ => true
  | ret _ => true
  | retEnable => true
  | restart _ => true
  | _ => false

/-- An instruction that takes the CPU from `c` to `c'` keeps to its row of the table, and to its part of
the control registers.  If it touches no flag, then the whole of F stays. -/
structure Footprint (i : Instr) (c c' : Cpu) : Prop where
  flags : i.flagRow.Allows c c'
  f : i.flagRow = .untouched → c'.f = c.f
  ime : c'.ime = i.ime?.getD c.ime
  sp : i.movesSp = false → c'.sp = c.sp

/-- The instruction does not work on AF as on a number. -/
def selectable : Instr → Bool
  | loadImm16 dst => dst ≠ .af
  | inc16 r => r ≠ .af
  | dec16 r => r ≠ .af
  | _ => true

end Instr

/-- **No opcode works on AF as on a number.** -/
theorem Opcode.selectable_decode {op : Opcode} {i : Instr} (h : op.decode? = some i) :
    i.selectable = true := by
  have hbase : ∀ x : BitVec 8,
      (decodeBase? (UInt8.ofBitVec x)).all Instr.selectable = true := by decide +kernel
  cases op with
  | base b =>
    have hall := hbase b.toBitVec
    rw [show decodeBase? (UInt8.ofBitVec b.toBitVec) = some i from h] at hall
    exact hall
  | extended b =>
    simp only [decode?, Option.some.injEq, decodeExtended] at h
    split at h <;> (subst h; rfl)

/-! ## Registers of the CPU -/

namespace Cpu

variable {c c' : Cpu}

theorem flag_congr (h : c'.f = c.f) (x : Flag) : c'.flag x = c.flag x := by
  rw [flag, flag, h]

theorem flag_setZnh (c : Cpu) (z n h : Bool) (x : Flag) :
    (c.setZnh z n h).flag x = Flags.get { z := z, n := n, h := h, c := c.flag .c } x := by
  cases x <;> simp [setZnh, flag_setFlag, Flags.get]

theorem f_set16_of_ne (c : Cpu) {r : Reg16} (h : r ≠ .af) (w : UInt16) : (c.set16 r w).f = c.f := by
  cases r with
  | af => exact absurd rfl h
  | _ => rfl

theorem ime_set8 (c : Cpu) (r : Reg8) (v : UInt8) : (c.set8 r v).ime = c.ime := by
  cases r <;> rfl

theorem ime_set16 (c : Cpu) (r : Reg16) (w : UInt16) : (c.set16 r w).ime = c.ime := by
  cases r <;> rfl

theorem ime_setOperand (c : Cpu) (b : Bus) (o : Operand) (v : UInt8) :
    (c.setOperand b o v).1.ime = c.ime := by
  cases o with
  | reg r => exact ime_set8 c r v
  | atHl => rfl

theorem ime_advancePointer (c : Cpu) (p : Pointer) : (Instr.advancePointer c p).ime = c.ime := by
  cases p <;> rfl

theorem sp_set8 (c : Cpu) (r : Reg8) (v : UInt8) : (c.set8 r v).sp = c.sp := by
  cases r <;> rfl

theorem sp_set16_of_ne (c : Cpu) {r : Reg16} (h : r ≠ .sp) (w : UInt16) :
    (c.set16 r w).sp = c.sp := by
  cases r with
  | sp => exact absurd rfl h
  | _ => rfl

theorem sp_setOperand (c : Cpu) (b : Bus) (o : Operand) (v : UInt8) :
    (c.setOperand b o v).1.sp = c.sp := by
  cases o with
  | reg r => exact sp_set8 c r v
  | atHl => rfl

theorem sp_advancePointer (c : Cpu) (p : Pointer) : (Instr.advancePointer c p).sp = c.sp := by
  cases p <;> rfl

end Cpu

/-! ## Rows -/

/-- The flags that an accumulator operation computes are those of its row. -/
theorem AluOp.allows_eval (op : AluOp) (a v : UInt8) (carry before : Bool) (x : Flag) :
    (op.flagRow.get x).Allows before ((op.eval a v carry).2.get x) := by
  cases op <;> cases x <;> trivial

namespace FlagRow

variable {c c' : Cpu}

theorem allows_untouched (h : c'.f = c.f) : untouched.Allows c c' := by
  intro x
  cases x <;> exact Cpu.flag_congr h _

/-- What is written to the other registers makes no difference. -/
theorem Allows.of_f_eq {row : FlagRow} {c'' : Cpu} (h : row.Allows c c') (hf : c''.f = c'.f) :
    row.Allows c c'' := by
  intro x
  rw [Cpu.flag_congr hf]
  exact h x

theorem allows_accumulate (c : Cpu) (op : AluOp) (v : UInt8) :
    op.flagRow.Allows c (c.accumulate op v) := by
  intro x
  rw [Cpu.accumulate, Cpu.flag_setFlags]
  exact op.allows_eval c.a v _ _ x

theorem allows_shift (c : Cpu) (op : ShiftOp) (v : UInt8) :
    op.flagRow.Allows c (c.shift op v).2 := by
  intro x
  rw [Cpu.shift, Cpu.flag_setFlags]
  cases op <;> cases x <;> trivial

/-- An address near SP leaves the carries of its low byte. -/
theorem allows_offset (c : Cpu) (w : UInt16) (e : UInt8) :
    Allows ⟨.cleared, .cleared, .computed, .computed⟩ c (c.setFlags (Alu.offset w e).2) := by
  intro x
  rw [Cpu.flag_setFlags]
  cases x <;> trivial

/-- N, H and C have new values; Z stays. -/
theorem allows_setNhc {n h k : FlagEffect} {vn vh vk : Bool} (c : Cpu)
    (hn : n.Allows (c.flag .n) vn) (hh : h.Allows (c.flag .h) vh) (hk : k.Allows (c.flag .c) vk) :
    Allows ⟨.kept, n, h, k⟩ c (c.setNhc vn vh vk) := by
  intro x
  rw [Cpu.flag_setNhc]
  cases x with
  | z => rfl
  | n => exact hn
  | h => exact hh
  | c => exact hk

/-- Z, N and H have new values; the carry is that of before, also when an operand has changed. -/
theorem allows_setZnh {z n h : FlagEffect} {vz vn vh : Bool} (hf : c'.f = c.f)
    (hz : z.Allows (c.flag .z) vz) (hn : n.Allows (c.flag .n) vn) (hh : h.Allows (c.flag .h) vh) :
    Allows ⟨z, n, h, .kept⟩ c (c'.setZnh vz vn vh) := by
  intro x
  rw [Cpu.flag_setZnh]
  cases x with
  | z => exact hz
  | n => exact hn
  | h => exact hh
  | c => exact Cpu.flag_congr hf .c

end FlagRow

namespace Instr

variable {i : Instr}

/-- **An instruction whose row is empty does not write to F.** -/
theorem f_exec (hs : i.selectable = true) (h : i.flagRow = .untouched) (c : Cpu) (b : Bus) :
    (i.exec c b).cpu.f = c.f := by
  cases i with
  | load dst src => exact Cpu.f_setOperand c b dst _
  | loadImm dst => exact Cpu.f_setOperand c b dst _
  | loadA p => exact f_advancePointer { c with a := _ } p
  | storeA p => exact f_advancePointer c p
  | loadImm16 dst => exact Cpu.f_set16_of_ne c (of_decide_eq_true hs) _
  | pop dst =>
    cases dst with
    | af => cases h
    | _ => rfl
  | inc16 r => exact Cpu.f_set16_of_ne c (of_decide_eq_true hs) _
  | dec16 r => exact Cpu.f_set16_of_ne c (of_decide_eq_true hs) _
  | clearBit bit o => exact Cpu.f_setOperand c b o _
  | setBit bit o => exact Cpu.f_setOperand c b o _
  | jump cond => simp only [exec]; split <;> rfl
  | jumpRelative cond => simp only [exec]; split <;> rfl
  | call cond => simp only [exec]; split <;> rfl
  | ret cond =>
    cases cond with
    | none => rfl
    | some x => simp only [exec]; split <;> rfl
  | alu op src => cases op <;> cases h
  | aluImm op => cases op <;> cases h
  | shift op o => cases op <;> cases h
  | nop => rfl
  | halt => rfl
  | stop => rfl
  | disableInterrupts => rfl
  | enableInterrupts => rfl
  | storeSp => rfl
  | loadSpHl => rfl
  | push src => rfl
  | jumpHl => rfl
  | retEnable => rfl
  | restart vector => rfl
  | _ => cases h

/-- **Every instruction keeps to its row.** -/
theorem allows_exec (hs : i.selectable = true) (c : Cpu) (b : Bus) :
    i.flagRow.Allows c (i.exec c b).cpu := by
  by_cases huntouched : i.flagRow = .untouched
  · rw [huntouched]
    exact FlagRow.allows_untouched (f_exec hs huntouched c b)
  cases i with
  | setCarry => exact FlagRow.allows_setNhc c rfl rfl rfl
  | complementCarry => exact FlagRow.allows_setNhc c rfl rfl trivial
  | complement =>
    intro x
    simp only [exec, Cpu.flag_setFlag]
    cases x <;> rfl
  | decimalAdjust =>
    intro x
    simp only [exec, Cpu.decimalAdjust, Cpu.flag_setFlag]
    cases x <;> trivial
  | loadHlSp => exact (FlagRow.allows_offset c c.sp _).of_f_eq (Cpu.f_set16_hl _ _)
  | pop dst =>
    cases dst with
    | af => intro x; cases x <;> trivial
    | _ => exact absurd rfl huntouched
  | alu op src => exact FlagRow.allows_accumulate c op _
  | aluImm op => exact FlagRow.allows_accumulate c op _
  | inc o => exact FlagRow.allows_setZnh (Cpu.f_setOperand c b o _) trivial rfl trivial
  | dec o => exact FlagRow.allows_setZnh (Cpu.f_setOperand c b o _) trivial rfl trivial
  | addHl src =>
    refine .of_f_eq ?_ (Cpu.f_set16_hl _ _)
    exact FlagRow.allows_setNhc c rfl trivial trivial
  | addSp => exact (FlagRow.allows_offset c c.sp (c.imm8 b)).of_f_eq rfl
  | rotateA op =>
    intro x
    have hshift : (exec (rotateA op) c b).cpu.flag x =
        if x = .z then false else (c.shift op c.a).2.flag x := Cpu.flag_setFlag _ .z x false
    rw [hshift, Cpu.shift, Cpu.flag_setFlags]
    cases x <;> trivial
  | shift op o => exact (FlagRow.allows_shift c op _).of_f_eq (Cpu.f_setOperand _ b o _)
  | testBit bit o => exact FlagRow.allows_setZnh rfl trivial rfl rfl
  | _ => exact absurd rfl huntouched

/-- **Only three instructions write to the interrupt enable.** -/
theorem ime_exec (i : Instr) (c : Cpu) (b : Bus) : (i.exec c b).cpu.ime = i.ime?.getD c.ime := by
  cases i with
  | load dst src => exact Cpu.ime_setOperand c b dst _
  | loadImm dst => exact Cpu.ime_setOperand c b dst _
  | loadA p => exact Cpu.ime_advancePointer { c with a := _ } p
  | storeA p => exact Cpu.ime_advancePointer c p
  | loadImm16 dst => exact Cpu.ime_set16 c dst _
  | pop dst => exact Cpu.ime_set16 { c with sp := c.sp + 2 } dst _
  | inc o => exact Cpu.ime_setOperand c b o _
  | dec o => exact Cpu.ime_setOperand c b o _
  | inc16 r => exact Cpu.ime_set16 c r _
  | dec16 r => exact Cpu.ime_set16 c r _
  | shift op o => exact Cpu.ime_setOperand (c.shift op (c.getOperand b o)).2 b o _
  | clearBit bit o => exact Cpu.ime_setOperand c b o _
  | setBit bit o => exact Cpu.ime_setOperand c b o _
  | jump cond => simp only [exec]; split <;> rfl
  | jumpRelative cond => simp only [exec]; split <;> rfl
  | call cond => simp only [exec]; split <;> rfl
  | ret cond =>
    cases cond with
    | none => rfl
    | some x => simp only [exec]; split <;> rfl
  | _ => rfl

/-- **SP stays unless it is the destination, or the stack is used.** -/
theorem sp_exec (h : i.movesSp = false) (c : Cpu) (b : Bus) : (i.exec c b).cpu.sp = c.sp := by
  cases i with
  | load dst src => exact Cpu.sp_setOperand c b dst _
  | loadImm dst => exact Cpu.sp_setOperand c b dst _
  | loadA p => exact Cpu.sp_advancePointer { c with a := _ } p
  | storeA p => exact Cpu.sp_advancePointer c p
  | loadImm16 dst => exact Cpu.sp_set16_of_ne c (of_decide_eq_false h) _
  | inc o => exact Cpu.sp_setOperand c b o _
  | dec o => exact Cpu.sp_setOperand c b o _
  | inc16 r => exact Cpu.sp_set16_of_ne c (of_decide_eq_false h) _
  | dec16 r => exact Cpu.sp_set16_of_ne c (of_decide_eq_false h) _
  | shift op o => exact Cpu.sp_setOperand (c.shift op (c.getOperand b o)).2 b o _
  | clearBit bit o => exact Cpu.sp_setOperand c b o _
  | setBit bit o => exact Cpu.sp_setOperand c b o _
  | jump cond => simp only [exec]; split <;> rfl
  | jumpRelative cond => simp only [exec]; split <;> rfl
  | pop dst => cases h
  | loadSpHl => cases h
  | addSp => cases h
  | push src => cases h
  | call cond => cases h
  | ret cond => cases h
  | retEnable => cases h
  | restart vector => cases h
  | _ => rfl

theorem footprint_exec (hs : i.selectable = true) (c : Cpu) (b : Bus) :
    i.Footprint c (i.exec c b).cpu :=
  { flags := allows_exec hs c b
    f := fun h => f_exec hs h c b
    ime := ime_exec i c b
    sp := fun h => sp_exec h c b }

end Instr

/-! ## Steps -/

namespace Cpu

variable {c : Cpu} {b : Bus} {i : Instr}

/-- The program counter is none of the registers that a footprint is about. -/
theorem footprint_carryOut (h : (Opcode.fetch b c.pc).decode? = some i) :
    i.Footprint c (c.carryOut b i).cpu := by
  obtain ⟨hflags, hf, hime, hsp⟩ :=
    Instr.footprint_exec (Opcode.selectable_decode h) { c with autoAdvance := true } b
  exact ⟨hflags, hf, hime, hsp⟩

/-- **The footprint of every step.**  A step is refused where there is no instruction.  Any other step follows
the row of its instruction, keeps F whole where the row is empty, and changes interrupt enable and stack pointer
for no other instruction than those that are there for it. -/
theorem footprint_of_step (c : Cpu) (b : Bus) :
    match c.step b with
    | .ok r => ∃ i, (Opcode.fetch b c.pc).decode? = some i ∧ i.Footprint c r.cpu
    | .error _ => (Opcode.fetch b c.pc).decode? = none := by
  cases hd : (Opcode.fetch b c.pc).decode? with
  | none => simp only [step, hd]
  | some i =>
    rw [step_eq_ok hd]
    exact ⟨i, rfl, footprint_carryOut hd⟩

/-- A program that counts down in B. -/
def countdown : Bus := Bus.powerOn.writeBytes 0xC000 [0x05]

/-- A CPU at the start of it, with a carry from before and one pass to go. -/
def atCountdown : Cpu := { powerOn with b := 1, f := 0x10, sp := 0xFFFE, pc := 0xC000, ime := true }

theorem footprint_countdown :
    ∃ r, atCountdown.step countdown = .ok r ∧ r.cpu.b = 0 ∧ r.cpu.flag .n = true ∧
      r.cpu.flag .c = true ∧ r.cpu.ime = true ∧ r.cpu.sp = 0xFFFE := by
  have hd : (Opcode.fetch countdown atCountdown.pc).decode? = some (.dec (.reg .b)) := by
    decide +kernel
  have hstep := footprint_of_step atCountdown countdown
  rw [step_eq_ok hd] at hstep
  obtain ⟨i, hi, hflags, -, hime, hsp⟩ := hstep
  rw [hd, Option.some.injEq] at hi
  subst hi
  exact ⟨_, step_eq_ok hd, rfl, hflags .n, hflags .c, hime, hsp rfl⟩

end Cpu

/-! ## Runs -/

namespace Machine

/-- Steps that carry out the given instructions lead from one machine to another. -/
inductive Executed : Machine → List Instr → Machine → Prop
  | done (m : Machine) : Executed m [] m
  | step {m next m' : Machine} {s : Step} {i : Instr} {code : List Instr}
    (hi : (Opcode.fetch m.bus m.cpu.pc).decode? = some i) (hs : m.step = .ok (next, s))
    (h : Executed next code m') : Executed m (i :: code) m'

variable {m m' : Machine} {code : List Instr}

theorem footprint_step {next : Machine} {s : Step} {i : Instr}
    (hi : (Opcode.fetch m.bus m.cpu.pc).decode? = some i) (hs : m.step = .ok (next, s)) :
    i.Footprint m.cpu next.cpu := by
  rw [step, Cpu.step_eq_ok hi] at hs
  cases hs
  exact Cpu.footprint_carryOut hi

/-- Successful steps carry out one instruction each. -/
theorem Advances.executed {n : Nat} (h : m.Advances n m') :
    ∃ code, code.length = n ∧ m.Executed code m' := by
  induction h with
  | done m => exact ⟨[], rfl, .done m⟩
  | @step m next m' s n hs _ ih =>
    obtain ⟨code, hlength, hexec⟩ := ih
    cases hd : (Opcode.fetch m.bus m.cpu.pc).decode? with
    | none => simp only [Machine.step, Cpu.step, hd, reduceCtorEq] at hs
    | some i => exact ⟨i :: code, congrArg Nat.succ hlength, .step hd hs hexec⟩

namespace Executed

/-- **What every instruction of a run keeps, the run keeps**: by induction on the run, with the footprint
of a step at each instruction. -/
theorem keeps {α : Type} (part : Cpu → α) {p : Instr → Prop}
    (hpart : ∀ {i : Instr} {c c' : Cpu}, i.Footprint c c' → p i → part c' = part c)
    (h : m.Executed code m') (hp : ∀ i ∈ code, p i) : part m'.cpu = part m.cpu := by
  induction h with
  | done m => rfl
  | step hi hs _ ih =>
    have hfirst := hpart (footprint_step hi hs) (hp _ List.mem_cons_self)
    exact (ih fun j hj => hp j (List.mem_cons_of_mem _ hj)).trans hfirst

/-- **A flag that no instruction touches has the value of before**, such as the carry between the bytes of
a long addition. -/
theorem flag_eq (h : m.Executed code m') {x : Flag} (hx : ∀ i ∈ code, i.flagRow.get x = .kept) :
    m'.cpu.flag x = m.cpu.flag x := by
  refine h.keeps (fun c => c.flag x) (fun hfoot hkept => ?_) hx
  have hallows := hfoot.flags x
  rw [hkept] at hallows
  exact hallows

/-- Counting and moving on to the next byte keep the carry. -/
example : ∀ i ∈ [Instr.inc16 .hl, .dec (.reg .b), .jumpRelative (some .notZero)],
    i.flagRow.get .c = .kept := by decide

theorem f_eq (h : m.Executed code m') (hcode : ∀ i ∈ code, i.flagRow = .untouched) :
    m'.cpu.f = m.cpu.f :=
  h.keeps Cpu.f (fun hfoot => hfoot.f) hcode

/-- **Interrupts stay enabled or disabled between the instructions for it.** -/
theorem ime_eq (h : m.Executed code m') (hcode : ∀ i ∈ code, i.ime? = none) :
    m'.cpu.ime = m.cpu.ime := by
  refine h.keeps Cpu.ime (fun hfoot hnone => ?_) hcode
  rw [hfoot.ime, hnone, Option.getD_none]

/-- **SP stays as long as the stack is not used.** -/
theorem sp_eq (h : m.Executed code m') (hcode : ∀ i ∈ code, i.movesSp = false) :
    m'.cpu.sp = m.cpu.sp :=
  h.keeps Cpu.sp (fun hfoot => hfoot.sp) hcode

end Executed

end Machine

end DotMatrix
