import DotMatrix.Proofs.WordAddition

/-!
# Branches

After a step the program counter is behind the instruction or where a taken branch goes.  Instructions that
set the counter switch its advance off; the step adds the length of all others, and switches the advance on
again.

* `Instr.destination?` — where a taken branch goes, in terms of the registers and of memory before it.
* `Condition.opposite` — the condition of the same flag that holds in all other cases.
* `Branch` — the branches that exist with and without a condition; `Branch.SameOperand` — memories in which
  one of them finds the same operand.
* `Branch.AsUnconditional` — the effect of a branch without its condition.

Principal results: `Cpu.control_exec` — only taken branches set the program counter; `Cpu.flow_of_step` —
where every instruction goes, and what a condition makes of a branch.
-/

set_option autoImplicit false

namespace DotMatrix

/-! ## Destinations -/

/-- The number at an address, low byte first. -/
def Bus.wordAt (b : Bus) (a : UInt16) : Nat := (b.read a).toNat + 256 * (b.read (a + 1)).toNat

theorem Bus.toNat_read16 (b : Bus) (a : UInt16) : (b.read16 a).toNat = b.wordAt a :=
  toNat_word _ _

namespace Instr

/-- Where the instruction goes, if it is a branch that is taken. -/
def destination? (c : Cpu) (b : Bus) : Instr → Option Nat
  | jump cond => if taken c cond then some (b.wordAt (c.pc + 1)) else none
  | jumpHl => some (c.l.toNat + 256 * c.h.toNat)
  | jumpRelative cond =>
    if taken c cond then
      some ((c.pc.toNat + 2 + (b.read (c.pc + 1)).toInt8.toInt) % 65536).toNat
    else none
  | call cond => if taken c cond then some (b.wordAt (c.pc + 1)) else none
  | ret cond => if taken c cond then some (b.wordAt c.sp) else none
  | retEnable => some (b.wordAt c.sp)
  | restart _ => some (b.read c.pc &&& 0x38).toNat
  | _ => none

theorem not_taken {c : Cpu} {cond : Option Condition} {target : Nat}
    (h : (if taken c cond then some target else none) = none) : ¬ taken c cond = true := by
  intro htaken
  rw [if_pos htaken] at h
  cases h

end Instr

/-- The opcode of a restart holds its address. -/
theorem Opcode.and_of_restart {b : Bus} {pc : UInt16} {vector : Fin 8}
    (h : (fetch b pc).decode? = some (.restart vector)) :
    (b.read pc &&& 0x38).toNat = 8 * vector.val := by
  have hbase : ∀ (x : BitVec 8) (v : Fin 8), decodeBase? (UInt8.ofBitVec x) = some (.restart v) →
      (UInt8.ofBitVec x &&& 0x38).toNat = 8 * v.val := by decide +kernel
  unfold fetch at h
  simp only at h
  split at h
  · unfold decode? decodeExtended at h
    simp only at h
    split at h <;> cases h
  · exact hbase (b.read pc).toBitVec vector h

namespace Cpu

/-! ## The program counter -/

/-- The program counter, and whether it goes on. -/
def control (c : Cpu) : UInt16 × Bool := (c.pc, c.autoAdvance)

theorem control_set8 (c : Cpu) (r : Reg8) (v : UInt8) : (c.set8 r v).control = c.control := by
  cases r <;> rfl

theorem control_set16 (c : Cpu) (r : Reg16) (v : UInt16) : (c.set16 r v).control = c.control := by
  cases r <;> rfl

theorem control_setOperand (c : Cpu) (b : Bus) (o : Operand) (v : UInt8) :
    (c.setOperand b o v).1.control = c.control := by
  cases o with
  | reg r => exact control_set8 c r v
  | atHl => rfl

theorem control_advancePointer (c : Cpu) (p : Pointer) :
    (Instr.advancePointer c p).control = c.control := by
  cases p <;> rfl

/-- **Only taken branches set the program counter.** -/
theorem control_exec {i : Instr} {c : Cpu} {b : Bus} (h : i.destination? c b = none) :
    (i.exec c b).cpu.control = c.control := by
  cases i with
  | load dst src => exact control_setOperand c b dst _
  | loadImm dst => exact control_setOperand c b dst _
  | loadA p => exact control_advancePointer { c with a := _ } p
  | storeA p => exact control_advancePointer c p
  | loadImm16 dst => exact control_set16 c dst _
  | pop dst => exact control_set16 { c with sp := c.sp + 2 } dst _
  | inc o => exact control_setOperand c b o _
  | dec o => exact control_setOperand c b o _
  | inc16 r => exact control_set16 c r _
  | dec16 r => exact control_set16 c r _
  | shift op o => exact control_setOperand (c.shift op (c.getOperand b o)).2 b o _
  | clearBit bit o => exact control_setOperand c b o _
  | setBit bit o => exact control_setOperand c b o _
  | jump cond => simp only [Instr.exec, if_neg (Instr.not_taken h)]
  | jumpRelative cond => simp only [Instr.exec, if_neg (Instr.not_taken h)]
  | call cond => simp only [Instr.exec, if_neg (Instr.not_taken h)]
  | ret cond =>
    cases cond with
    | none => cases h
    | some x =>
      have hholds : ¬ c.holds x = true := Instr.not_taken h
      simp only [Instr.exec, if_neg hholds]
  | jumpHl => cases h
  | retEnable => cases h
  | restart vector => cases h
  | _ => rfl

variable {c : Cpu} {b b' : Bus} {i : Instr}

theorem destination?_autoAdvance (c : Cpu) (b : Bus) (on : Bool) (i : Instr) :
    i.destination? { c with autoAdvance := on } b = i.destination? c b := by
  cases i with
  | jump cond => cases cond <;> rfl
  | jumpRelative cond => cases cond <;> rfl
  | call cond => cases cond <;> rfl
  | ret cond => cases cond <;> rfl
  | _ => rfl

/-- An instruction that is not a taken branch goes on to the next one. -/
theorem pc_carryOut_of_none (h : i.destination? c b = none) :
    (c.carryOut b i).cpu.pc = c.pc + UInt16.ofNat i.length := by
  rw [← destination?_autoAdvance c b true] at h
  have hcontrol := control_exec h
  simp only [control, Prod.mk.injEq] at hcontrol
  simp only [carryOut, advance, hcontrol, if_true]

/-- A relative branch counts from the next instruction. -/
theorem toNat_relative (pc : UInt16) (e : UInt8) :
    (pc + 2 + Alu.signExtend e).toNat = ((pc.toNat + 2 + e.toInt8.toInt) % 65536).toNat := by
  have hoffset : ((pc + 2 + Alu.signExtend e).toNat : Int) =
      ((pc + 2).toNat + e.toInt8.toInt) % 65536 := Alu.toNat_offset (pc + 2) e
  have hpc : (pc + 2).toNat = (pc.toNat + 2) % 65536 := UInt16.toNat_add pc 2
  rw [hpc] at hoffset
  omega

end Cpu

/-! ## Branches with a condition -/

/-- The condition of the same flag that holds in all other cases. -/
def Condition.opposite : Condition → Condition
  | notZero => zero
  | zero => notZero
  | notCarry => carry
  | carry => notCarry

/-- A branch that exists with and without a condition. -/
inductive Branch where
  | jump
  | jumpRelative
  | call
  | ret
  deriving DecidableEq, Repr

namespace Branch

def instr : Branch → Option Condition → Instr
  | jump => .jump
  | jumpRelative => .jumpRelative
  | call => .call
  | ret => .ret

/-- Machine cycles when the condition does not hold. -/
def missedCycles : Branch → Nat
  | jump => 3
  | jumpRelative => 2
  | call => 3
  | ret => 2

/-- Machine cycles for a condition that holds. -/
def extraCycles : Branch → Nat
  | ret => 1
  | _ => 0

/-- Machine cycles without a condition. -/
def cycles : Branch → Nat
  | jump => 4
  | jumpRelative => 3
  | call => 6
  | ret => 4

/-- Where the branch goes. -/
def target (c : Cpu) (b : Bus) : Branch → UInt16
  | jumpRelative => c.pc + 2 + Alu.signExtend (c.imm8 b)
  | ret => b.read16 c.sp
  | _ => c.imm16 b

/-- The stack pointer after the branch. -/
def stackPointer (c : Cpu) : Branch → UInt16
  | call => c.sp - 2
  | ret => c.sp + 2
  | _ => c.sp

/-- What the branch does to the bus: a call leaves the address behind it on the stack. -/
def store (c : Cpu) (b : Bus) : Branch → Bus
  | call => b.write16 (c.sp - 2) (c.pc + 3)
  | _ => b

/-- The branch finds the same operand on both buses: after its opcode, or on the stack. -/
def SameOperand (c : Cpu) (b b' : Bus) : Branch → Prop
  | jumpRelative => b'.read (c.pc + 1) = b.read (c.pc + 1)
  | ret => b'.read c.sp = b.read c.sp ∧ b'.read (c.sp + 1) = b.read (c.sp + 1)
  | _ => b'.read (c.pc + 1) = b.read (c.pc + 1) ∧ b'.read (c.pc + 1 + 1) = b.read (c.pc + 1 + 1)

variable {c : Cpu} {b b' : Bus} {cond : Option Condition} {x : Condition}

theorem SameOperand.target_eq {k : Branch} (h : k.SameOperand c b b') :
    k.target c b' = k.target c b := by
  cases k with
  | jumpRelative => exact congrArg (fun e => c.pc + 2 + Alu.signExtend e) h
  | _ =>
    show Bus.word _ _ = Bus.word _ _
    rw [h.1, h.2]

theorem carryOut_none (k : Branch) (c : Cpu) (b : Bus) :
    c.carryOut b (k.instr none) =
      { cpu := { c with pc := k.target c b, sp := k.stackPointer c, autoAdvance := true }
        bus := k.store c b
        cycles := k.cycles } := by
  cases k <;> rfl

/-- A condition chooses between the branch without it and going on. -/
theorem exec_instr (k : Branch) (c : Cpu) (b : Bus) (x : Condition) :
    (k.instr (some x)).exec c b =
      if c.holds x = true then
        { (k.instr none).exec c b with
          cycles := ((k.instr none).exec c b).cycles + k.extraCycles }
      else { cpu := c, bus := b, cycles := k.missedCycles } := by
  cases k <;> rfl

theorem length_instr (k : Branch) (x : Condition) :
    (k.instr (some x)).length = (k.instr none).length := by
  cases k <;> rfl

theorem carryOut_missed (k : Branch) (b : Bus) (h : c.holds x = false) :
    c.carryOut b (k.instr (some x)) =
      { cpu :=
          { c with pc := c.pc + UInt16.ofNat (k.instr (some x)).length, autoAdvance := true }
        bus := b
        cycles := k.missedCycles } := by
  have hnot : ¬ Cpu.holds { c with autoAdvance := true } x = true := by
    rw [show Cpu.holds { c with autoAdvance := true } x = c.holds x by cases x <;> rfl, h]
    exact Bool.false_ne_true
  rw [Cpu.carryOut, exec_instr, if_neg hnot]
  rfl

theorem carryOut_taken (k : Branch) (b : Bus) (h : c.holds x = true) :
    c.carryOut b (k.instr (some x)) =
      { c.carryOut b (k.instr none) with
        cycles := (c.carryOut b (k.instr none)).cycles + k.extraCycles } := by
  have hholds : Cpu.holds { c with autoAdvance := true } x = true := by
    rw [← h]
    cases x <;> rfl
  rw [Cpu.carryOut, exec_instr, if_pos hholds, length_instr]
  rfl

theorem pc_carryOut (k : Branch) (b : Bus) (h : Instr.taken c cond = true) :
    (c.carryOut b (k.instr cond)).cpu.pc = k.target c b := by
  cases cond with
  | none => rw [carryOut_none]
  | some x => rw [k.carryOut_taken b h, carryOut_none]

/-- The effect of a branch without its condition, up to the cycles: in the same memory, and in every memory
that holds the branch without a condition, with the same operand. -/
structure AsUnconditional (k : Branch) (c : Cpu) (b : Bus) (r : Outcome) : Prop where
  here : r = { c.carryOut b (k.instr none) with
    cycles := (c.carryOut b (k.instr none)).cycles + k.extraCycles }
  elsewhere : ∀ b', (Opcode.fetch b' c.pc).decode? = some (k.instr none) →
    k.SameOperand c b b' → ∃ r', c.step b' = .ok r' ∧ r.cpu = r'.cpu ∧
      r.cycles = r'.cycles + k.extraCycles ∧ r.bus = k.store c b ∧ r'.bus = k.store c b'

theorem asUnconditional (k : Branch) (b : Bus) (h : c.holds x = true) :
    k.AsUnconditional c b (c.carryOut b (k.instr (some x))) := by
  refine ⟨k.carryOut_taken b h, fun b' hb' hsame => ?_⟩
  refine ⟨_, Cpu.step_eq_ok hb', ?_⟩
  rw [k.carryOut_taken b h, carryOut_none, carryOut_none, hsame.target_eq]
  exact ⟨rfl, rfl, rfl, rfl⟩

end Branch

/-! ## Steps -/

namespace Cpu

variable {c : Cpu} {b b' : Bus} {i : Instr}

theorem holds_opposite (c : Cpu) (x : Condition) : c.holds x.opposite = !c.holds x := by
  cases x <;> simp [Condition.opposite, holds]

theorem eq_of_taken {cond : Option Condition} {t target : Nat}
    (h : (if Instr.taken c cond then some t else none) = some target) :
    Instr.taken c cond = true ∧ t = target := by
  split at h
  · exact ⟨‹_›, Option.some.inj h⟩
  · cases h

/-- **A taken branch goes to its destination.** -/
theorem pc_carryOut_of_some (hi : (Opcode.fetch b c.pc).decode? = some i) {target : Nat}
    (h : i.destination? c b = some target) : (c.carryOut b i).cpu.pc.toNat = target := by
  cases i with
  | jump cond =>
    obtain ⟨htaken, rfl⟩ := eq_of_taken h
    exact (congrArg UInt16.toNat (Branch.jump.pc_carryOut b htaken)).trans (b.toNat_read16 _)
  | jumpRelative cond =>
    obtain ⟨htaken, rfl⟩ := eq_of_taken h
    exact (congrArg UInt16.toNat (Branch.jumpRelative.pc_carryOut b htaken)).trans
      (toNat_relative c.pc _)
  | call cond =>
    obtain ⟨htaken, rfl⟩ := eq_of_taken h
    exact (congrArg UInt16.toNat (Branch.call.pc_carryOut b htaken)).trans (b.toNat_read16 _)
  | ret cond =>
    obtain ⟨htaken, rfl⟩ := eq_of_taken h
    exact (congrArg UInt16.toNat (Branch.ret.pc_carryOut b htaken)).trans (b.toNat_read16 _)
  | jumpHl =>
    cases h
    exact Bus.toNat_word c.l c.h
  | retEnable =>
    cases h
    exact b.toNat_read16 c.sp
  | restart vector =>
    cases h
    rw [Opcode.and_of_restart hi]
    exact UInt16.toNat_ofNat_of_lt' (by show 8 * vector.val < 65536; omega)
  | _ => cases h

/-- **Where a step goes.**  Whether the advance was on or off and wherever the program counter is, an
instruction that is not a taken branch goes on to the next one, around the end of memory if need be; a taken
branch goes to its destination, which is found before anything is written.  A branch whose condition does not
hold does nothing else and takes fewer cycles; one whose condition holds is the branch without it, except that
a return takes one cycle more.  Of two opposite conditions always one holds. -/
theorem flow_of_step (c : Cpu) (b : Bus) :
    (∀ i, (Opcode.fetch b c.pc).decode? = some i →
      ∃ r, (∀ on, Cpu.step { c with autoAdvance := on } b = .ok r) ∧ r.cpu.autoAdvance = true ∧
        r.cpu.pc.toNat = (i.destination? c b).getD ((c.pc.toNat + i.length) % 65536) ∧
        ∀ (k : Branch) (x : Condition), i = k.instr (some x) →
          (c.holds x = false →
            r = { cpu := { c with pc := r.cpu.pc, autoAdvance := true }
                  bus := b
                  cycles := k.missedCycles }) ∧
          (c.holds x = true → k.AsUnconditional c b r)) ∧
      (∀ x : Condition, c.holds x.opposite = !c.holds x) ∧
      c.holds .zero = c.f.toNat.testBit 7 ∧ c.holds .carry = c.f.toNat.testBit 4 := by
  refine ⟨?_, c.holds_opposite, c.flag_eq_testBit .z, c.flag_eq_testBit .c⟩
  intro i hi
  refine ⟨c.carryOut b i, ?_, c.autoAdvance_carryOut b i, ?_, ?_⟩
  · intro on
    rw [step_autoAdvance]
    exact step_eq_ok hi
  · cases hd : i.destination? c b with
    | none =>
      rw [pc_carryOut_of_none hd, UInt16.toNat_add, UInt16.toNat_ofNat', Option.getD_none]
      omega
    | some target => exact pc_carryOut_of_some hi hd
  · rintro k x rfl
    refine ⟨fun hmissed => ?_, fun htaken => k.asUnconditional b htaken⟩
    rw [k.carryOut_missed b hmissed]

/-- A relative branch in the last bytes of memory, 128 bytes back from the address behind it. -/
def lastBranch : Bus := Bus.powerOn.writeBytes 0xFFFE [0x20, 0x80]

/-- A CPU at that branch, with its advance off and flag Z clear. -/
def atLastBranch : Cpu := { powerOn with pc := 0xFFFE, autoAdvance := false }

theorem flow_of_step_atLastBranch :
    (Opcode.fetch lastBranch atLastBranch.pc).decode? =
        some (.jumpRelative (some .notZero)) ∧
      ∃ r, atLastBranch.step lastBranch = .ok r ∧ r.cpu.pc.toNat = 0xFF80 ∧
        r.cpu.autoAdvance = true ∧ r.cycles = 3 := by
  have hi : (Opcode.fetch lastBranch atLastBranch.pc).decode? =
      some (.jumpRelative (some .notZero)) := by decide +kernel
  have hdestination : (Instr.jumpRelative (some .notZero)).destination? atLastBranch lastBranch =
      some 0xFF80 := by decide +kernel
  obtain ⟨r, hstep, hadvance, hpc, hbranch⟩ := (flow_of_step atLastBranch lastBranch).1 _ hi
  have hplain := (hbranch .jumpRelative .notZero rfl).2 (by decide)
  refine ⟨hi, r, hstep false, ?_, hadvance, congrArg Outcome.cycles hplain.here⟩
  rw [hpc, hdestination, Option.getD_some]

end Cpu

end DotMatrix
