import DotMatrix.Proofs.Coherence

/-!
# The flag register

Register F has flags in its high half and nothing in its low half.  Flag operations keep the low half,
and the ways around them, a word loaded into AF and a machine restored from any bytes, clear it.  So
nothing ever appears there, in the register or where it is pushed.

* `Flag.bit` — the place of a flag; `Flags.get` — the value for a flag among values for all four.
* `Cpu.flag_setFlag`, `Cpu.flag_setFlags` — a flag that was set is read back.
* `Cpu.step_autoAdvance` — whether the program counter was to go on before a step makes no difference
  to the step.

Principal result: `Machine.spareBits_attainable` — what steps leave in the low half of F, and what
attainable machines have there.
-/

set_option autoImplicit false

namespace DotMatrix

/-! ## Flags -/

/-- The place of a flag in register F. -/
def Flag.bit : Flag → Nat
  | z => 7
  | n => 6
  | h => 5
  | c => 4

theorem Flag.testBit_mask (x y : Flag) : x.mask.toNat.testBit y.bit = decide (y = x) := by
  cases x <;> cases y <;> decide

theorem Flag.testBit_not_mask (x y : Flag) : (~~~x.mask).toNat.testBit y.bit = !decide (y = x) := by
  cases x <;> cases y <;> decide

/-- The value for a flag. -/
def Flags.get (fs : Flags) : Flag → Bool
  | .z => fs.z
  | .n => fs.n
  | .h => fs.h
  | .c => fs.c

namespace Cpu

theorem flag_eq_testBit (c : Cpu) (x : Flag) : c.flag x = c.f.toNat.testBit x.bit := by
  have h : ∀ f : BitVec 8, decide (UInt8.ofBitVec f &&& x.mask ≠ 0) =
      (UInt8.ofBitVec f).toNat.testBit x.bit := by
    cases x <;> decide
  exact h c.f.toBitVec

/-- **Setting a flag sets this flag and no other.** -/
theorem flag_setFlag (c : Cpu) (x y : Flag) (on : Bool) :
    (c.setFlag x on).flag y = if y = x then on else c.flag y := by
  rw [flag_eq_testBit, flag_eq_testBit, setFlag]
  cases on with
  | false =>
    simp only [Bool.false_eq_true, if_false, UInt8.toNat_and, Nat.testBit_and,
      Flag.testBit_not_mask]
    split <;> simp [*]
  | true =>
    simp only [if_true, UInt8.toNat_or, Nat.testBit_or, Flag.testBit_mask]
    split <;> simp [*]

theorem flag_setFlags (c : Cpu) (fs : Flags) (x : Flag) : (c.setFlags fs).flag x = fs.get x := by
  cases x <;> simp [setFlags, flag_setFlag, Flags.get]

theorem flag_setNhc (c : Cpu) (n h carry : Bool) (x : Flag) :
    (c.setNhc n h carry).flag x =
      Flags.get { z := c.flag .z, n := n, h := h, c := carry } x := by
  cases x <;> simp [setNhc, flag_setFlag, Flags.get]

/-! ## Steps -/

variable {c : Cpu} {b : Bus} {i : Instr}

theorem step_eq_ok (h : (Opcode.fetch b c.pc).decode? = some i) :
    c.step b = .ok (c.carryOut b i) := by
  simp only [step, h]

/-- **The advance of the program counter is switched on before the instruction**, so a step does not
depend on it. -/
theorem step_autoAdvance (c : Cpu) (b : Bus) (on : Bool) :
    step { c with autoAdvance := on } b = c.step b := by
  simp only [step, carryOut]

theorem autoAdvance_carryOut (c : Cpu) (b : Bus) (i : Instr) :
    (c.carryOut b i).cpu.autoAdvance = true := rfl

theorem spareBits_carryOut (c : Cpu) (b : Bus) (i : Instr) :
    spareBits (c.carryOut b i).cpu.f = spareBits c.f ∨ spareBits (c.carryOut b i).cpu.f = 0 :=
  i.spareBits_exec { c with autoAdvance := true } b

/-- Pushing AF stores F below A. -/
theorem bus_push_af (c : Cpu) (b : Bus) :
    (c.carryOut b (.push .af)).bus = (b.write (c.sp - 2) c.f).write (c.sp - 2 + 1) c.a := by
  show b.write16 (c.sp - 2) (Bus.word c.f c.a) = _
  rw [Bus.write16, Bus.lowByte_word, Bus.highByte_word]

end Cpu

namespace Machine

/-- **The low half of register F.**  An instruction that exists is carried out, whether the advance of
the program counter was on or off; it leaves the advance on, and the low half of F as it was or empty.
In attainable machines that half is empty, so pushing AF stores a byte of flags alone. -/
theorem spareBits_attainable :
    (∀ (c : Cpu) (b : Bus) (i : Instr), (Opcode.fetch b c.pc).decode? = some i →
      ∃ r, (∀ on, Cpu.step { c with autoAdvance := on } b = .ok r) ∧ r.cpu.autoAdvance = true ∧
        (Cpu.spareBits r.cpu.f = Cpu.spareBits c.f ∨ Cpu.spareBits r.cpu.f = 0)) ∧
      ∀ m, Attainable m → Cpu.spareBits m.cpu.f = 0 ∧
        ((Opcode.fetch m.bus m.cpu.pc).decode? = some (.push .af) →
          ∃ r flags, m.cpu.step m.bus = .ok r ∧ Cpu.spareBits flags = 0 ∧
            r.bus = (m.bus.write (m.cpu.sp - 2) flags).write (m.cpu.sp - 2 + 1) m.cpu.a) := by
  constructor
  · intro c b i hi
    refine ⟨c.carryOut b i, ?_, c.autoAdvance_carryOut b i, c.spareBits_carryOut b i⟩
    intro on
    rw [Cpu.step_autoAdvance]
    exact Cpu.step_eq_ok hi
  · intro m hm
    have hspare := hm.intact.spareBits
    refine ⟨hspare, fun hpush => ?_⟩
    exact ⟨_, m.cpu.f, Cpu.step_eq_ok hpush, hspare, m.cpu.bus_push_af m.bus⟩

/-- A machine whose program has popped 0x12FF into AF and is about to push it again. -/
def poppedFlags : Machine :=
  ((((create { bootRom := some [0x31, 0x12, 0xC0, 0x01, 0xFF, 0x12, 0xC5, 0xF1, 0xF5] }).perform
    .step).perform .step).perform .step).perform .step

theorem spareBits_poppedFlags :
    Attainable poppedFlags ∧ poppedFlags.cpu.f = 0xF0 ∧
      ∃ r flags, poppedFlags.cpu.step poppedFlags.bus = .ok r ∧ Cpu.spareBits flags = 0 ∧
        r.bus = (poppedFlags.bus.write 0xC010 flags).write 0xC011 0x12 := by
  have h : Attainable poppedFlags := ((((Attainable.create _).call _).call _).call _).call _
  have hpush :
      (Opcode.fetch poppedFlags.bus poppedFlags.cpu.pc).decode? = some (.push .af) := by
    decide +kernel
  have hsp : poppedFlags.cpu.sp = 0xC012 := by decide +kernel
  have ha : poppedFlags.cpu.a = 0x12 := by decide +kernel
  have hstored := (spareBits_attainable.2 _ h).2 hpush
  rw [hsp, ha] at hstored
  exact ⟨h, by decide +kernel, hstored⟩

end Machine

end DotMatrix
