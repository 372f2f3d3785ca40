import DotMatrix.Proofs.BinaryArithmetic

/-!
# Additions of words

Words are added in three ways: byte by byte through the accumulator, as a whole to HL, and as a signed
byte to SP.  Each of the three computes its carries by a rule of its own.

* `Cpu.addBytes` — two words added byte by byte: the CPU after the low bytes and after the high bytes.
* `Alu.extension` — the high byte of a signed byte that becomes a word.
* `Cpu.AddedToHl`, `Cpu.AddedToSp` — what the other two additions have to leave.

Principal result: `Cpu.word_additions` — both of them leave what additions of bytes leave.
-/

set_option autoImplicit false

namespace DotMatrix

/-! ## Signed bytes -/

namespace Alu

/-- The high byte of a signed byte that becomes a word. -/
def extension (e : UInt8) : UInt8 := if e.toNat < 0x80 then 0x00 else 0xFF

theorem signExtend_eq (e : UInt8) : signExtend e = Bus.word e (extension e) := by
  have he := e.toNat_lt
  apply UInt16.toNat.inj
  unfold signExtend extension
  rw [Bus.toNat_word]
  split
  · simp only [UInt16.toNat_ofNat', UInt8.reduceToNat]
    omega
  · simp only [UInt16.toNat_ofNat', UInt8.reduceToNat]
    omega

theorem toInt_signed (e : UInt8) :
    e.toInt8.toInt = if e.toNat < 0x80 then (e.toNat : Int) else e.toNat - 256 := by
  show e.toBitVec.toInt = _
  rw [BitVec.toInt_eq_toNat_cond]
  show (if 2 * e.toNat < 256 then (e.toNat : Int) else e.toNat - 256) = _
  split <;> split <;> omega

/-- **An offset counts a signed byte**, modulo the size of memory. -/
theorem toNat_offset (w : UInt16) (e : UInt8) :
    ((offset w e).1.toNat : Int) = (w.toNat + e.toInt8.toInt) % 65536 := by
  have hw := w.toNat_lt
  have he := e.toNat_lt
  have hsum : (offset w e).1.toNat = (w.toNat + (signExtend e).toNat) % 65536 :=
    UInt16.toNat_add w (signExtend e)
  rw [hsum, signExtend_eq, Bus.toNat_word, extension, toInt_signed]
  split
  · simp only [UInt8.reduceToNat]
    omega
  · simp only [UInt8.reduceToNat]
    omega

end Alu

/-! ## Bytes of words -/

namespace Cpu

open LittleEndian

/-- Two words added byte by byte.  The first state is that after the low bytes; the second one that after
the high bytes and the carry. -/
def addBytes (c : Cpu) (x y : UInt16) : Cpu × Cpu :=
  let low := column .add c (Bus.lowByte x, Bus.lowByte y)
  (low, column .adc low (Bus.highByte x, Bus.highByte y))

theorem value_bytes_word (w : UInt16) : value [Bus.lowByte w, Bus.highByte w] = w.toNat := by
  rw [value, value, value, Nat.mul_zero, Nat.add_zero, ← Bus.toNat_word, Bus.word_bytes]

/-- **Bytes add up to words**, with the carries out of bits 11 and 15. -/
theorem addBytes_eq (c : Cpu) (x y : UInt16) :
    Bus.word (c.addBytes x y).1.a (c.addBytes x y).2.a = x + y ∧
      (c.addBytes x y).2.flag .h = decide (4096 ≤ x.toNat % 4096 + y.toNat % 4096) ∧
      (c.addBytes x y).2.flag .c = decide (65536 ≤ x.toNat + y.toNat) := by
  have hsum := leavesSum_sweep (adds_column (.inl rfl) c) (fun s => adds_column (.inr rfl) s)
    (Bus.lowByte x, Bus.lowByte y) [(Bus.highByte x, Bus.highByte y)]
  have hx : value ([(Bus.lowByte x, Bus.lowByte y), (Bus.highByte x, Bus.highByte y)].map
    Prod.fst) = x.toNat := value_bytes_word x
  have hy : value ([(Bus.lowByte x, Bus.lowByte y), (Bus.highByte x, Bus.highByte y)].map
    Prod.snd) = y.toNat := value_bytes_word y
  rw [hx, hy] at hsum
  refine ⟨?_, ?_, ?_⟩
  · apply UInt16.toNat.inj
    rw [Bus.toNat_word, UInt16.toNat_add]
    exact hsum.result
  · rw [Bool.eq_iff_iff, decide_eq_true_iff]
    exact hsum.half
  · rw [Bool.eq_iff_iff, decide_eq_true_iff]
    exact hsum.carry

/-! ## Results -/

/-- What an addition of a word to HL leaves: what additions of its bytes to L and H leave there and in the
two carries, with N clear and Z as it was. -/
structure AddedToHl (c : Cpu) (w : UInt16) (c' : Cpu) : Prop where
  low : c'.l = (c.addBytes c.hl w).1.a
  high : c'.h = (c.addBytes c.hl w).2.a
  half : c'.flag .h = (c.addBytes c.hl w).2.flag .h
  carry : c'.flag .c = (c.addBytes c.hl w).2.flag .c
  subtracted : c'.flag .n = false
  zero : c'.flag .z = c.flag .z

/-- What an addition of a signed byte to SP leaves, if the sum is `v`: the bytes of the sum are those of an
addition of the bytes, but both carries are those of the low byte, and Z and N are clear. -/
structure AddedToSp (c : Cpu) (e : UInt8) (v : UInt16) (c' : Cpu) : Prop where
  value : (v.toNat : Int) = (c.sp.toNat + e.toInt8.toInt) % 65536
  low : Bus.lowByte v = (column .add c (Bus.lowByte c.sp, e)).a
  high : Bus.highByte v =
    (column .adc (column .add c (Bus.lowByte c.sp, e)) (Bus.highByte c.sp, Alu.extension e)).a
  half : c'.flag .h = (column .add c (Bus.lowByte c.sp, e)).flag .h
  carry : c'.flag .c = (column .add c (Bus.lowByte c.sp, e)).flag .c
  subtracted : c'.flag .n = false
  zero : c'.flag .z = false

theorem addedToHl (c : Cpu) (w : UInt16) : AddedToHl c w (c.addHl w) := by
  obtain ⟨hword, hhalf, hcarry⟩ := c.addBytes_eq c.hl w
  have hflag : ∀ x, (c.addHl w).flag x = Flags.get
      { z := c.flag .z, n := false
        h := decide (4096 ≤ c.hl.toNat % 4096 + w.toNat % 4096)
        c := decide (65536 ≤ c.hl.toNat + w.toNat) } x :=
    c.flag_setNhc false _ _
  refine ⟨?_, ?_, (hflag .h).trans hhalf.symm, (hflag .c).trans hcarry.symm, hflag .n, hflag .z⟩
  · show Bus.lowByte (c.hl + w) = _
    rw [← hword, Bus.lowByte_word]
  · show Bus.highByte (c.hl + w) = _
    rw [← hword, Bus.highByte_word]

theorem addedToSp {c c' : Cpu} {e : UInt8}
    (hf : c'.f = (c.setFlags (Alu.offset c.sp e).2).f) :
    AddedToSp c e (Alu.offset c.sp e).1 c' := by
  obtain ⟨hword, -, -⟩ := c.addBytes_eq c.sp (Alu.signExtend e)
  have hbytes : c.addBytes c.sp (Alu.signExtend e) =
      (column .add c (Bus.lowByte c.sp, e),
        column .adc (column .add c (Bus.lowByte c.sp, e))
          (Bus.highByte c.sp, Alu.extension e)) := by
    rw [Alu.signExtend_eq, addBytes, Bus.lowByte_word, Bus.highByte_word]
  rw [hbytes] at hword
  have hflag : ∀ x, c'.flag x = (Alu.offset c.sp e).2.get x := by
    intro x
    rw [← flag_setFlags c, flag, flag, hf]
  have hlow : (Bus.lowByte c.sp).toNat = c.sp.toNat % 256 := UInt8.toNat_ofNat'
  refine ⟨Alu.toNat_offset c.sp e, ?_, ?_, ?_, ?_, hflag .n, hflag .z⟩
  · show Bus.lowByte (c.sp + Alu.signExtend e) = _
    rw [← hword, Bus.lowByte_word]
  · show Bus.highByte (c.sp + Alu.signExtend e) = _
    rw [← hword, Bus.highByte_word]
  · rw [hflag, flag_column]
    show decide (16 ≤ c.sp.toNat % 16 + e.toNat % 16) =
      decide (16 ≤ (Bus.lowByte c.sp).toNat % 16 + e.toNat % 16 + 0)
    rw [hlow, decide_eq_decide]
    omega
  · rw [hflag, flag_column]
    show decide (256 ≤ c.sp.toNat % 256 + e.toNat) =
      decide (256 ≤ (Bus.lowByte c.sp).toNat + e.toNat + 0)
    rw [hlow, Nat.add_zero]

/-- **Additions of words agree with additions of bytes.**  An addition to HL leaves what its bytes leave,
whatever is added.  The two additions to SP, one that keeps the sum in SP and one that loads it into HL,
leave the same sum and the same flags, and each leaves the other register alone. -/
theorem word_additions (c : Cpu) (b : Bus) :
    (∀ r : Reg16, AddedToHl c (c.get16 r) ((Instr.addHl r).exec c b).cpu) ∧
      AddedToSp c (c.imm8 b) (Instr.addSp.exec c b).cpu.sp (Instr.addSp.exec c b).cpu ∧
      AddedToSp c (c.imm8 b) (Instr.loadHlSp.exec c b).cpu.hl (Instr.loadHlSp.exec c b).cpu ∧
      (Instr.addSp.exec c b).cpu.sp = (Instr.loadHlSp.exec c b).cpu.hl ∧
      (Instr.addSp.exec c b).cpu.f = (Instr.loadHlSp.exec c b).cpu.f ∧
      (Instr.addSp.exec c b).cpu.hl = c.hl ∧
      (Instr.loadHlSp.exec c b).cpu.sp = c.sp := by
  have hhl : (Instr.loadHlSp.exec c b).cpu.hl = (Alu.offset c.sp (c.imm8 b)).1 := by
    exact Bus.word_bytes _
  refine ⟨fun r => addedToHl c (c.get16 r), addedToSp rfl, ?_, hhl.symm, rfl, rfl, rfl⟩
  rw [hhl]
  exact addedToSp rfl

end Cpu

end DotMatrix
