import DotMatrix.Machine

/-!
# What programs reach

Instructions change the hardware through writes to the bus, and a write reaches the video unit
through its memories and registers only.  Each of these layers is described once:

* `Video.Poked` — some sequence of writes to the memories and registers of the video unit.
* `Video.hidden` — the part of the video unit that no such write reaches.
* `Bus.Touched` — what writes to the bus may do, in terms of `Video.Poked`.
* `Cpu.spareBits` — the half of register F that holds no flags.

Principal results: `Video.Poked.hidden_eq` and `Video.Poked.coherent` — mode, line, clock and picture
are out of reach, and the decoded tiles stay up to date; `Instr.touched_exec`,
`Instr.spareBits_exec` — no instruction does more; `Machine.stepped_of_step` — and no step does more
than an instruction followed by the time that it took.
-/

set_option autoImplicit false

namespace DotMatrix

/-! ## The video unit -/

namespace Video

/-- `v` after some writes to the memories and registers of the video unit. -/
inductive Poked (v : Video) : Video → Prop
  | refl : Poked v v
  | memory {w : Video} (h : Poked v w) (i : Fin 0x2000) (b : UInt8) : Poked v (w.writeMemory i b)
  | sprites {w : Video} (h : Poked v w) (i : Nat) (b : UInt8) : Poked v (w.writeSprites i b)
  | register {w : Video} (h : Poked v w) (p : VideoRegister) (b : UInt8) :
    Poked v (w.writeRegister p b)

theorem Poked.trans {v w x : Video} (h : v.Poked w) (h' : w.Poked x) : v.Poked x := by
  induction h' with
  | refl => exact h
  | memory _ i b ih => exact ih.memory i b
  | sprites _ i b ih => exact ih.sprites i b
  | register _ p b ih => exact ih.register p b

/-- Mode, line, clock, window line and picture. -/
def hidden (v : Video) : Mode × UInt8 × UInt32 × UInt8 × Frame :=
  (v.regs.mode, v.regs.ly, v.clock, v.windowLine, v.frame)

theorem hidden_writeMemory (v : Video) (i : Fin 0x2000) (b : UInt8) :
    (v.writeMemory i b).hidden = v.hidden := by
  unfold writeMemory
  split <;> rfl

theorem ly_write (r : Registers) (p : VideoRegister) (b : UInt8) : (r.write p b).ly = r.ly := by
  cases p <;> rfl

theorem hidden_writeRegister (v : Video) (p : VideoRegister) (b : UInt8) :
    (v.writeRegister p b).hidden = v.hidden := by
  simp only [hidden, writeRegister, Registers.mode_write, ly_write]

/-- **Programs reach neither mode, line and clock nor the picture.** -/
theorem Poked.hidden_eq {v w : Video} (h : v.Poked w) : w.hidden = v.hidden := by
  induction h with
  | refl => rfl
  | memory _ i b ih => rw [hidden_writeMemory, ih]
  | sprites _ i b ih => exact ih
  | register _ p b ih => rw [hidden_writeRegister, ih]

/-- **Writes keep the decoded tiles up to date.** -/
theorem Poked.coherent {v w : Video} (h : v.Poked w) (hv : v.Coherent) : w.Coherent := by
  induction h with
  | refl => exact hv
  | memory _ i b ih => exact ih.writeMemory i b
  | sprites _ i b ih => exact ih
  | register _ p b ih => exact ih

end Video

/-! ## The bus -/

namespace Bus

/-- What writes to the bus may do: the images stay, external RAM keeps its size, the boot ROM is not
mapped again, and the video unit is poked. -/
structure Touched (b b' : Bus) : Prop where
  boot : b'.boot = b.boot
  rom : b'.rom = b.rom
  eram_size : b'.eram.size = b.eram.size
  bootMapped : b'.bootMapped = true → b.bootMapped = true
  video : b.video.Poked b'.video

theorem Touched.refl (b : Bus) : b.Touched b := ⟨rfl, rfl, rfl, id, .refl⟩

theorem Touched.trans {b b' b'' : Bus} (h : b.Touched b') (h' : b'.Touched b'') : b.Touched b'' :=
  ⟨h'.boot.trans h.boot, h'.rom.trans h.rom, h'.eram_size.trans h.eram_size,
    fun hm => h.bootMapped (h'.bootMapped hm), h.video.trans h'.video⟩

theorem Touched.of_video (b : Bus) {v : Video} (h : b.video.Poked v) :
    b.Touched { b with video := v } := ⟨rfl, rfl, rfl, id, h⟩

theorem touched_writeSprites (b : Bus) (i : Nat) (v : UInt8) : b.Touched (b.writeSprites i v) :=
  .of_video b (.sprites .refl i v)

/-- A transfer to the sprite table is a register write and 160 writes to the table. -/
theorem touched_transferSprites (b : Bus) (p : UInt8) : b.Touched (b.transferSprites p) := by
  unfold transferSprites
  have h0 : b.Touched { b with video := b.video.writeRegister .dma p } :=
    .of_video b (.register .refl .dma p)
  generalize ({ b with video := b.video.writeRegister .dma p } : Bus) = start at h0 ⊢
  rw [Fin.foldl_eq_finRange_foldl]
  induction List.finRange 160 generalizing start with
  | nil => exact h0
  | cons i l ih =>
    rw [List.foldl_cons]
    exact ih _ (h0.trans (touched_writeSprites start i.val _))

theorem touched_writeRegion (b : Bus) (region : Region) (v : UInt8) :
    b.Touched (b.writeRegion region v) := by
  cases region with
  | rom i => exact .refl b
  | vram i => exact .of_video b (.memory .refl i v)
  | eram i => exact ⟨rfl, rfl, Array.size_setIfInBounds, id, .refl⟩
  | wram i => exact ⟨rfl, rfl, rfl, id, .refl⟩
  | oam i => exact touched_writeSprites b i.val v
  | control r =>
    cases r
    case dma => exact touched_transferSprites b v
    all_goals exact .of_video b (.register .refl _ v)
  | bootLatch =>
    show b.Touched (if v = 0 then b else { b with bootMapped := false })
    split
    · exact .refl b
    · exact ⟨rfl, rfl, rfl, nofun, .refl⟩
  | zram i => exact ⟨rfl, rfl, rfl, id, .refl⟩
  | unmapped => exact .refl b

theorem touched_write (b : Bus) (addr : UInt16) (v : UInt8) : b.Touched (b.write addr v) :=
  touched_writeRegion b _ v

theorem touched_write16 (b : Bus) (addr w : UInt16) : b.Touched (b.write16 addr w) :=
  (touched_write b addr _).trans (touched_write _ (addr + 1) _)

end Bus

/-! ## Instructions -/

namespace Cpu

/-- The half of a byte that holds no flags when the byte is register F. -/
def spareBits (f : UInt8) : UInt8 := f &&& 0x0F

@[simp] theorem spareBits_setFlag (c : Cpu) (x : Flag) (on : Bool) :
    spareBits (c.setFlag x on).f = spareBits c.f := by
  have hset : ∀ f : BitVec 8,
      spareBits (UInt8.ofBitVec f ||| x.mask) = spareBits (UInt8.ofBitVec f) := by
    cases x <;> decide
  have hclear : ∀ f : BitVec 8,
      spareBits (UInt8.ofBitVec f &&& ~~~x.mask) = spareBits (UInt8.ofBitVec f) := by
    cases x <;> decide
  cases on
  · exact hclear c.f.toBitVec
  · exact hset c.f.toBitVec

@[simp] theorem spareBits_setFlags (c : Cpu) (fs : Flags) :
    spareBits (c.setFlags fs).f = spareBits c.f := by
  simp [setFlags]

@[simp] theorem spareBits_setZnh (c : Cpu) (z n h : Bool) :
    spareBits (c.setZnh z n h).f = spareBits c.f := by
  simp [setZnh]

@[simp] theorem spareBits_setNhc (c : Cpu) (n h carry : Bool) :
    spareBits (c.setNhc n h carry).f = spareBits c.f := by
  simp [setNhc]

@[simp] theorem f_set8 (c : Cpu) (r : Reg8) (v : UInt8) : (c.set8 r v).f = c.f := by
  cases r <;> rfl

@[simp] theorem f_set16_hl (c : Cpu) (v : UInt16) : (c.set16 .hl v).f = c.f := rfl

@[simp] theorem f_jump (c : Cpu) (target : UInt16) : (c.jump target).f = c.f := rfl

@[simp] theorem f_push (c : Cpu) (b : Bus) (w : UInt16) : (c.push b w).1.f = c.f := rfl

@[simp] theorem f_pop (c : Cpu) (b : Bus) : (c.pop b).2.f = c.f := rfl

@[simp] theorem f_setOperand (c : Cpu) (b : Bus) (o : Operand) (v : UInt8) :
    (c.setOperand b o v).1.f = c.f := by
  cases o
  · exact f_set8 c _ v
  · rfl

@[simp] theorem spareBits_accumulate (c : Cpu) (op : AluOp) (v : UInt8) :
    spareBits (c.accumulate op v).f = spareBits c.f :=
  spareBits_setFlags { c with a := _ } _

@[simp] theorem spareBits_shift (c : Cpu) (op : ShiftOp) (v : UInt8) :
    spareBits (c.shift op v).2.f = spareBits c.f :=
  spareBits_setFlags c _

/-- A word written to AF loses its spare bits; no other register has any. -/
theorem spareBits_set16 (c : Cpu) (r : Reg16) (v : UInt16) :
    spareBits (c.set16 r v).f = spareBits c.f ∨ spareBits (c.set16 r v).f = 0 := by
  have hmask : ∀ f : BitVec 8, spareBits (UInt8.ofBitVec f &&& 0xF0) = 0 := by decide
  cases r
  case af => exact .inr (hmask (Bus.lowByte v).toBitVec)
  all_goals exact .inl rfl

theorem touched_setOperand (c : Cpu) (b : Bus) (o : Operand) (v : UInt8) :
    b.Touched (c.setOperand b o v).2 := by
  cases o
  · exact .refl b
  · exact Bus.touched_write b _ v

theorem touched_push (c : Cpu) (b : Bus) (w : UInt16) : b.Touched (c.push b w).2 :=
  Bus.touched_write16 b _ w

end Cpu

namespace Instr

@[simp] theorem f_advancePointer (c : Cpu) (p : Pointer) : (advancePointer c p).f = c.f := by
  cases p <;> rfl

/-- **An instruction reaches the hardware through writes only.** -/
theorem touched_exec (i : Instr) (c : Cpu) (b : Bus) : b.Touched (i.exec c b).bus := by
  cases i with
  | load dst src => exact Cpu.touched_setOperand c b dst _
  | loadImm dst => exact Cpu.touched_setOperand c b dst _
  | storeA p => exact Bus.touched_write b _ _
  | storeSp => exact Bus.touched_write16 b _ _
  | push src => exact Cpu.touched_push c b _
  | inc o => exact Cpu.touched_setOperand c b o _
  | dec o => exact Cpu.touched_setOperand c b o _
  | shift op o => exact Cpu.touched_setOperand _ b o _
  | clearBit bit o => exact Cpu.touched_setOperand c b o _
  | setBit bit o => exact Cpu.touched_setOperand c b o _
  | restart vector => exact Cpu.touched_push c b _
  | jump cond => simp only [exec]; split <;> exact .refl b
  | jumpRelative cond => simp only [exec]; split <;> exact .refl b
  | call cond =>
    simp only [exec]
    split
    · exact Cpu.touched_push c b _
    · exact .refl b
  | ret cond =>
    cases cond with
    | none => exact .refl b
    | some x => simp only [exec]; split <;> exact .refl b
  | _ => exact .refl b

/-- **An instruction leaves the spare bits of F as they are or clears them.** -/
theorem spareBits_exec (i : Instr) (c : Cpu) (b : Bus) :
    Cpu.spareBits (i.exec c b).cpu.f = Cpu.spareBits c.f ∨
      Cpu.spareBits (i.exec c b).cpu.f = 0 := by
  cases i with
  | loadImm16 dst => exact Cpu.spareBits_set16 c dst _
  | inc16 r => exact Cpu.spareBits_set16 c r _
  | dec16 r => exact Cpu.spareBits_set16 c r _
  | pop dst => exact Cpu.spareBits_set16 { c with sp := c.sp + 2 } dst _
  | jump cond => simp only [exec]; split <;> exact .inl rfl
  | jumpRelative cond => simp only [exec]; split <;> exact .inl rfl
  | call cond => simp only [exec]; split <;> exact .inl rfl
  | ret cond =>
    cases cond with
    | none => exact .inl rfl
    | some x => simp only [exec]; split <;> exact .inl rfl
  | retEnable => exact .inl rfl
  | restart vector => exact .inl rfl
  | addHl src => left; simp [exec, Cpu.addHl]
  | decimalAdjust => left; simp [exec, Cpu.decimalAdjust]
  | clearBit bit o => left; simp [exec, modify]
  | setBit bit o => left; simp [exec, modify]
  | _ => left; simp [exec]

/-- An instruction takes one to six machine cycles. -/
theorem cycles_exec (i : Instr) (c : Cpu) (b : Bus) :
    1 ≤ (i.exec c b).cycles ∧ (i.exec c b).cycles ≤ 6 := by
  have hoperand : ∀ (o : Operand) (m n : Nat), operandCycles o m n = m ∨ operandCycles o m n = n :=
    fun o m n => by cases o <;> simp [operandCycles, Operand.isMemory]
  have hpointer : ∀ p : Pointer, pointerBytes p ≤ 2 := fun p => by cases p <;> decide
  cases i with
  | load dst src => simp only [exec]; split <;> omega
  | loadImm o => have := hoperand o 2 3; simp only [exec]; omega
  | alu op o => have := hoperand o 1 2; simp only [exec]; omega
  | inc o => have := hoperand o 1 3; simp only [exec]; omega
  | dec o => have := hoperand o 1 3; simp only [exec]; omega
  | shift op o => have := hoperand o 2 4; simp only [exec]; omega
  | testBit bit o => have := hoperand o 2 4; simp only [exec]; omega
  | clearBit bit o => have := hoperand o 2 4; simp only [exec]; omega
  | setBit bit o => have := hoperand o 2 4; simp only [exec]; omega
  | loadA p => have := hpointer p; simp only [exec]; omega
  | storeA p => have := hpointer p; simp only [exec]; omega
  | jump cond => simp only [exec]; split <;> simp [execJump]
  | jumpRelative cond => simp only [exec]; split <;> simp [execJumpRelative]
  | call cond => simp only [exec]; split <;> simp [execCall]
  | ret cond =>
    cases cond with
    | none => simp [exec, execRet]
    | some x => simp only [exec]; split <;> simp
  | retEnable => simp [exec, execRet]
  | restart vector => simp [exec, execRestart]
  | _ => simp [exec]

end Instr

/-! ## Steps -/

namespace Machine

/-- What a step may do to a machine: the CPU touches the bus, and the video unit then catches up
with the time that the instruction took. -/
structure Stepped (m m' : Machine) (s : Step) : Prop where
  config : m'.config = m.config
  spareBits : Cpu.spareBits m'.cpu.f = Cpu.spareBits m.cpu.f ∨ Cpu.spareBits m'.cpu.f = 0
  cycles_pos : 1 ≤ s.cycles
  cycles_le : s.cycles ≤ 6
  bus : ∃ b, m.bus.Touched b ∧
    m'.bus = { b with video := (b.video.tick (UInt32.ofNat (ticksPerCycle * s.cycles))).1 } ∧
    s.frameComplete = (b.video.tick (UInt32.ofNat (ticksPerCycle * s.cycles))).2
  cycles : m'.cycles = m.cycles + UInt64.ofNat s.cycles
  frames : m'.frames = if s.frameComplete then m.frames + 1 else m.frames

theorem stepped_of_step {m m' : Machine} {s : Step} (h : m.step = .ok (m', s)) :
    m.Stepped m' s := by
  unfold step Cpu.step at h
  cases hd : (Opcode.fetch m.bus m.cpu.pc).decode? with
  | none => simp only [hd] at h; cases h
  | some i =>
    simp only [hd, Except.ok.injEq] at h
    cases h
    obtain ⟨hpos, hle⟩ := i.cycles_exec { m.cpu with autoAdvance := true } m.bus
    exact
      { config := rfl
        spareBits := i.spareBits_exec { m.cpu with autoAdvance := true } m.bus
        cycles_pos := hpos
        cycles_le := hle
        bus := ⟨_, i.touched_exec { m.cpu with autoAdvance := true } m.bus, rfl, rfl⟩
        cycles := rfl
        frames := rfl }

end Machine

end DotMatrix
