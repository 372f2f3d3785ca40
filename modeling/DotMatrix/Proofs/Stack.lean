import DotMatrix.Proofs.FlagRegister
import DotMatrix.Proofs.MemoryMap

/-!
# The stack

The stack lives in memory below SP, and SP may lie anywhere.  Where every address names a byte of its own,
what was pushed comes back, the last word first, and no other byte changes.

* `Window` — ranges of memory in which no two addresses name the same byte; `Room` — the bytes of so many
  words below an address lie in one of them; `OnStack` — an address names one of these bytes.
* `Cpu.pushAll`, `Cpu.popAll` — several words put on the stack, and several taken from it.
* `Instr.Calls`, `Instr.Returns` — the instructions that leave their address on the stack, and those that
  go to the address on it.
* `Cpu.KeepsTop` — a CPU and a bus with the same word on top; `Cpu.Transfers`, `Cpu.Resumes` — what such a
  CPU makes of a word that a push or a call left there.

Principal result: `Cpu.lastIn_firstOut` — words of any number come back in reverse; a register pair goes
through the stack unchanged; and a return resumes behind the call.
-/

set_option autoImplicit false

namespace DotMatrix

/-! ## Windows -/

/-- A range of memory in which every address names a byte of its own. -/
inductive Window where
  /-- Video memory, external RAM and work RAM. -/
  | storage
  /-- The echo of work RAM and the sprite table. -/
  | echo
  /-- Zero-page RAM. -/
  | zeroPage
  deriving DecidableEq, Repr

namespace Window

/-- The first address. -/
def first : Window → UInt16
  | storage => 0x8000
  | echo => 0xE000
  | zeroPage => 0xFF80

/-- The last address. -/
def last : Window → UInt16
  | storage => 0xDFFF
  | echo => 0xFE9F
  | zeroPage => 0xFFFF

/-- The address lies in the window. -/
def Holds (w : Window) (a : UInt16) : Prop := w.first ≤ a ∧ a ≤ w.last

instance (w : Window) (a : UInt16) : Decidable (w.Holds a) := inferInstanceAs (Decidable (_ ∧ _))

variable {w : Window} {a x : UInt16}

theorem holds_iff : w.Holds a ↔ w.first.toNat ≤ a.toNat ∧ a.toNat ≤ w.last.toNat := by
  rw [Holds, UInt16.le_iff_toNat_le, UInt16.le_iff_toNat_le]

theorem Holds.inMemory (h : w.Holds a) : Bus.InMemory a := by
  rw [holds_iff] at h
  simp only [Bus.InMemory, UInt16.le_iff_toNat_le, UInt16.reduceToNat]
  cases w <;> simp only [first, last, UInt16.reduceToNat] at h <;> omega

theorem Holds.eq_of_sameByte (ha : w.Holds a) (hx : w.Holds x) (h : Bus.SameByte a x) : x = a := by
  rw [holds_iff] at ha hx
  rcases h with h | h | h
  · exact h
  · rw [Bus.echo_iff] at h
    cases w <;> simp only [first, last, UInt16.reduceToNat] at ha hx <;> omega
  · rw [Bus.echo_iff] at h
    cases w <;> simp only [first, last, UInt16.reduceToNat] at ha hx <;> omega

end Window

/-- There is room for `n` words below an address: their bytes lie in one window. -/
def Room (sp : UInt16) (n : Nat) : Prop :=
  ∃ w : Window, ∀ i, 1 ≤ i → i ≤ 2 * n → w.Holds (sp - UInt16.ofNat i)

/-- An address names a byte of the `n` words below `sp`. -/
def OnStack (sp : UInt16) (n : Nat) (x : UInt16) : Prop :=
  ∃ i, 1 ≤ i ∧ i ≤ 2 * n ∧ Bus.SameByte (sp - UInt16.ofNat i) x

theorem sub_two_add_one (sp : UInt16) : sp - 2 + 1 = sp - UInt16.ofNat 1 := by
  apply UInt16.toNat.inj
  simp only [UInt16.toNat_add, UInt16.toNat_sub, UInt16.toNat_ofNat', UInt16.reduceToNat]
  omega

theorem sub_sub_ofNat (sp : UInt16) (i : Nat) :
    sp - 2 - UInt16.ofNat i = sp - UInt16.ofNat (i + 2) := by
  apply UInt16.toNat.inj
  simp only [UInt16.toNat_sub, UInt16.toNat_ofNat', UInt16.reduceToNat]
  omega

namespace Room

variable {sp : UInt16} {n : Nat}

/-- No window holds address 0, so the words end before they come round to it. -/
theorem bound (h : Room sp n) : 2 * n < 65536 := by
  obtain ⟨w, hw⟩ := h
  refine Nat.lt_of_not_le fun hle => ?_
  have hsp := sp.toNat_lt
  have hzero : ∃ i, 1 ≤ i ∧ i ≤ 65536 ∧ sp - UInt16.ofNat i = 0 := by
    by_cases hnull : sp.toNat = 0
    · refine ⟨65536, by omega, by omega, UInt16.toNat.inj ?_⟩
      simp only [UInt16.toNat_sub, UInt16.toNat_ofNat', UInt16.reduceToNat]
      omega
    · refine ⟨sp.toNat, by omega, by omega, UInt16.toNat.inj ?_⟩
      simp only [UInt16.toNat_sub, UInt16.toNat_ofNat', UInt16.reduceToNat]
      omega
  obtain ⟨i, hlow, hhigh, hi⟩ := hzero
  have hheld := hw i hlow (by omega)
  rw [hi, Window.holds_iff] at hheld
  cases w <;> simp only [Window.first, Window.last, UInt16.reduceToNat] at hheld <;> omega

/-- The rest of the words goes below the first one. -/
theorem tail (h : Room sp (n + 1)) : Room (sp - 2) n := by
  obtain ⟨w, hw⟩ := h
  refine ⟨w, fun i hlow hhigh => ?_⟩
  rw [sub_sub_ofNat]
  exact hw (i + 2) (by omega) (by omega)

/-- The bytes are all different. -/
theorem eq_of_sameByte (h : Room sp n) {i j : Nat} (hi : 1 ≤ i ∧ i ≤ 2 * n)
    (hj : 1 ≤ j ∧ j ≤ 2 * n) (hsame : Bus.SameByte (sp - UInt16.ofNat i) (sp - UInt16.ofNat j)) :
    j = i := by
  have hbound := h.bound
  obtain ⟨w, hw⟩ := h
  have heq := (hw i hi.1 hi.2).eq_of_sameByte (hw j hj.1 hj.2) hsame
  have hnat := congrArg UInt16.toNat heq
  have hsp := sp.toNat_lt
  simp only [UInt16.toNat_sub, UInt16.toNat_ofNat'] at hnat
  omega

/-- The bytes of the first word are not among those of the rest. -/
theorem not_onStack_tail (h : Room sp (n + 1)) {i : Nat} (hi : i = 1 ∨ i = 2) :
    ¬ OnStack (sp - 2) n (sp - UInt16.ofNat i) := by
  rintro ⟨j, hlow, hhigh, hsame⟩
  rw [sub_sub_ofNat] at hsame
  have heq := h.eq_of_sameByte ⟨by omega, by omega⟩ ⟨by omega, by omega⟩ hsame
  omega

end Room

/-! ## Words -/

namespace Cpu

/-- Puts words on the stack, one after the other. -/
def pushAll (c : Cpu) (b : Bus) : List UInt16 → Cpu × Bus
  | [] => (c, b)
  | w :: ws =>
    let r := c.push b w
    pushAll r.1 r.2 ws

/-- Takes `n` words from the stack, one after the other. -/
def popAll (c : Cpu) (b : Bus) : Nat → List UInt16 × Cpu
  | 0 => ([], c)
  | n + 1 =>
    let r := c.pop b
    let s := popAll r.2 b n
    (r.1 :: s.1, s.2)

/-- The last of several words is taken after all the others. -/
theorem popAll_succ (c : Cpu) (b : Bus) (n : Nat) :
    c.popAll b (n + 1) =
      ((c.popAll b n).1 ++ [((c.popAll b n).2.pop b).1], ((c.popAll b n).2.pop b).2) := by
  induction n generalizing c with
  | zero => rfl
  | succ n ih => rw [popAll, ih, popAll, List.cons_append]

variable {b : Bus} {c : Cpu}

theorem eram_size_push (w : UInt16) : (c.push b w).2.eram.size = b.eram.size :=
  (c.touched_push b w).eram_size

theorem sp_push (w : UInt16) : (c.push b w).1.sp = c.sp - 2 := rfl

/-- What is read after a word was put on the stack. -/
theorem read_push (hsize : b.eram.size = Bus.eramSize) {n : Nat} (hroom : Room c.sp (n + 1))
    (w : UInt16) (x : UInt16) :
    (c.push b w).2.read x =
      if Bus.SameByte (c.sp - UInt16.ofNat 1) x then Bus.highByte w
      else if Bus.SameByte (c.sp - UInt16.ofNat 2) x then Bus.lowByte w
      else b.read x := by
  obtain ⟨window, hwindow⟩ := hroom
  have hlow := (hwindow 2 (by omega) (by omega)).inMemory
  have hhigh := (hwindow 1 (by omega) (by omega)).inMemory
  have hsize' : (b.write (c.sp - UInt16.ofNat 2) (Bus.lowByte w)).eram.size = Bus.eramSize :=
    (Bus.touched_write b _ _).eram_size.trans hsize
  show ((b.write (c.sp - UInt16.ofNat 2) (Bus.lowByte w)).write (c.sp - 2 + 1)
    (Bus.highByte w)).read x = _
  rw [sub_two_add_one, Bus.read_write_of_inMemory (Bus.present_of_size hsize' _) hhigh,
    Bus.read_write_of_inMemory (Bus.present_of_size hsize _) hlow]

/-- The bytes of the word on top of the stack are those that a CPU with the same SP left there. -/
structure KeepsTop (c : Cpu) (b : Bus) (c' : Cpu) (b' : Bus) : Prop where
  sp : c'.sp = c.sp
  low : b'.read c.sp = b.read c.sp
  high : b'.read (c.sp + 1) = b.read (c.sp + 1)

/-- **A word is read where it was put on the stack**, as long as its two bytes stay. -/
theorem KeepsTop.read16_eq (hsize : b.eram.size = Bus.eramSize) {n : Nat}
    (hroom : Room c.sp (n + 1)) {w : UInt16} {c' : Cpu} {b' : Bus}
    (h : KeepsTop (c.push b w).1 (c.push b w).2 c' b') : b'.read16 (c.sp - 2) = w := by
  have hlow : b'.read (c.sp - 2) = (c.push b w).2.read (c.sp - 2) := h.low
  have hhigh : b'.read (c.sp - 2 + 1) = (c.push b w).2.read (c.sp - 2 + 1) := h.high
  have hapart : ¬ Bus.SameByte (c.sp - UInt16.ofNat 1) (c.sp - 2) := by
    intro hsame
    have heq : 2 = 1 := hroom.eq_of_sameByte ⟨by omega, by omega⟩ ⟨by omega, by omega⟩ hsame
    cases heq
  rw [read_push hsize hroom, if_neg hapart, if_pos (.inl rfl)] at hlow
  rw [sub_two_add_one, read_push hsize hroom, if_pos (.inl rfl)] at hhigh
  rw [Bus.read16, sub_two_add_one, hlow, hhigh, Bus.word_bytes]

theorem onStack_tail {sp : UInt16} {n : Nat} {x : UInt16} (h : OnStack (sp - 2) n x) :
    OnStack sp (n + 1) x := by
  obtain ⟨i, hlow, hhigh, hsame⟩ := h
  rw [sub_sub_ofNat] at hsame
  exact ⟨i + 2, by omega, by omega, hsame⟩

/-- **What was read elsewhere stays.** -/
theorem read_pushAll (hsize : b.eram.size = Bus.eramSize) {ws : List UInt16}
    (hroom : Room c.sp ws.length) {x : UInt16} (hx : ¬ OnStack c.sp ws.length x) :
    (c.pushAll b ws).2.read x = b.read x := by
  induction ws generalizing c b with
  | nil => rfl
  | cons w ws ih =>
    rw [List.length_cons] at hroom hx
    have hrest : Room (c.push b w).1.sp ws.length := hroom.tail
    have hx' : ¬ OnStack (c.push b w).1.sp ws.length x := mt onStack_tail hx
    rw [pushAll, ih ((eram_size_push w).trans hsize) hrest hx', read_push hsize hroom, if_neg,
      if_neg]
    · exact fun h => hx ⟨2, by omega, by omega, h⟩
    · exact fun h => hx ⟨1, by omega, by omega, h⟩

/-- **Words come back in reverse.**  The first word is the last one to be taken, and its bytes were left
alone by the words above it. -/
theorem popAll_pushAll (hsize : b.eram.size = Bus.eramSize) {ws : List UInt16}
    (hroom : Room c.sp ws.length) :
    (c.pushAll b ws).1.popAll (c.pushAll b ws).2 ws.length = (ws.reverse, c) := by
  induction ws generalizing c b with
  | nil => rfl
  | cons w ws ih =>
    rw [List.length_cons] at hroom
    have hrest : Room (c.push b w).1.sp ws.length := hroom.tail
    have hsize' : (c.push b w).2.eram.size = Bus.eramSize := (eram_size_push w).trans hsize
    have hkept : KeepsTop (c.push b w).1 (c.push b w).2 (c.push b w).1
        ((c.push b w).1.pushAll (c.push b w).2 ws).2 := by
      refine ⟨rfl, ?_, ?_⟩
      · exact read_pushAll hsize' hrest (hroom.not_onStack_tail (.inr rfl))
      · rw [sp_push, sub_two_add_one]
        exact read_pushAll hsize' hrest (hroom.not_onStack_tail (.inl rfl))
    have hword : ((c.push b w).1.pushAll (c.push b w).2 ws).2.read16 (c.sp - 2) = w :=
      hkept.read16_eq hsize hroom
    rw [pushAll, List.length_cons, popAll_succ, ih hsize' hrest, List.reverse_cons]
    have hpop : (c.push b w).1.pop ((c.push b w).1.pushAll (c.push b w).2 ws).2 =
        (w, { c with sp := c.sp - 2 + 2 }) := Prod.ext hword rfl
    rw [hpop, UInt16.sub_add_cancel]

end Cpu

/-! ## Calls and returns -/

namespace Instr

/-- The instruction leaves the address behind it on the stack and goes elsewhere. -/
def Calls (c : Cpu) : Instr → Prop
  | call cond => taken c cond = true
  | restart _ => True
  | _ => False

/-- The instruction goes to the address on the stack. -/
def Returns (c : Cpu) : Instr → Prop
  | ret cond => taken c cond = true
  | retEnable => True
  | _ => False

/-- Where a calling instruction goes: to the address after its opcode, or to one of its own. -/
def callee (c : Cpu) (b : Bus) : Instr → UInt16
  | restart vector => UInt16.ofNat (8 * vector.val)
  | _ => c.imm16 b

variable {i : Instr} {c : Cpu}

/-- **A call reads where it goes before it puts its address on the stack.** -/
theorem carryOut_of_calls (h : i.Calls c) (b : Bus) :
    ∃ n, c.carryOut b i =
      { cpu := { c with pc := i.callee c b, sp := c.sp - 2, autoAdvance := true }
        bus := b.write16 (c.sp - 2) (c.pc + UInt16.ofNat i.length)
        cycles := n } := by
  cases i with
  | call cond =>
    have htaken : taken { c with autoAdvance := true } cond = true := by
      cases cond with
      | none => rfl
      | some x => exact h
    refine ⟨6, ?_⟩
    simp only [Cpu.carryOut, exec, if_pos htaken]
    rfl
  | restart vector => exact ⟨4, rfl⟩
  | _ => exact h.elim

theorem carryOut_of_returns (h : i.Returns c) (b : Bus) :
    (c.carryOut b i).cpu.pc = b.read16 c.sp ∧ (c.carryOut b i).cpu.sp = c.sp + 2 := by
  cases i with
  | ret cond =>
    cases cond with
    | none => exact ⟨rfl, rfl⟩
    | some x =>
      have hholds : Cpu.holds { c with autoAdvance := true } x = true := h
      simp only [Cpu.carryOut, exec, if_pos hholds]
      exact ⟨rfl, rfl⟩
  | retEnable => exact ⟨rfl, rfl⟩
  | _ => exact h.elim

end Instr

namespace Cpu

/-- The word of a register pair, with the half of F that holds no flags cleared. -/
def maskedFor (dst : Reg16) (w : UInt16) : UInt16 :=
  if dst = .af then Bus.word (Bus.lowByte w &&& 0xF0) (Bus.highByte w) else w

theorem get16_set16 (c : Cpu) (r : Reg16) (w : UInt16) : (c.set16 r w).get16 r = maskedFor r w := by
  cases r with
  | af => rfl
  | sp => rfl
  | _ => exact Bus.word_bytes w

/-- What a push of a register pair leaves, so that a pop by a CPU that finds the word on top moves it into
a pair of its own and takes SP back. -/
structure Transfers (c : Cpu) (src : Reg16) (r : Outcome) : Prop where
  sp : r.cpu = { c with sp := c.sp - 2 }
  moved : ∀ (c' : Cpu) (b' : Bus) (dst : Reg16), KeepsTop r.cpu r.bus c' b' →
    ((Instr.pop dst).exec c' b').cpu = { c' with sp := c.sp }.set16 dst (c.get16 src) ∧
      ((Instr.pop dst).exec c' b').cpu.get16 dst = maskedFor dst (c.get16 src)

/-- What the step of a call leaves: it goes to its callee, and a step of a return by a CPU that finds the
address on top resumes behind the call and takes SP back. -/
structure Resumes (c : Cpu) (b : Bus) (i : Instr) (r : Outcome) : Prop where
  callee : r.cpu.pc = i.callee c b
  sp : r.cpu.sp = c.sp - 2
  resumed : ∀ (c' : Cpu) (b' : Bus) (j : Instr), KeepsTop r.cpu r.bus c' b' →
    (Opcode.fetch b' c'.pc).decode? = some j → j.Returns c' →
    ∃ r', c'.step b' = .ok r' ∧ r'.cpu.pc = c.pc + UInt16.ofNat i.length ∧ r'.cpu.sp = c.sp

variable {b : Bus} {c : Cpu}

theorem transfers_push (hsize : b.eram.size = Bus.eramSize) (hroom : Room c.sp 1) (src : Reg16) :
    Transfers c src ((Instr.push src).exec c b) := by
  refine ⟨rfl, fun c' b' dst hkept => ?_⟩
  have hsp : c'.sp = c.sp - 2 := hkept.sp
  have hword : b'.read16 c'.sp = c.get16 src := hsp ▸ hkept.read16_eq hsize hroom
  have hcpu : ((Instr.pop dst).exec c' b').cpu =
      { c' with sp := c.sp }.set16 dst (c.get16 src) := by
    show { c' with sp := c'.sp + 2 }.set16 dst (b'.read16 c'.sp) = _
    rw [hword, hsp, UInt16.sub_add_cancel]
  exact ⟨hcpu, hcpu ▸ get16_set16 _ dst _⟩

theorem resumes_of_calls (hsize : b.eram.size = Bus.eramSize) (hroom : Room c.sp 1) {i : Instr}
    (h : i.Calls c) : Resumes c b i (c.carryOut b i) := by
  obtain ⟨n, hout⟩ := i.carryOut_of_calls h b
  rw [hout]
  refine ⟨rfl, rfl, fun c' b' j hkept hj hreturns => ?_⟩
  have hsp : c'.sp = c.sp - 2 := hkept.sp
  have hkept' : KeepsTop (c.push b (c.pc + UInt16.ofNat i.length)).1
      (c.push b (c.pc + UInt16.ofNat i.length)).2 c' b' := ⟨hkept.sp, hkept.low, hkept.high⟩
  obtain ⟨hpc, hsp'⟩ := j.carryOut_of_returns hreturns b'
  refine ⟨c'.carryOut b' j, step_eq_ok hj, ?_, ?_⟩
  · rw [hpc, hsp]
    exact hkept'.read16_eq hsize hroom
  · rw [hsp', hsp]
    exact UInt16.sub_add_cancel c.sp 2

/-- **Last in, first out.**  Where there is room for them, words of any number come back in reverse, with
the CPU as it was, and what is read elsewhere stays.  A register pair that was pushed is popped into any
pair, and a call that was made is returned from, as long as SP and the two bytes there are found as they
were left. -/
theorem lastIn_firstOut (hsize : b.eram.size = Bus.eramSize) (c : Cpu) :
    (∀ ws : List UInt16, Room c.sp ws.length →
      (c.pushAll b ws).1.popAll (c.pushAll b ws).2 ws.length = (ws.reverse, c) ∧
        ∀ x, ¬ OnStack c.sp ws.length x → (c.pushAll b ws).2.read x = b.read x) ∧
      (Room c.sp 1 →
        (∀ src : Reg16, Transfers c src ((Instr.push src).exec c b)) ∧
        ∀ i : Instr, (Opcode.fetch b c.pc).decode? = some i → i.Calls c →
          ∃ r, c.step b = .ok r ∧ Resumes c b i r) := by
  refine ⟨fun ws hroom => ?_, fun hroom => ⟨fun src => transfers_push hsize hroom src, ?_⟩⟩
  · exact ⟨popAll_pushAll hsize hroom, fun x hx => read_pushAll hsize hroom hx⟩
  · intro i hi hcalls
    exact ⟨c.carryOut b i, step_eq_ok hi, resumes_of_calls hsize hroom hcalls⟩

/-- A call in the last bytes of memory, and a return where it goes. -/
def lastCall : Bus := (Bus.powerOn.writeBytes 0xFFFD [0xCD, 0x00, 0xC0]).write 0xC000 0xC9

/-- A CPU at that call.  Its stack starts below address 0, so the call overwrites its own operand. -/
def atLastCall : Cpu := { powerOn with pc := 0xFFFD }

theorem lastIn_firstOut_atLastCall :
    (atLastCall.pushAll lastCall [0x1234, 0x5678]).1.popAll
        (atLastCall.pushAll lastCall [0x1234, 0x5678]).2 2 = ([0x5678, 0x1234], atLastCall) ∧
      ∃ r r', atLastCall.step lastCall = .ok r ∧ r.cpu.pc = 0xC000 ∧ r.bus.read 0xFFFF = 0 ∧
        r.cpu.step r.bus = .ok r' ∧ r'.cpu.pc = 0 := by
  have hsize : lastCall.eram.size = Bus.eramSize := Array.size_replicate
  have hroom : Room atLastCall.sp 2 := by
    refine ⟨.zeroPage, fun i hlow hhigh => ?_⟩
    obtain rfl | rfl | rfl | rfl : i = 1 ∨ i = 2 ∨ i = 3 ∨ i = 4 := by omega
    all_goals decide
  have hone : Room atLastCall.sp 1 := by
    obtain ⟨w, hw⟩ := hroom
    exact ⟨w, fun i hlow hhigh => hw i hlow (by omega)⟩
  have hcall : (Opcode.fetch lastCall atLastCall.pc).decode? = some (.call none) := by
    decide +kernel
  have hlast := lastIn_firstOut hsize atLastCall
  obtain ⟨r, hr, hresumes⟩ := (hlast.2 hone).2 (.call none) hcall rfl
  obtain rfl : atLastCall.carryOut lastCall (.call none) = r :=
    Except.ok.inj ((step_eq_ok hcall).symm.trans hr)
  have hret : (Opcode.fetch (atLastCall.carryOut lastCall (.call none)).bus
      (atLastCall.carryOut lastCall (.call none)).cpu.pc).decode? = some (.ret none) := by
    decide +kernel
  obtain ⟨r', hr', hpc, -⟩ := hresumes.resumed _ _ (.ret none) ⟨rfl, rfl, rfl⟩ hret rfl
  exact ⟨(hlast.1 [0x1234, 0x5678] hroom).1, _, r', hr, by decide +kernel, by decide +kernel, hr',
    hpc⟩

end Cpu

end DotMatrix
