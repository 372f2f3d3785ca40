import DotMatrix.Proofs.Reachable

/-!
# The timing of the picture

A reachable video unit draws lines 0 to 142 one after the other, spends lines 143 to 153 in the
vertical blank and starts again.

* `Phase.Regular` — a phase that lasts and is in the vertical blank only below the picture.
* `Phase.Edge` — the steps from a mode or line to the next.
* `Registers.Compared` — the coincidence bit says whether the current line is the comparison line.
* `Video.InStep` — what holds of the video unit at every moment.

Principal results: `Phase.Regular.edge_next` — a mode that is over is left by an edge;
`Machine.timing_reachable` — reachable machines are in step, and passing time takes one edge at most.
-/

set_option autoImplicit false

namespace DotMatrix

/-! ## Phases -/

theorem Mode.duration_pos (m : Mode) : 0 < m.duration := by cases m <;> decide

namespace Phase

/-- A phase that lasts, and not in the vertical blank before it has begun. -/
structure Regular (p : Phase) : Prop extends Sustained p where
  below : p.mode = .vblank → 143 ≤ p.line

/-- From a mode or line to the next; the clock begins again. -/
inductive Edge : Phase → Phase → Prop
  | scanned (line clock : Nat) : Edge ⟨.oamScan, line, clock⟩ ⟨.vramScan, line, 0⟩
  | drawn (line clock : Nat) : Edge ⟨.vramScan, line, clock⟩ ⟨.hblank, line, 0⟩
  | nextLine (line clock : Nat) (h : line < 142) :
    Edge ⟨.hblank, line, clock⟩ ⟨.oamScan, line + 1, 0⟩
  | blanked (clock : Nat) : Edge ⟨.hblank, 142, clock⟩ ⟨.vblank, 143, 0⟩
  | nextBlankLine (line clock : Nat) (h : line < 153) :
    Edge ⟨.vblank, line, clock⟩ ⟨.vblank, line + 1, 0⟩
  | restarted (clock : Nat) : Edge ⟨.vblank, 153, clock⟩ ⟨.oamScan, 0, 0⟩

theorem Edge.regular {p q : Phase} (h : Edge p q) (hp : p.Regular) : q.Regular := by
  obtain ⟨⟨-, hline, hblank⟩, hbelow⟩ := hp
  cases h with
  | scanned line clock =>
    exact ⟨⟨Mode.duration_pos _, hline, .inr (hblank.resolve_left nofun)⟩, nofun⟩
  | drawn line clock =>
    exact ⟨⟨Mode.duration_pos _, hline, .inr (hblank.resolve_left nofun)⟩, nofun⟩
  | nextLine line clock h =>
    exact ⟨⟨Mode.duration_pos _, by simp only; omega, .inr (by simp only; omega)⟩, nofun⟩
  | blanked clock => exact ⟨⟨by decide, by decide, .inl rfl⟩, fun _ => by decide⟩
  | nextBlankLine line clock h =>
    have hge : 143 ≤ line := hbelow rfl
    exact ⟨⟨Mode.duration_pos _, by simp only; omega, .inl rfl⟩, fun _ => by simp only; omega⟩
  | restarted clock => exact ⟨⟨by decide, by decide, .inr (by decide)⟩, nofun⟩

/-- **A mode that is over is left by an edge**, and the picture is complete on the edge into the
vertical blank and on no other. -/
theorem Regular.edge_next {p : Phase} (h : p.Regular) :
    Edge p p.next.1 ∧ (p.next.2 = true ↔ p.mode = .hblank ∧ p.line = 142) := by
  obtain ⟨mode, line, clock⟩ := p
  obtain ⟨⟨-, hline, hblank⟩, -⟩ := h
  simp only at hline hblank
  cases mode with
  | oamScan => exact ⟨.scanned line clock, by simp [Phase.next]⟩
  | vramScan => exact ⟨.drawn line clock, by simp [Phase.next]⟩
  | hblank =>
    have hle : line ≤ 142 := hblank.resolve_left (by decide)
    have hmod : (line + 1) % 256 = line + 1 := by omega
    simp only [Phase.next, hmod]
    by_cases hlast : line = 142
    · subst hlast
      exact ⟨.blanked clock, by simp⟩
    · rw [if_neg (by omega)]
      exact ⟨.nextLine line clock (by omega), by simp [hlast]⟩
  | vblank =>
    have hmod : (line + 1) % 256 = line + 1 := by omega
    simp only [Phase.next, hmod]
    by_cases hlast : line = 153
    · subst hlast
      exact ⟨.restarted clock, by simp⟩
    · rw [if_neg (by omega)]
      exact ⟨.nextBlankLine line clock (by omega), by simp⟩

theorem Regular.tick {p : Phase} (h : p.Regular) (ticks : Nat) : (p.tick ticks).1.Regular := by
  have hclock := clock_tick p ticks
  unfold Phase.tick at hclock ⊢
  split
  · exact h.edge_next.1.regular h
  · rw [if_neg ‹_›] at hclock
    exact ⟨⟨hclock, h.line, h.blank⟩, h.below⟩

/-- However many ticks pass, one edge is taken, or none while the mode lasts. -/
theorem Regular.edge_tick {p : Phase} (h : p.Regular) (ticks : Nat) :
    (if p.clock + ticks < p.mode.duration then
        (p.tick ticks).1 = { p with clock := p.clock + ticks }
      else p.Edge (p.tick ticks).1) ∧
      ((p.tick ticks).2 = true ↔
        p.mode = .hblank ∧ p.line = 142 ∧
          (p.tick ticks).1.mode = .vblank ∧ (p.tick ticks).1.line = 143) := by
  obtain ⟨hedge, hcomplete⟩ := h.edge_next
  unfold Phase.tick
  by_cases hlasts : p.clock + ticks < p.mode.duration
  · rw [if_pos hlasts, if_neg (Nat.not_le_of_lt hlasts)]
    refine ⟨rfl, ?_⟩
    simp only [Bool.false_eq_true, false_iff]
    rintro ⟨hmode, -, hnext, -⟩
    rw [hmode] at hnext
    cases hnext
  · rw [if_neg hlasts, if_pos (Nat.le_of_not_lt hlasts)]
    refine ⟨hedge, hcomplete.trans ⟨?_, fun hb => ⟨hb.1, hb.2.1⟩⟩⟩
    rintro ⟨hmode, hline⟩
    refine ⟨hmode, hline, ?_⟩
    simp only [Phase.next, hmode, hline]
    exact ⟨rfl, rfl⟩

theorem Regular.vblank_iff {p : Phase} (h : p.Regular) :
    p.mode = .vblank ↔ 143 ≤ p.line ∧ p.line ≤ 153 := by
  constructor
  · intro hm
    exact ⟨h.below hm, h.line⟩
  · rintro ⟨hge, -⟩
    exact h.blank.resolve_right (by omega)

end Phase

/-! ## The coincidence bit -/

namespace Registers

/-- The coincidence bit says whether the current line is the comparison line. -/
def Compared (r : Registers) : Prop := r.coincidence = decide (r.ly = r.lyc)

theorem compared_compareLine (r : Registers) : r.compareLine.Compared :=
  coincidence_compareLine r

theorem Compared.setMode {r : Registers} (h : r.Compared) (m : Mode) : (r.setMode m).Compared :=
  (coincidence_setMode r m).trans h

theorem compared_setLine (r : Registers) (line : UInt8) : (r.setLine line).Compared :=
  compared_compareLine { r with ly := line }

theorem coincidence_write_stat (r : Registers) (b : UInt8) :
    (r.write .stat b).coincidence = r.coincidence := by
  have hx : ∀ x : BitVec 8, (UInt8.ofBitVec x &&& 0x78).toNat.testBit 2 = false := by decide
  have hy : ∀ y : BitVec 8, (UInt8.ofBitVec y &&& 0x07).toNat.testBit 2 =
      (UInt8.ofBitVec y).toNat.testBit 2 := by decide
  show ((b &&& 0x78) ||| (r.stat &&& 0x07)).toNat.testBit 2 = r.stat.toNat.testBit 2
  have hb : (b &&& 0x78).toNat.testBit 2 = false := hx b.toBitVec
  have hstat : (r.stat &&& 0x07).toNat.testBit 2 = r.stat.toNat.testBit 2 := hy r.stat.toBitVec
  rw [UInt8.toNat_or, Nat.testBit_or, hb, hstat, Bool.false_or]

/-- A program reads the right coincidence bit, whatever it writes. -/
theorem Compared.write {r : Registers} (h : r.Compared) (p : VideoRegister) (b : UInt8) :
    (r.write p b).Compared := by
  cases p
  case stat => exact (coincidence_write_stat r b).trans h
  case lyc => exact compared_compareLine { r with lyc := b }
  all_goals exact h

end Registers

/-! ## Video units -/

namespace Video

/-- What holds of the video unit at every moment. -/
structure InStep (v : Video) : Prop where
  clock : v.clock.toNat < v.regs.mode.duration
  blank : v.regs.mode = .vblank ↔ 143 ≤ v.regs.ly.toNat ∧ v.regs.ly.toNat ≤ 153
  picture : v.regs.mode ≠ .vblank → v.regs.ly.toNat ≤ 142
  coincidence : v.regs.coincidence = decide (v.regs.ly = v.regs.lyc)

theorem Poked.compared {v w : Video} (h : v.Poked w) (hv : v.regs.Compared) : w.regs.Compared := by
  induction h with
  | refl => exact hv
  | memory _ i b ih =>
    rw [writeMemory_regs]
    exact ih
  | sprites _ i b ih => exact ih
  | register _ p b ih => exact ih.write p b

theorem compared_tick {v : Video} (h : v.regs.Compared) (ticks : UInt32) :
    (v.tick ticks).1.regs.Compared := by
  unfold tick nextMode
  simp only
  split
  · split
    · exact h.setMode _
    · obtain ⟨_, _, hd⟩ := drawLine_eq { v with regs := v.regs.setMode .hblank, clock := 0 }
      rw [hd]
      exact h.setMode _
    · split <;> exact (Registers.compared_setLine v.regs _).setMode _
    · split
      · exact (Registers.compared_setLine v.regs _).setMode _
      · exact Registers.compared_setLine v.regs _
  · exact h

theorem Reachable.regular {v : Video} (h : v.Reachable) : v.phase.Regular :=
  h.phase_induction ⟨⟨by decide, by decide, .inr (by decide)⟩, nofun⟩ fun ticks hp => hp.tick ticks

theorem Reachable.compared {v : Video} (h : v.Reachable) : v.regs.Compared := by
  induction h with
  | powerOn => exact Registers.compared_compareLine _
  | poke _ hw ih => exact hw.compared ih
  | tick _ ticks ih => exact compared_tick ih ticks
  | decodeTiles _ ih =>
    rw [decodeTiles_regs]
    exact ih

theorem Reachable.inStep {v : Video} (h : v.Reachable) : v.InStep := by
  have hr := h.regular
  exact ⟨hr.clock, hr.vblank_iff, hr.blank.resolve_left, h.compared⟩

end Video

/-! ## Machines -/

namespace Machine

/-- **The timing of reachable machines.**  Their video units are in step.  However many ticks pass, the
mode and the line stay while the mode lasts and otherwise take one edge; the picture is reported
complete on the edge from line 142 into the vertical blank and at no other moment. -/
theorem timing_reachable {m : Machine} (h : Reachable m) :
    m.bus.video.InStep ∧ ∀ ticks : UInt32,
      (if m.phase.clock + ticks.toNat < m.phase.mode.duration then
          (m.bus.video.tick ticks).1.phase = { m.phase with clock := m.phase.clock + ticks.toNat }
        else m.phase.Edge (m.bus.video.tick ticks).1.phase) ∧
        ((m.bus.video.tick ticks).2 = true ↔
          m.phase.mode = .hblank ∧ m.phase.line = 142 ∧
            (m.bus.video.tick ticks).1.phase.mode = .vblank ∧
            (m.bus.video.tick ticks).1.phase.line = 143) := by
  refine ⟨h.video.inStep, ?_⟩
  intro ticks
  obtain ⟨hphase, hflag⟩ := Prod.ext_iff.1 (m.bus.video.phase_tick ticks)
  simp only at hphase hflag
  rw [hphase, hflag]
  exact h.video.regular.edge_tick ticks.toNat

/-- The largest number of ticks ends the first scan of the sprite table and nothing after it. -/
theorem timing_largest_tick :
    Reachable ((create {}).perform (.write 0xFF41 0xFF)) ∧
      (((create {}).perform (.write 0xFF41 0xFF)).bus.video.tick 0xFFFFFFFF).1.phase =
        ⟨.vramScan, 0, 0⟩ ∧
      (((create {}).perform (.write 0xFF41 0xFF)).bus.video.tick 0xFFFFFFFF).2 = false := by
  have hreach : Reachable ((create {}).perform (.write 0xFF41 0xFF)) :=
    .call (.create {}) (.write 0xFF41 0xFF)
  have hphase : ((create {}).perform (.write 0xFF41 0xFF)).phase = ⟨.oamScan, 0, 0⟩ :=
    (phase_touched (Bus.touched_write _ _ _)).trans (phase_reset _)
  obtain ⟨hedge, hflag⟩ := (timing_reachable hreach).2 0xFFFFFFFF
  rw [hphase, if_neg (by decide)] at hedge
  rw [hphase] at hflag
  refine ⟨hreach, ?_, ?_⟩
  · cases hedge with
    | scanned => rfl
  · rw [← Bool.not_eq_true, hflag]
    rintro ⟨hmode, -⟩
    cases hmode

end Machine

end DotMatrix
