import DotMatrix.Proofs.Footprint

/-!
# The phases of a picture

Mode, line and clock of the video unit form an automaton of their own: nothing else of the video
unit has a part in it.

* `Phase` — mode, line and clock; `Phase.tick` is the automaton, with a clock that does not wrap.
* `Video.phase` — the phase of a video unit.
* `Phase.Sustained` — a phase from which only lines of the picture and the blank are entered.
* `Phase.Stray` — below the picture, but not in the vertical blank; `Phase.stepsLeft` bounds the
  steps until such a phase has left the lines that exist.

Principal results: `Video.phase_tick` — the video unit carries out the automaton;
`Phase.Sustained.tick` — sustained phases stay sustained; `Phase.Stray.tick` — stray ones run out of
lines.
-/

set_option autoImplicit false

namespace DotMatrix

/-- Where the video unit is in the picture. -/
structure Phase where
  mode : Mode
  line : Nat
  /-- Clock ticks since the mode, or the line of the vertical blank, began. -/
  clock : Nat
  deriving DecidableEq, Repr

namespace Phase

/-- What follows a mode that is over.  The flag says that the picture is complete. -/
def next (p : Phase) : Phase × Bool :=
  let line := (p.line + 1) % 256
  match p.mode with
  | .oamScan => (⟨.vramScan, p.line, 0⟩, false)
  | .vramScan => (⟨.hblank, p.line, 0⟩, false)
  | .hblank => if line = 143 then (⟨.vblank, line, 0⟩, true) else (⟨.oamScan, line, 0⟩, false)
  | .vblank => if 153 < line then (⟨.oamScan, 0, 0⟩, false) else (⟨.vblank, line, 0⟩, false)

/-- Lets clock ticks pass. -/
def tick (p : Phase) (ticks : Nat) : Phase × Bool :=
  if p.mode.duration ≤ p.clock + ticks then p.next
  else ({ p with clock := p.clock + ticks }, false)

end Phase

/-! ## The automaton in the video unit -/

namespace Registers

theorem ly_setMode (r : Registers) (m : Mode) : (r.setMode m).ly = r.ly := rfl

theorem ly_setLine (r : Registers) (line : UInt8) : (r.setLine line).ly = line := rfl

theorem mode_setLine (r : Registers) (line : UInt8) : (r.setLine line).mode = r.mode :=
  mode_compareLine { r with ly := line }

end Registers

namespace Video

/-- The phase of a video unit. -/
def phase (v : Video) : Phase := ⟨v.regs.mode, v.regs.ly.toNat, v.clock.toNat⟩

/-- Drawing a line changes the picture and the window line, and nothing else. -/
theorem drawLine_eq (v : Video) :
    ∃ frame windowLine, v.drawLine = { v with frame := frame, windowLine := windowLine } := by
  unfold drawLine
  split
  · exact ⟨_, _, rfl⟩
  · exact ⟨v.frame, v.windowLine, rfl⟩

theorem phase_drawLine (v : Video) : v.drawLine.phase = v.phase := by
  obtain ⟨_, _, h⟩ := v.drawLine_eq
  rw [h]
  rfl

theorem phase_nextMode (v : Video) (hc : v.clock = 0) :
    ((nextMode v).1.phase, (nextMode v).2) = v.phase.next := by
  have hclock : v.clock.toNat = 0 := by rw [hc]; rfl
  have hline : (v.regs.ly + 1).toNat = (v.regs.ly.toNat + 1) % 256 := UInt8.toNat_add _ _
  have hblank : v.regs.ly + 1 = blankLine ↔ (v.regs.ly.toNat + 1) % 256 = 143 := by
    rw [← hline, ← UInt8.toNat_inj]; rfl
  have hlast : lastLine < v.regs.ly + 1 ↔ 153 < (v.regs.ly.toNat + 1) % 256 := by
    rw [← hline, UInt8.lt_iff_toNat_lt]; rfl
  cases hm : v.regs.mode with
  | oamScan =>
    simp only [nextMode, Phase.next, phase, hm, hclock, Registers.mode_setMode, Registers.ly_setMode]
  | vramScan =>
    simp only [nextMode, hm, phase_drawLine]
    simp only [Phase.next, phase, hm, hclock, Registers.mode_setMode, Registers.ly_setMode]
  | hblank =>
    simp only [nextMode, Phase.next, phase, hm, hblank]
    split <;>
      simp only [hclock, hline, Registers.mode_setMode, Registers.ly_setMode, Registers.ly_setLine]
  | vblank =>
    simp only [nextMode, Phase.next, phase, hm, hlast]
    split
    · simp only [hclock, Registers.mode_setMode, Registers.ly_setMode, Registers.ly_setLine]
      rfl
    · simp only [hclock, hline, hm, Registers.mode_setLine, Registers.ly_setLine]

theorem toNat_advanceClock (clock ticks : UInt32) :
    (advanceClock clock ticks).toNat = min (clock.toNat + ticks.toNat) 0xFFFFFFFF := by
  simp only [advanceClock, UInt32.toNat_ofNat']
  omega

/-- **The video unit carries out the automaton.** -/
theorem phase_tick (v : Video) (ticks : UInt32) :
    ((v.tick ticks).1.phase, (v.tick ticks).2) = v.phase.tick ticks.toNat := by
  have hd : v.regs.mode.duration ≤ 456 := by cases v.regs.mode <;> decide
  have hc := toNat_advanceClock v.clock ticks
  unfold tick Phase.tick
  by_cases hover : v.regs.mode.duration ≤ v.clock.toNat + ticks.toNat
  · have hover' : v.regs.mode.duration ≤ (advanceClock v.clock ticks).toNat := by omega
    rw [if_pos (show v.phase.mode.duration ≤ v.phase.clock + ticks.toNat from hover)]
    simp only [if_pos hover']
    exact phase_nextMode { v with clock := 0 } rfl
  · -- the clock has not reached the duration, so it has not been held at its largest value
    have hclock : (advanceClock v.clock ticks).toNat = v.clock.toNat + ticks.toNat := by omega
    have hover' : ¬ v.regs.mode.duration ≤ (advanceClock v.clock ticks).toNat := by omega
    rw [if_neg (show ¬ v.phase.mode.duration ≤ v.phase.clock + ticks.toNat from hover)]
    rw [if_neg hover']
    simp only [phase, hclock]

/-- Time leaves video memory and the decoded tiles alone. -/
theorem tiles_tick (v : Video) (ticks : UInt32) :
    (v.tick ticks).1.vram = v.vram ∧ (v.tick ticks).1.tiles = v.tiles := by
  unfold tick nextMode
  simp only
  split
  · split
    · exact ⟨rfl, rfl⟩
    · obtain ⟨_, _, h⟩ := drawLine_eq { v with regs := v.regs.setMode .hblank, clock := 0 }
      rw [h]
      exact ⟨rfl, rfl⟩
    · split <;> exact ⟨rfl, rfl⟩
    · split <;> exact ⟨rfl, rfl⟩
  · exact ⟨rfl, rfl⟩

theorem Coherent.tick {v : Video} (h : v.Coherent) (ticks : UInt32) :
    (v.tick ticks).1.Coherent := by
  obtain ⟨hvram, htiles⟩ := v.tiles_tick ticks
  rw [Coherent, htiles, hvram]
  exact h

theorem Poked.frame_eq {v w : Video} (h : v.Poked w) : w.frame = v.frame := by
  have hh := h.hidden_eq
  simp only [hidden, Prod.mk.injEq] at hh
  exact hh.2.2.2.2

theorem Poked.phase_eq {v w : Video} (h : v.Poked w) : w.phase = v.phase := by
  have hh := h.hidden_eq
  simp only [hidden, Prod.mk.injEq] at hh
  simp only [phase, hh]

end Video

/-! ## Phases that last -/

namespace Phase

theorem clock_next (p : Phase) : p.next.1.clock = 0 := by
  unfold next
  cases p.mode with
  | oamScan => rfl
  | vramScan => rfl
  | hblank => simp only; split <;> rfl
  | vblank => simp only; split <;> rfl

/-- However many ticks pass, the clock does not reach the duration of the mode. -/
theorem clock_tick (p : Phase) (ticks : Nat) :
    (p.tick ticks).1.clock < (p.tick ticks).1.mode.duration := by
  unfold tick
  split
  · have hd : 0 < p.next.1.mode.duration := by cases p.next.1.mode <;> decide
    rw [clock_next]
    exact hd
  · rename_i h
    exact Nat.lt_of_not_le h

/-- On a line that exists, with the mode not yet over, and in the vertical blank if below the
picture. -/
structure Sustained (p : Phase) : Prop where
  clock : p.clock < p.mode.duration
  line : p.line ≤ 153
  blank : p.mode = .vblank ∨ p.line ≤ 142

theorem Sustained.next {p : Phase} (h : p.Sustained) :
    p.next.1.line ≤ 153 ∧ (p.next.1.mode = .vblank ∨ p.next.1.line ≤ 142) := by
  obtain ⟨mode, line, clock⟩ := p
  obtain ⟨-, hline, hblank⟩ := h
  simp only at hline hblank
  cases mode with
  | oamScan =>
    have hle : line ≤ 142 := by simpa using hblank
    exact ⟨hline, .inr hle⟩
  | vramScan =>
    have hle : line ≤ 142 := by simpa using hblank
    exact ⟨hline, .inr hle⟩
  | hblank =>
    have hle : line ≤ 142 := by simpa using hblank
    simp only [Phase.next]
    split
    · exact ⟨by simp only; omega, .inl rfl⟩
    · exact ⟨by simp only; omega, .inr (by simp only; omega)⟩
  | vblank =>
    simp only [Phase.next]
    split
    · exact ⟨by simp only; omega, .inr (by simp only; omega)⟩
    · exact ⟨by simp only; omega, .inl rfl⟩

/-- **Sustained phases stay sustained.** -/
theorem Sustained.tick {p : Phase} (h : p.Sustained) (ticks : Nat) :
    (p.tick ticks).1.Sustained := by
  have hclock := clock_tick p ticks
  unfold Phase.tick at hclock ⊢
  split
  · rw [if_pos ‹_›] at hclock
    exact ⟨hclock, h.next.1, h.next.2⟩
  · rw [if_neg ‹_›] at hclock
    exact ⟨hclock, h.line, h.blank⟩

/-- On a line below the picture, but not in the vertical blank. -/
structure Stray (p : Phase) : Prop where
  clock : p.clock < p.mode.duration
  line : p.line ≤ 153
  below : 143 ≤ p.line
  mode : p.mode ≠ .vblank

/-- A bound on the steps, of four ticks at least, that the modes after this one take on the same
line. -/
def laterSteps : Mode → Nat
  | .oamScan => 94
  | .vramScan => 51
  | _ => 0

/-- A bound on the steps, of four ticks at least, from a stray phase to line 154. -/
def stepsLeft (p : Phase) : Nat :=
  (p.mode.duration - p.clock + 3) / 4 + laterSteps p.mode + 114 * (153 - p.line)

theorem Stray.stepsLeft_le {p : Phase} (h : p.Stray) : p.stepsLeft ≤ 1254 := by
  have hbelow := h.below
  have hd : (p.mode.duration + 3) / 4 + laterSteps p.mode ≤ 114 := by cases p.mode <;> decide
  unfold stepsLeft
  omega

/-- **A stray phase comes closer to line 154 with every step, or reaches it.** -/
theorem Stray.tick {p : Phase} (h : p.Stray) {ticks : Nat} (ht : 4 ≤ ticks) :
    ((p.tick ticks).1.Stray ∧ (p.tick ticks).1.stepsLeft < p.stepsLeft) ∨
      (p.tick ticks).1.line = 154 := by
  have hclock := clock_tick p ticks
  obtain ⟨mode, line, clock⟩ := p
  obtain ⟨hc, hle, hge, hmode⟩ := h
  simp only at hc hle hge hmode
  unfold Phase.tick at hclock ⊢
  split
  · rw [if_pos ‹_›] at hclock
    -- the clock had not reached the duration, so at least one step was left in the mode that is over
    cases mode with
    | oamScan =>
      refine .inl ⟨⟨hclock, hle, hge, nofun⟩, ?_⟩
      simp only [stepsLeft, next, laterSteps, Mode.duration] at hc ⊢
      omega
    | vramScan =>
      refine .inl ⟨⟨hclock, hle, hge, nofun⟩, ?_⟩
      simp only [stepsLeft, next, laterSteps, Mode.duration] at hc ⊢
      omega
    | hblank =>
      have hnext : next ⟨.hblank, line, clock⟩ = (⟨.oamScan, line + 1, 0⟩, false) := by
        simp only [next]
        rw [if_neg (by omega), Nat.mod_eq_of_lt (by omega)]
      rw [hnext] at hclock ⊢
      by_cases hlast : line = 153
      · exact .inr (by simp only; omega)
      · refine .inl ⟨⟨hclock, by simp only; omega, by simp only; omega, nofun⟩, ?_⟩
        simp only [stepsLeft, laterSteps, Mode.duration] at hc ⊢
        omega
    | vblank => exact absurd rfl hmode
  · rw [if_neg ‹_›] at hclock
    refine .inl ⟨⟨hclock, hle, hge, hmode⟩, ?_⟩
    simp only [stepsLeft] at hclock ⊢
    omega

end Phase

end DotMatrix
