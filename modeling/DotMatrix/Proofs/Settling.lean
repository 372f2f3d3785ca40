import DotMatrix.Proofs.FrameLength

/-!
# Settling after a restore

A save is accepted with any mode on any line that exists, also where time alone never leads.  The
vertical blank may begin early, and then counts all lines up to the last one; the other modes may
begin below the picture, and then run on to line 255 and from there into line 0.  Either way the
picture is complete in the end, and after that nothing is left of the strange beginning.

* `Phase.Possible` — the phases that an accepted save can lead to.
* `Phase.detour` — the lines that are passed without need; `Phase.stepsToPicture` — a bound on the
  steps until the picture is complete.
* `Machine.Settled` — machines whose video units are as time alone would have them.

Principal results: `Phase.Possible.tick` — every step brings the complete picture closer, from every
phase that is possible; `Machine.settles_of_restore` — restored machines complete pictures, and are
settled from the first one on.
-/

set_option autoImplicit false

namespace DotMatrix

/-! ## Phases -/

namespace Phase

variable {p : Phase}

/-- On any line, with the mode not yet over, but in the vertical blank not beyond its last line. -/
structure Possible (p : Phase) : Prop where
  clock : p.clock < p.mode.duration
  line : p.line ≤ 255
  blank : p.mode = .vblank → p.line ≤ 153

theorem Regular.possible (h : p.Regular) : p.Possible := by
  have hline := h.line
  exact ⟨h.clock, by omega, fun _ => hline⟩

theorem possible_of_ne (hclock : p.clock < p.mode.duration) (hline : p.line ≤ 255)
    (hmode : p.mode ≠ .vblank) : p.Possible :=
  ⟨hclock, hline, fun hblank => absurd hblank hmode⟩

/-- A possible phase that is not regular is in the vertical blank too early, or missed it. -/
theorem Possible.regular_or (h : p.Possible) :
    p.Regular ∨ (p.mode = .vblank ∧ p.line < 143) ∨ (p.mode ≠ .vblank ∧ 143 ≤ p.line) := by
  by_cases hmode : p.mode = .vblank
  · by_cases hline : p.line < 143
    · exact .inr (.inl ⟨hmode, hline⟩)
    · exact .inl ⟨⟨h.clock, h.blank hmode, .inl hmode⟩, fun _ => Nat.le_of_not_lt hline⟩
  · by_cases hline : 143 ≤ p.line
    · exact .inr (.inr ⟨hmode, hline⟩)
    · exact .inl ⟨⟨h.clock, by omega, .inr (by omega)⟩, fun hblank => absurd hblank hmode⟩

/-- Lines that are still to be passed because the vertical blank was missed. -/
def detour (p : Phase) : Nat :=
  if p.mode ≠ .vblank ∧ 143 ≤ p.line then 255 - p.line + 143 else 0

/-- A bound on the steps, of four ticks at least, until the picture is complete. -/
def stepsToPicture (p : Phase) : Nat := p.stepsToBlank + 114 * p.detour

theorem Regular.stepsToPicture_eq (h : p.Regular) : p.stepsToPicture = p.stepsToBlank := by
  have hno : ¬ (p.mode ≠ .vblank ∧ 143 ≤ p.line) := by
    rintro ⟨hmode, hline⟩
    have hle := h.blank.resolve_left hmode
    omega
  rw [stepsToPicture, detour, if_neg hno, Nat.mul_zero, Nat.add_zero]

theorem Possible.stepsToPicture_pos (h : p.Possible) : 0 < p.stepsToPicture := by
  have hclock := h.clock
  unfold stepsToPicture stepsToBlank
  omega

/-- The longest way begins with the vertical blank in line 0: 154 lines of it and 143 of the
picture. -/
theorem stepsToPicture_le (p : Phase) : p.stepsToPicture ≤ 297 * 114 := by
  have hd : (p.mode.duration + 3) / 4 + laterSteps p.mode ≤ 114 := by cases p.mode <;> decide
  unfold stepsToPicture stepsToBlank detour
  by_cases hmode : p.mode = .vblank
  · rw [if_pos hmode, if_neg fun hlate => hlate.1 hmode]
    omega
  · rw [if_neg hmode]
    split <;> omega

/-- While a mode lasts, each step is one less to wait for its end. -/
theorem Possible.tick_of_next (h : p.Possible)
    (hnext : p.next.1.Possible ∧ p.next.1.stepsToPicture < p.stepsToPicture) {ticks : Nat}
    (ht : 4 ≤ ticks) :
    (p.tick ticks).1.Possible ∧ (p.tick ticks).1.stepsToPicture < p.stepsToPicture := by
  unfold Phase.tick
  by_cases hover : p.mode.duration ≤ p.clock + ticks
  · rw [if_pos hover]
    exact hnext
  · rw [if_neg hover]
    refine ⟨⟨Nat.lt_of_not_le hover, h.line, h.blank⟩, ?_⟩
    simp only [stepsToPicture, stepsToBlank, detour]
    omega

/-- The vertical blank goes on to its last line, wherever it began. -/
theorem Possible.next_early (h : p.Possible) (hmode : p.mode = .vblank) (hline : p.line < 143) :
    p.next.1.Possible ∧ p.next.1.stepsToPicture < p.stepsToPicture := by
  have hclock := h.clock
  obtain ⟨mode, line, clock⟩ := p
  simp only at hmode hline
  subst hmode
  have hmod : (line + 1) % 256 = line + 1 := by omega
  have hnext : next ⟨.vblank, line, clock⟩ = (⟨.vblank, line + 1, 0⟩, false) := by
    simp only [next, hmod]
    rw [if_neg (by omega)]
  rw [hnext]
  refine ⟨⟨Mode.duration_pos _, by simp only; omega, fun _ => by simp only; omega⟩, ?_⟩
  simp [stepsToPicture, stepsToBlank, detour, Mode.duration] at hclock ⊢
  omega

/-- Below the picture and outside of the vertical blank, the lines go on to the last number and from
there into the picture. -/
theorem Possible.next_late (h : p.Possible) (hmode : p.mode ≠ .vblank) (hline : 143 ≤ p.line) :
    p.next.1.Possible ∧ p.next.1.stepsToPicture < p.stepsToPicture := by
  have hclock := h.clock
  have hle := h.line
  obtain ⟨mode, line, clock⟩ := p
  simp only at hmode hline hle
  cases mode with
  | oamScan =>
    refine ⟨possible_of_ne (Mode.duration_pos _) hle (show Mode.vramScan ≠ _ by decide), ?_⟩
    simp [next, stepsToPicture, stepsToBlank, detour, laterSteps, Mode.duration] at hclock ⊢
    omega
  | vramScan =>
    refine ⟨possible_of_ne (Mode.duration_pos _) hle (show Mode.hblank ≠ _ by decide), ?_⟩
    simp [next, stepsToPicture, stepsToBlank, detour, laterSteps, Mode.duration] at hclock ⊢
    omega
  | hblank =>
    have hnext : next ⟨.hblank, line, clock⟩ = (⟨.oamScan, (line + 1) % 256, 0⟩, false) := by
      simp only [next]
      rw [if_neg (by omega)]
    have hmod : (line + 1) % 256 ≤ 255 := by omega
    rw [hnext]
    refine ⟨possible_of_ne (Mode.duration_pos _) hmod (show Mode.oamScan ≠ _ by decide), ?_⟩
    simp [stepsToPicture, stepsToBlank, detour, laterSteps, Mode.duration] at hclock ⊢
    split <;> omega
  | vblank => exact absurd rfl hmode

/-- **Every step brings the complete picture closer**, from every possible phase. -/
theorem Possible.tick (h : p.Possible) {ticks : Nat} (ht : 4 ≤ ticks) :
    (p.tick ticks).1.Possible ∧
      ((p.tick ticks).2 = true ∨ (p.tick ticks).1.stepsToPicture < p.stepsToPicture) := by
  rcases h.regular_or with hr | ⟨hmode, hline⟩ | ⟨hmode, hline⟩
  · rw [hr.stepsToPicture_eq, (hr.tick ticks).stepsToPicture_eq]
    exact ⟨(hr.tick ticks).possible, hr.stepsToBlank_tick ht⟩
  · obtain ⟨hp, hless⟩ := h.tick_of_next (h.next_early hmode hline) ht
    exact ⟨hp, .inr hless⟩
  · obtain ⟨hp, hless⟩ := h.tick_of_next (h.next_late hmode hline) ht
    exact ⟨hp, .inr hless⟩

end Phase

/-! ## Machines -/

/-- When the picture is complete, the line has been set and compared. -/
theorem Video.compared_of_complete {v : Video} {ticks : UInt32} (h : (v.tick ticks).2 = true) :
    (v.tick ticks).1.regs.Compared := by
  unfold tick nextMode at h ⊢
  simp only at h ⊢
  split at h
  · rw [if_pos ‹_›]
    -- of the four modes only the horizontal blank ends with a complete picture
    cases hmode : v.regs.mode with
    | oamScan =>
      simp only [hmode] at h
      cases h
    | vramScan =>
      simp only [hmode] at h
      cases h
    | hblank =>
      simp only
      split <;> exact (Registers.compared_setLine v.regs _).setMode _
    | vblank =>
      simp only [hmode] at h
      split at h <;> cases h
  · cases h

namespace Machine

variable {m m' : Machine} {steps : List Step}

/-- A machine whose video unit is as time alone would have it. -/
structure Settled (m : Machine) : Prop where
  regular : m.phase.Regular
  compared : m.bus.video.regs.Compared

theorem Settled.still (h : m.Settled) (hstill : m.Still m') : m'.Settled := by
  refine ⟨?_, hstill.compared h.compared⟩
  rw [hstill.phase]
  exact h.regular

theorem Settled.step {s : Step} (h : m.Settled) (hs : m.step = .ok (m', s)) : m'.Settled := by
  obtain ⟨b, htouched, hbus, -⟩ := (stepped_of_step hs).bus
  refine ⟨regular_step h.regular hs, ?_⟩
  rw [hbus]
  exact Video.compared_tick (htouched.video.compared h.compared) _

/-- A step that completes a picture leaves nothing of what was before. -/
theorem Completes.settled (h : m.Completes m') : m'.Settled := by
  refine ⟨h.budget.regular, ?_⟩
  obtain ⟨s, hs, hcomplete⟩ := h
  obtain ⟨b, -, hbus, hframe⟩ := (stepped_of_step hs).bus
  rw [hbus]
  exact Video.compared_of_complete (hframe.symm.trans hcomplete)

/-- **Machines are settled from the first complete picture on.** -/
theorem Ran.settled (h : m.Ran steps m') (hcomplete : ∃ s ∈ steps, s.frameComplete = true) :
    m'.Settled := by
  induction h with
  | start =>
    obtain ⟨s, hs, -⟩ := hcomplete
    cases hs
  | call _ c hc ih => exact (ih hcomplete).still (still_perform _ hc)
  | @step steps m₁ m₂ t _ ht ih =>
    obtain ⟨s, hs, hflag⟩ := hcomplete
    rcases List.mem_append.1 hs with hs | hs
    · exact (ih ⟨s, hs, hflag⟩).step ht
    · rw [List.mem_singleton] at hs
      subst hs
      exact Completes.settled ⟨s, ht, hflag⟩

theorem Ran.possible (h : m.Ran steps m') (hm : m.phase.Possible) : m'.phase.Possible :=
  h.phase_induction (P := fun _ p => p.Possible) hm fun hp hpos _ _ => (hp.tick (by omega)).1

/-- Each step of a run that completes no picture brings it closer. -/
theorem Ran.stepsToPicture_le (h : m.Ran steps m') (hm : m.phase.Possible)
    (hnone : ∀ s ∈ steps, s.frameComplete = false) :
    m'.phase.stepsToPicture + steps.length ≤ m.phase.stepsToPicture := by
  refine (h.phase_induction
    (P := fun steps p => p.Possible ∧ ((∀ s ∈ steps, s.frameComplete = false) →
      p.stepsToPicture + steps.length ≤ m.phase.stepsToPicture))
    ⟨hm, fun _ => Nat.le_refl _⟩ ?_).2 hnone
  intro steps p s ⟨hp, ih⟩ hpos _ hflag
  obtain ⟨hnext, hcloser⟩ := hp.tick (show 4 ≤ 4 * s.cycles by omega)
  refine ⟨hnext, ?_⟩
  intro hnone
  have hle := ih fun t ht => hnone t (List.mem_append_left _ ht)
  have hs : s.frameComplete = false := hnone s (List.mem_append_right _ List.mem_cons_self)
  rw [hflag, hs] at hcloser
  have hless := hcloser.resolve_left (by decide)
  rw [List.length_append, List.length_singleton]
  omega

/-- A run of 297 lines' steps completes a picture. -/
theorem Ran.exists_complete (h : m.Ran steps m') (hm : m.phase.Possible)
    (hlong : 297 * 114 ≤ steps.length) : ∃ s ∈ steps, s.frameComplete = true := by
  by_contra hnever
  have hnone : ∀ s ∈ steps, s.frameComplete = false := by
    intro s hs
    apply Bool.eq_false_iff.2
    intro hcomplete
    exact hnever ⟨s, hs, hcomplete⟩
  have hle := h.stepsToPicture_le hm hnone
  have hpos := (h.possible hm).stepsToPicture_pos
  have hmost := m.phase.stepsToPicture_le
  omega

/-- What was restored is in a possible phase. -/
theorem possible_of_restore {b : List UInt8} (h : m.restore b = .ok m') : m'.phase.Possible := by
  obtain ⟨-, hline, hclock⟩ := intact_of_restore h
  exact ⟨hclock, by omega, fun _ => hline⟩

/-- **Restored machines settle.**  Whatever the input was, of 33858 successive steps one at least
completes a picture; and from the first such step on, the line exists, the mode is that of the
vertical blank exactly below the picture, the clock is short of the duration of the mode and the
coincidence bit is right. -/
theorem settles_of_restore {m m' : Machine} {b : List UInt8} (h : m.restore b = .ok m') :
    (∀ before m₁ steps m₂, m'.Ran before m₁ → m₁.Ran steps m₂ → 33858 ≤ steps.length →
      ∃ s ∈ steps, s.frameComplete = true) ∧
      ∀ steps m₁, m'.Ran steps m₁ → (∃ s ∈ steps, s.frameComplete = true) →
        m₁.phase.line ≤ 153 ∧ (m₁.phase.mode = .vblank ↔ 143 ≤ m₁.phase.line) ∧
          m₁.phase.clock < m₁.phase.mode.duration ∧ m₁.bus.video.regs.Compared := by
  have hpossible := possible_of_restore h
  constructor
  · intro before m₁ steps m₂ hbefore hran hlong
    exact hran.exists_complete (hbefore.possible hpossible) hlong
  · intro steps m₁ hran hcomplete
    obtain ⟨hregular, hcompared⟩ := hran.settled hcomplete
    have hline := hregular.line
    have hblank : m₁.phase.mode = .vblank ↔ 143 ≤ m₁.phase.line :=
      hregular.vblank_iff.trans ⟨And.left, fun hge => ⟨hge, hline⟩⟩
    exact ⟨hline, hblank, hregular.clock, hcompared⟩

/-! ## An early blank -/

/-- An endless loop that begins in the vertical blank of line 0, where time alone never leads. -/
def earlyBlank : Machine :=
  endlessLoop.reset.withVideo
    { Video.powerOn with regs := Video.powerOn.regs.setMode .vblank }

/-- The longest way to a picture. -/
theorem settles_earlyBlank :
    earlyBlank.phase = ⟨.vblank, 0, 0⟩ ∧ earlyBlank.restore earlyBlank.save = .ok earlyBlank ∧
      ∃ steps m, earlyBlank.Ran steps m ∧ steps.length = 33858 ∧
        (∃ s ∈ steps, s.frameComplete = true) ∧
        m.phase.line ≤ 153 ∧ (m.phase.mode = .vblank ↔ 143 ≤ m.phase.line) ∧
        m.phase.clock < m.phase.mode.duration ∧ m.bus.video.regs.Compared := by
  have hphase : earlyBlank.phase = ⟨.vblank, 0, 0⟩ := by decide
  have hintact : earlyBlank.Intact := (intact_reset endlessLoop).withVideo Video.coherent_powerOn
  have hrestore : earlyBlank.restore earlyBlank.save = .ok earlyBlank :=
    hintact.restore_save (by rw [hphase]; decide) (by rw [hphase]; decide) earlyBlank
  obtain ⟨hcompletes, hsettles⟩ := settles_of_restore hrestore
  obtain ⟨steps, hran, hlength⟩ := ran_run 33858 ((looping_endlessLoop.withVideo _).run _)
  have hcomplete := hcompletes [] earlyBlank steps _ .start hran (by omega)
  exact ⟨hphase, hrestore, steps, _, hran, hlength, hcomplete, hsettles steps _ hran hcomplete⟩

end Machine

end DotMatrix
