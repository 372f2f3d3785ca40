import DotMatrix.Proofs.MemoryMap
import DotMatrix.Proofs.Settling

/-!
# The coincidence bit after a restore

The coincidence bit of STAT repeats what line and comparison line say, but it is stored beside them, and a
restore takes all three from its input without comparing them.  A wrong bit stays until the video unit goes
on to another line or a program writes the comparison line.

* `Registers.ComparedSince` — the lines were compared, or the coincidence bit and the two lines are as
  before.
* `Phase.EndsLine`, `Phase.stepsOnLine` — whether a line ends while ticks pass, and a bound on the steps
  until it ends.
* `Bus.ShowsCoincidence` — programs read a coincidence bit that agrees with the lines they read;
  `Bus.ReadsSameComparison` — they read the same bit and the same lines.

Principal results: `Machine.Ran.comparison` — along a run the bit is right, or bit and lines are those of
the start and the line has not ended; `Machine.coincidence_of_restore` — what this means for programs on a
restored machine; `Machine.stale_after_restore` — a wrong bit is accepted.
-/

set_option autoImplicit false

namespace DotMatrix

/-! ## Registers -/

namespace Registers

variable {r r' r'' : Registers}

/-- The coincidence bit and the two lines that it compares are the same. -/
structure SameComparison (r r' : Registers) : Prop where
  coincidence : r'.coincidence = r.coincidence
  ly : r'.ly = r.ly
  lyc : r'.lyc = r.lyc

theorem SameComparison.refl (r : Registers) : r.SameComparison r := ⟨rfl, rfl, rfl⟩

theorem SameComparison.trans (h : r.SameComparison r') (h' : r'.SameComparison r'') :
    r.SameComparison r'' :=
  ⟨h'.coincidence.trans h.coincidence, h'.ly.trans h.ly, h'.lyc.trans h.lyc⟩

theorem SameComparison.compared (h : r.SameComparison r') (hr : r.Compared) : r'.Compared := by
  rw [Compared, h.coincidence, h.ly, h.lyc]
  exact hr

theorem sameComparison_setMode (r : Registers) (m : Mode) : r.SameComparison (r.setMode m) :=
  ⟨coincidence_setMode r m, rfl, rfl⟩

/-- The bit of the later registers is right, or nothing was compared since the earlier ones. -/
def ComparedSince (r r' : Registers) : Prop := r'.Compared ∨ r.SameComparison r'

theorem ComparedSince.refl (r : Registers) : r.ComparedSince r := .inr (.refl r)

theorem ComparedSince.trans (h : r.ComparedSince r') (h' : r'.ComparedSince r'') :
    r.ComparedSince r'' := by
  rcases h' with hright | hsame
  · exact .inl hright
  · exact h.imp hsame.compared fun h => h.trans hsame

theorem comparedSince_write (r : Registers) (p : VideoRegister) (b : UInt8) :
    r.ComparedSince (r.write p b) := by
  cases p with
  | lyc => exact .inl (compared_compareLine { r with lyc := b })
  | stat => exact .inr ⟨coincidence_write_stat r b, rfl, rfl⟩
  | _ => exact .inr ⟨rfl, rfl, rfl⟩

end Registers

/-! ## The end of a line -/

namespace Phase

variable {p : Phase} {ticks : Nat}

/-- The line ends while ticks pass. -/
def EndsLine (p : Phase) (ticks : Nat) : Prop :=
  (p.mode = .hblank ∨ p.mode = .vblank) ∧ p.mode.duration ≤ p.clock + ticks

/-- A bound on the steps, of four ticks at least, until the line ends. -/
def stepsOnLine (p : Phase) : Nat := (p.mode.duration - p.clock + 3) / 4 + laterSteps p.mode

theorem stepsOnLine_le (p : Phase) : p.stepsOnLine ≤ 114 := by
  have hmode : (p.mode.duration + 3) / 4 + laterSteps p.mode ≤ 114 := by cases p.mode <;> decide
  unfold stepsOnLine
  omega

theorem stepsOnLine_pos (h : p.clock < p.mode.duration) : 0 < p.stepsOnLine := by
  unfold stepsOnLine
  omega

/-- **Every step brings the end of the line closer.** -/
theorem stepsOnLine_tick (hclock : p.clock < p.mode.duration) (ht : 4 ≤ ticks)
    (h : ¬ p.EndsLine ticks) : (p.tick ticks).1.stepsOnLine < p.stepsOnLine := by
  unfold tick
  by_cases hover : p.mode.duration ≤ p.clock + ticks
  · rw [if_pos hover]
    obtain ⟨mode, line, clock⟩ := p
    -- a mode that is over had a step left, and the next one is on the same line
    cases mode with
    | oamScan =>
      simp only [next, stepsOnLine, laterSteps, Mode.duration] at hclock ⊢
      omega
    | vramScan =>
      simp only [next, stepsOnLine, laterSteps, Mode.duration] at hclock ⊢
      omega
    | hblank => exact absurd ⟨.inl rfl, hover⟩ h
    | vblank => exact absurd ⟨.inr rfl, hover⟩ h
  · rw [if_neg hover]
    simp only [stepsOnLine]
    omega

end Phase

/-! ## Video units -/

namespace Video

variable {v w : Video} {ticks : UInt32}

theorem over_iff (v : Video) (ticks : UInt32) :
    v.regs.mode.duration ≤ (advanceClock v.clock ticks).toNat ↔
      v.phase.mode.duration ≤ v.phase.clock + ticks.toNat := by
  have hd : v.regs.mode.duration ≤ 456 := by cases v.regs.mode <;> decide
  have hc := toNat_advanceClock v.clock ticks
  simp only [phase]
  omega

/-- At the end of a line the next one is compared. -/
theorem compared_of_endsLine (h : v.phase.EndsLine ticks.toNat) :
    (v.tick ticks).1.regs.Compared := by
  obtain ⟨hmode, hover⟩ := h
  have hmode' : v.regs.mode = .hblank ∨ v.regs.mode = .vblank := hmode
  unfold tick nextMode
  simp only
  rw [if_pos ((over_iff v ticks).2 hover)]
  rcases hmode' with hmode | hmode
  · rw [hmode]
    simp only
    split <;> exact (Registers.compared_setLine v.regs _).setMode _
  · rw [hmode]
    simp only
    split
    · exact (Registers.compared_setLine v.regs _).setMode _
    · exact Registers.compared_setLine v.regs _

/-- Within a line nothing is compared. -/
theorem sameComparison_tick (h : ¬ v.phase.EndsLine ticks.toNat) :
    v.regs.SameComparison (v.tick ticks).1.regs := by
  unfold tick
  simp only
  split
  · rename_i hover
    have hlasts : ∀ m, v.regs.mode = m → (m = .hblank ∨ m = .vblank) → False := by
      rintro _ rfl hmode
      exact h ⟨hmode, (over_iff v ticks).1 hover⟩
    unfold nextMode
    cases hmode : v.regs.mode with
    | oamScan => exact Registers.sameComparison_setMode v.regs _
    | vramScan =>
      obtain ⟨_, _, hd⟩ := drawLine_eq { v with regs := v.regs.setMode .hblank, clock := 0 }
      simp only
      rw [hd]
      exact Registers.sameComparison_setMode v.regs _
    | hblank => exact (hlasts _ hmode (.inl rfl)).elim
    | vblank => exact (hlasts _ hmode (.inr rfl)).elim
  · exact .refl v.regs

/-- Writes set the bit right or leave bit and lines alone. -/
theorem Poked.comparedSince (h : v.Poked w) : v.regs.ComparedSince w.regs := by
  induction h with
  | refl => exact .refl _
  | memory _ i b ih =>
    rw [writeMemory_regs]
    exact ih
  | sprites _ i b ih => exact ih
  | register _ p b ih => exact ih.trans (Registers.comparedSince_write _ p b)

end Video

/-! ## Runs -/

namespace Machine

variable {start m m' : Machine} {steps : List Step}

/-- The registers of the video units say so. -/
def ComparedSince (m m' : Machine) : Prop := m.bus.video.regs.ComparedSince m'.bus.video.regs

theorem comparedSince_perform (m : Machine) {c : HostCall} (hc : c.Timeless) :
    m.ComparedSince (m.perform c) := by
  rcases m.poked_perform hc with hpoked | hdecode
  · exact hpoked.comparedSince
  · rw [ComparedSince, hdecode, Video.decodeTiles_regs]
    exact .refl _

/-- A step sets the bit right, or leaves bit and lines alone and brings the end of the line closer. -/
theorem comparison_step {s : Step} (hclock : m.phase.clock < m.phase.mode.duration)
    (hs : m.step = .ok (m', s)) :
    m'.bus.video.regs.Compared ∨
      m.bus.video.regs.SameComparison m'.bus.video.regs ∧
        m'.phase.stepsOnLine < m.phase.stepsOnLine := by
  obtain ⟨v, ticks, hpoked, hticks, -, hvideo⟩ := video_of_step hs
  have hphase : v.phase = m.phase := hpoked.phase_eq
  have hnext : m'.phase = (m.phase.tick (4 * s.cycles)).1 := (phase_eq_of_step hs).1
  have hpos := (stepped_of_step hs).cycles_pos
  rw [hvideo, hnext]
  by_cases hends : v.phase.EndsLine ticks.toNat
  · exact .inl (Video.compared_of_endsLine hends)
  · have hsame := Video.sameComparison_tick hends
    rw [hphase, hticks] at hends
    rcases hpoked.comparedSince with hright | hpoke
    · exact .inl (hsame.compared hright)
    · exact .inr ⟨hpoke.trans hsame, Phase.stepsOnLine_tick hclock (by omega) hends⟩

theorem Ran.clock_lt (h : start.Ran steps m)
    (hclock : start.phase.clock < start.phase.mode.duration) :
    m.phase.clock < m.phase.mode.duration :=
  h.phase_induction (P := fun _ p => p.clock < p.mode.duration) hclock
    fun _ _ _ _ => Phase.clock_tick _ _

/-- **Along a run the bit is right, or nothing has been compared yet**: bit and lines are those of the
start, and the line has not ended. -/
theorem Ran.comparison (h : start.Ran steps m)
    (hclock : start.phase.clock < start.phase.mode.duration) :
    m.bus.video.regs.Compared ∨
      start.bus.video.regs.SameComparison m.bus.video.regs ∧
        steps.length + m.phase.stepsOnLine ≤ start.phase.stepsOnLine := by
  induction h with
  | start => exact .inr ⟨.refl _, by simp⟩
  | @call steps m _ c hc ih =>
    rw [(still_perform m hc).phase]
    rcases m.comparedSince_perform hc with hright | hsame
    · exact .inl hright
    · exact ih.imp hsame.compared fun ⟨h, hle⟩ => ⟨h.trans hsame, hle⟩
  | @step steps m m' s hran hs ih =>
    rcases comparison_step (hran.clock_lt hclock) hs with hright | ⟨hsame, hless⟩
    · exact .inl hright
    · refine ih.imp hsame.compared fun ⟨h, hle⟩ => ⟨h.trans hsame, ?_⟩
      rw [List.length_append, List.length_singleton]
      omega

end Machine

/-! ## What programs read -/

namespace Bus

/-- The coincidence bit that a program reads says whether the line that it reads is the comparison line. -/
def ShowsCoincidence (b : Bus) : Prop :=
  (b.read 0xFF41).toNat.testBit 2 = decide (b.read 0xFF44 = b.read 0xFF45)

/-- What a program reads of the comparison is the same. -/
structure ReadsSameComparison (b b' : Bus) : Prop where
  coincidence : (b'.read 0xFF41).toNat.testBit 2 = (b.read 0xFF41).toNat.testBit 2
  line : b'.read 0xFF44 = b.read 0xFF44
  comparisonLine : b'.read 0xFF45 = b.read 0xFF45

variable (b b' : Bus)

theorem read_stat : b.read 0xFF41 = b.video.regs.stat := b.read_addr .stat

theorem read_ly : b.read 0xFF44 = b.video.regs.ly := b.read_addr .ly

theorem read_lyc : b.read 0xFF45 = b.video.regs.lyc := b.read_addr .lyc

theorem showsCoincidence_iff : b.ShowsCoincidence ↔ b.video.regs.Compared := by
  rw [ShowsCoincidence, read_stat, read_ly, read_lyc]
  rfl

/-- A program that writes the comparison line sets the bit right. -/
theorem showsCoincidence_write_lyc (v : UInt8) : (b.write 0xFF45 v).ShowsCoincidence := by
  rw [showsCoincidence_iff,
    show b.write 0xFF45 v = _ from b.write_addr (p := .lyc) nofun v]
  exact Registers.compared_compareLine { b.video.regs with lyc := v }

variable {b b'}

theorem readsSameComparison (h : b.video.regs.SameComparison b'.video.regs) :
    b.ReadsSameComparison b' := by
  refine ⟨?_, ?_, ?_⟩
  · rw [read_stat, read_stat]
    exact h.coincidence
  · rw [read_ly, read_ly]
    exact h.ly
  · rw [read_lyc, read_lyc]
    exact h.lyc

end Bus

namespace Machine

variable {m m' k : Machine} {input : List UInt8} {steps : List Step}

/-- **The coincidence bit after a restore.**  If it is right in what was restored, it stays right.  As long as
it is wrong, programs read bit and lines as they were restored; this lasts for 113 steps at most, and ends
when a program writes the comparison line. -/
theorem coincidence_of_restore (h : m.restore input = .ok m') (hrun : m'.Ran steps k) :
    (m'.bus.ShowsCoincidence → k.bus.ShowsCoincidence) ∧
      (¬ k.bus.ShowsCoincidence → m'.bus.ReadsSameComparison k.bus ∧ steps.length < 114) ∧
      ∀ v, (k.bus.write 0xFF45 v).ShowsCoincidence := by
  obtain ⟨-, -, hclock⟩ := intact_of_restore h
  have hpos := Phase.stepsOnLine_pos (hrun.clock_lt hclock)
  have hmost := m'.phase.stepsOnLine_le
  refine ⟨?_, ?_, k.bus.showsCoincidence_write_lyc⟩
  · intro hstart
    rw [Bus.showsCoincidence_iff] at hstart ⊢
    exact (hrun.comparison hclock).elim id fun ⟨hsame, _⟩ => hsame.compared hstart
  · intro hwrong
    rw [Bus.showsCoincidence_iff] at hwrong
    obtain ⟨hsame, hsteps⟩ := (hrun.comparison hclock).resolve_left hwrong
    exact ⟨Bus.readsSameComparison hsame, by omega⟩

/-! ## A wrong bit -/

/-- An endless loop in a line that is the comparison line, with a coincidence bit that denies it. -/
def staleLoop : Machine :=
  endlessLoop.reset.withVideo
    { Video.powerOn with regs := { Video.powerOn.regs with stat := 0x02 } }

theorem restore_save_staleLoop : staleLoop.restore staleLoop.save = .ok staleLoop := by
  have hphase : staleLoop.phase = ⟨.oamScan, 0, 0⟩ := by decide
  have hintact : staleLoop.Intact := (intact_reset endlessLoop).withVideo Video.coherent_powerOn
  exact hintact.restore_save (by rw [hphase]; decide) (by rw [hphase]; decide) staleLoop

/-- **A wrong bit is accepted**, and a program reads it. -/
theorem stale_after_restore :
    staleLoop.restore staleLoop.save = .ok staleLoop ∧
      staleLoop.bus.read 0xFF41 = 0x02 ∧ staleLoop.bus.read 0xFF44 = 0 ∧
      staleLoop.bus.read 0xFF45 = 0 ∧ ¬ staleLoop.bus.ShowsCoincidence := by
  have hstat : staleLoop.bus.read 0xFF41 = 0x02 := staleLoop.bus.read_stat
  have hly : staleLoop.bus.read 0xFF44 = 0 := staleLoop.bus.read_ly
  have hlyc : staleLoop.bus.read 0xFF45 = 0 := staleLoop.bus.read_lyc
  refine ⟨restore_save_staleLoop, hstat, hly, hlyc, ?_⟩
  rw [Bus.ShowsCoincidence, hstat, hly, hlyc]
  decide

/-- The wrong bit is gone after 114 steps. -/
theorem coincidence_of_restore_staleLoop :
    staleLoop.restore staleLoop.save = .ok staleLoop ∧
      ∃ steps k, staleLoop.Ran steps k ∧ steps.length = 114 ∧ k.bus.ShowsCoincidence := by
  obtain ⟨steps, hran, hlength⟩ := ran_run 114 ((looping_endlessLoop.withVideo _).run _)
  refine ⟨restore_save_staleLoop, steps, _, hran, hlength, ?_⟩
  by_contra hwrong
  obtain ⟨-, hless⟩ := (coincidence_of_restore restore_save_staleLoop hran).2.1 hwrong
  omega

end Machine

end DotMatrix
