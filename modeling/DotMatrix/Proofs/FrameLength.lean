import DotMatrix.Proofs.FrameTime
import DotMatrix.Proofs.Picture
import DotMatrix.Proofs.Runs

/-!
# How long a picture takes

The end of a mode is noticed after the instruction during which it falls, and the clock then begins
again at zero.  A picture therefore takes longer the more modes end in the middle of an instruction;
the longest instruction has six machine cycles, of which at most five are lost.

* `Phase.Paced` — how far a phase can be from another one, by the cycles in between.
* `Phase.Budget` — the cycles that a picture still takes.
* `Machine.Fresh` — machines just switched on; `Machine.Completes` — steps that complete a picture;
  `Machine.Draws` — runs that complete none; `Machine.passed` — cycles by the cycle counter.

Principal results: `Phase.Paced.tick` — what a step adds to the distance; `Machine.pictures_paced` —
the least and the largest number of machine cycles that a picture takes.
-/

set_option autoImplicit false

namespace DotMatrix

/-! ## Phases -/

namespace Phase

variable {p q : Phase}

/-- `q` is a number of machine cycles after `p` in the same picture.  Of the ticks in between, at
most 20 are lost for each mode that has ended. -/
structure Paced (p q : Phase) (cycles : Nat) : Prop where
  regular : q.Regular
  aligned : q.clock % 4 = 0
  early : q.sinceBlank ≤ p.sinceBlank + 4 * cycles
  late : p.sinceBlank + 4 * cycles + 20 * p.ended ≤ q.sinceBlank + 20 * q.ended

/-- From `p` on, the picture takes `low` machine cycles if none is lost, and `high` if every mode
that is still to end loses five. -/
structure Budget (p : Phase) (low high : Nat) : Prop where
  regular : p.Regular
  aligned : p.clock % 4 = 0
  least : p.sinceBlank + 4 * low = 70224
  most : p.sinceBlank + 4 * high + 20 * p.ended = 70224 + 20 * 440

theorem budget_firstLine : Budget ⟨.oamScan, 0, 0⟩ 16302 18447 :=
  ⟨⟨⟨by decide, by decide, .inr (by decide)⟩, nofun⟩, rfl, rfl, rfl⟩

theorem budget_blank : Budget ⟨.vblank, 143, 0⟩ 17556 19756 :=
  ⟨⟨⟨by decide, by decide, .inl rfl⟩, fun _ => by decide⟩, rfl, rfl, rfl⟩

theorem Budget.paced {low high : Nat} (h : p.Budget low high) : p.Paced p 0 :=
  ⟨h.regular, h.aligned, Nat.le_refl _, Nat.le_refl _⟩

/-- Whole machine cycles keep the clock at a whole machine cycle. -/
theorem aligned_tick (ha : p.clock % 4 = 0) (cycles : Nat) :
    (p.tick (4 * cycles)).1.clock % 4 = 0 := by
  unfold Phase.tick
  split
  · rw [clock_next]
  · simp only
    omega

/-- An instruction that ends a mode began at least one machine cycle before the mode should have
ended, so at most five of its cycles are lost. -/
theorem excess_le (hclock : p.clock < p.mode.duration) (ha : p.clock % 4 = 0) {cycles : Nat}
    (hc : cycles ≤ 6) :
    p.excess (4 * cycles) ≤ 20 * if p.mode.duration ≤ p.clock + 4 * cycles then 1 else 0 := by
  have hd := p.mode.duration_mod_four
  unfold excess
  split <;> omega

/-- **What a step adds to the distance**: its cycles, less those that are lost when it ends a mode.
A step that completes the picture ends the last of 440 modes. -/
theorem Paced.tick {done cycles : Nat} (h : p.Paced q done) (hc : cycles ≤ 6) :
    if (q.tick (4 * cycles)).2 = true then
      70224 ≤ p.sinceBlank + 4 * (done + cycles) ∧
        p.sinceBlank + 4 * (done + cycles) + 20 * p.ended ≤ 70224 + 20 * 440
    else p.Paced (q.tick (4 * cycles)).1 (done + cycles) := by
  have hearly := h.early
  have hlate := h.late
  have hexcess := excess_le h.regular.clock h.aligned hc
  have hstep := h.regular.sinceBlank_tick (4 * cycles)
  by_cases hcomplete : (q.tick (4 * cycles)).2 = true
  · rw [if_pos hcomplete] at hstep ⊢
    obtain ⟨hsince, hended⟩ := hstep
    -- 439 modes had ended before, and the one that ends now loses 20 ticks like any other
    have hlost : q.excess (4 * cycles) ≤ 20 := by
      split at hexcess <;> omega
    omega
  · rw [if_neg hcomplete] at hstep ⊢
    obtain ⟨hsince, hended⟩ := hstep
    refine ⟨h.regular.tick _, aligned_tick h.aligned cycles, by omega, ?_⟩
    rw [hended]
    omega

/-- While the picture is not complete, not all of the cycles have passed. -/
theorem Paced.lt {done low high : Nat} (h : p.Paced q done) (hp : p.Budget low high) :
    done < high := by
  have hmost := hp.most
  have hend := h.regular.sinceBlank_lt
  have hended := h.regular.ended_le
  have hlate := h.late
  omega

end Phase

/-! ## Machines -/

namespace Machine

/-- A machine that has just been switched on. -/
inductive Fresh : Machine → Prop
  | create (config : Config) : Fresh (create config)
  | reset (m : Machine) : Fresh m.reset

/-- The next step of `m` leads to `m'` and completes a picture. -/
def Completes (m m' : Machine) : Prop := ∃ s, m.step = .ok (m', s) ∧ s.frameComplete = true

/-- A run from `m` to `m'` that completes no picture. -/
def Draws (m m' : Machine) : Prop :=
  ∃ steps, m.Ran steps m' ∧ ∀ s ∈ steps, s.frameComplete = false

/-- Machine cycles from `m` to `m'` by the cycle counter. -/
def passed (m m' : Machine) : Nat := (m'.cycles - m.cycles).toNat

variable {start m m' : Machine} {steps : List Step}

theorem Ran.passed_eq (h : start.Ran steps m) (hlt : Step.total steps < UInt64.size) :
    start.passed m = Step.total steps := by
  have hdiff : m.cycles - start.cycles = UInt64.ofNat (Step.total steps) := by
    rw [h.cycles_eq, UInt64.add_comm, UInt64.add_sub_cancel]
  rw [passed, hdiff, UInt64.toNat_ofNat', Nat.mod_eq_of_lt hlt]

theorem Ran.paced {low high : Nat} (hstart : start.phase.Budget low high)
    (h : start.Ran steps m) (hnone : ∀ s ∈ steps, s.frameComplete = false) :
    start.phase.Paced m.phase (Step.total steps) := by
  refine h.phase_induction
    (P := fun steps p => (∀ s ∈ steps, s.frameComplete = false) →
      start.phase.Paced p (Step.total steps))
    (fun _ => hstart.paced) ?_ hnone
  intro steps p s ih _ hle hflag hnone
  have hp := (ih fun t ht => hnone t (List.mem_append_left _ ht)).tick hle
  have hs : s.frameComplete = false := hnone s (List.mem_append_right _ List.mem_cons_self)
  rw [hflag, hs, if_neg (by decide)] at hp
  rw [Step.total_append]
  exact hp

/-- A picture takes the cycles that are left of it. -/
theorem Draws.bounds {low high : Nat} (hstart : start.phase.Budget low high) (h : start.Draws m) :
    start.passed m < high ∧
      ∀ m', m.Completes m' → low ≤ start.passed m' ∧ start.passed m' ≤ high := by
  obtain ⟨steps, hran, hnone⟩ := h
  have hpaced := hran.paced hstart hnone
  have hlt := hpaced.lt hstart
  have hleast := hstart.least
  have hmost := hstart.most
  have hsize : UInt64.size = 18446744073709551616 := rfl
  constructor
  · rw [hran.passed_eq (by omega)]
    exact hlt
  · rintro m' ⟨s, hs, hcomplete⟩
    have hflag := (phase_eq_of_step hs).2
    have htick := hpaced.tick (stepped_of_step hs).cycles_le
    rw [← hflag, if_pos hcomplete, ← Step.total_append] at htick
    obtain ⟨hge, hle⟩ := htick
    rw [(hran.step hs).passed_eq (by omega)]
    omega

/-- A run that completes a picture is cut where it completes the first. -/
theorem Ran.cut (h : start.Ran steps m) :
    (∀ t ∈ steps, t.frameComplete = false) ∨
      ∃ drawn s rest m₁ m₂, steps = drawn ++ s :: rest ∧ start.Ran drawn m₁ ∧
        (∀ t ∈ drawn, t.frameComplete = false) ∧ m₁.step = .ok (m₂, s) ∧
        s.frameComplete = true ∧ m₂.Ran rest m := by
  induction h with
  | start => exact .inl nofun
  | call _ c hc ih =>
    rcases ih with hnone | ⟨drawn, s, rest, m₁, m₂, hsteps, hdrawn, hnone, hs, hcomplete, hrest⟩
    · exact .inl hnone
    · exact .inr ⟨drawn, s, rest, m₁, m₂, hsteps, hdrawn, hnone, hs, hcomplete, hrest.call c hc⟩
  | @step steps m m' t h ht ih =>
    rcases ih with hnone | ⟨drawn, s, rest, m₁, m₂, hsteps, hdrawn, hnone, hs, hcomplete, hrest⟩
    · by_cases hcomplete : t.frameComplete = true
      · exact .inr ⟨steps, t, [], m, m', rfl, h, hnone, ht, hcomplete, .start⟩
      · left
        intro u hu
        rcases List.mem_append.1 hu with hu | hu
        · exact hnone u hu
        · rw [List.mem_singleton.1 hu]
          exact Bool.eq_false_iff.2 hcomplete
    · refine .inr ⟨drawn, s, rest ++ [t], m₁, m₂, ?_, hdrawn, hnone, hs, hcomplete, hrest.step ht⟩
      rw [hsteps, List.append_assoc, List.cons_append]

/-- **A run that is long enough completes a picture.** -/
theorem Ran.exists_picture {low high : Nat} (hstart : start.phase.Budget low high)
    (h : start.Ran steps m) (hlong : high ≤ steps.length) :
    ∃ m₁ m₂ rest, start.Draws m₁ ∧ m₁.Completes m₂ ∧ m₂.Ran rest m ∧
      steps.length ≤ high + rest.length := by
  rcases h.cut with hnone | ⟨drawn, s, rest, m₁, m₂, hsteps, hdrawn, hnone, hs, hcomplete, hrest⟩
  · have hlt := (h.paced hstart hnone).lt hstart
    have hle := h.total_bounds.1
    omega
  · refine ⟨m₁, m₂, rest, ⟨drawn, hdrawn, hnone⟩, ⟨s, hs, hcomplete⟩, hrest, ?_⟩
    have hlt := (hdrawn.paced hstart hnone).lt hstart
    have hle := hdrawn.total_bounds.1
    rw [hsteps, List.length_append, List.length_cons]
    omega

theorem Completes.phase_eq (h : m.Completes m') : m'.phase = ⟨.vblank, 143, 0⟩ := by
  obtain ⟨s, hs, hcomplete⟩ := h
  obtain ⟨hphase, hflag⟩ := phase_eq_of_step hs
  rw [hphase]
  exact Phase.tick_of_complete (hflag.symm.trans hcomplete)

theorem Completes.budget (h : m.Completes m') : m'.phase.Budget 17556 19756 := by
  rw [h.phase_eq]
  exact Phase.budget_blank

theorem Fresh.budget (h : start.Fresh) : start.phase.Budget 16302 18447 := by
  have hphase : start.phase = ⟨.oamScan, 0, 0⟩ := by
    cases h with
    | create config => exact phase_reset _
    | reset m => exact phase_reset m
  rw [hphase]
  exact Phase.budget_firstLine

theorem cycles_reset (m : Machine) : m.reset.cycles = 0 := by
  unfold reset
  simp only
  split <;> rfl

theorem Fresh.cycles (h : start.Fresh) : start.cycles = 0 := by
  cases h with
  | create config => exact cycles_reset _
  | reset m => exact cycles_reset m

/-- **How long a picture takes**, whatever instructions are carried out and whatever they or the
host write.  After a machine was switched on, the first picture is complete after 16302 machine
cycles at least and 18447 at most, and every later one after 17556 at least and 19756 at most. -/
theorem pictures_paced {start : Machine} (h : start.Fresh) :
    (∀ m, start.Draws m →
      m.cycles.toNat < 18447 ∧
        ∀ m', m.Completes m' → 16302 ≤ m'.cycles.toNat ∧ m'.cycles.toNat ≤ 18447) ∧
      ∀ steps m m₁ m₂, start.Ran steps m → m.Completes m₁ → m₁.Draws m₂ →
        m₁.passed m₂ < 19756 ∧
          ∀ m₃, m₂.Completes m₃ → 17556 ≤ m₁.passed m₃ ∧ m₁.passed m₃ ≤ 19756 := by
  constructor
  · intro m hdraws
    have hpassed : ∀ m : Machine, start.passed m = m.cycles.toNat := by
      intro m
      rw [passed, h.cycles, UInt64.sub_zero]
    have hbounds := hdraws.bounds h.budget
    simp only [hpassed] at hbounds
    exact hbounds
  · intro steps m m₁ m₂ _ hcomplete hdraws
    exact hdraws.bounds hcomplete.budget

/-- The first two pictures of a machine that does nothing but jump. -/
theorem pictures_paced_endlessLoop :
    endlessLoop.reset.Fresh ∧ ∃ m₁ m₂ m₃ m₄ : Machine,
      endlessLoop.reset.Draws m₁ ∧ m₁.Completes m₂ ∧ m₂.Draws m₃ ∧ m₃.Completes m₄ ∧
        16302 ≤ m₂.cycles.toNat ∧ m₂.cycles.toNat ≤ 18447 ∧
        17556 ≤ m₂.passed m₄ ∧ m₂.passed m₄ ≤ 19756 := by
  have hfresh : endlessLoop.reset.Fresh := .reset endlessLoop
  obtain ⟨hfirst, hlater⟩ := pictures_paced hfresh
  obtain ⟨steps, hran, hlength⟩ := ran_run (18447 + 19756) (looping_endlessLoop.run _)
  obtain ⟨m₁, m₂, rest, hdraws, hcomplete, hrest, hlong⟩ :=
    hran.exists_picture hfresh.budget (by omega)
  obtain ⟨m₃, m₄, -, hdraws', hcomplete', -, -⟩ :=
    hrest.exists_picture hcomplete.budget (by omega)
  obtain ⟨drawn, hdrawn, -⟩ := id hdraws
  obtain ⟨hge, hle⟩ := (hfirst m₁ hdraws).2 m₂ hcomplete
  obtain ⟨hge', hle'⟩ := (hlater drawn m₁ m₂ m₃ hdrawn hcomplete hdraws').2 m₄ hcomplete'
  exact ⟨hfresh, m₁, m₂, m₃, m₄, hdraws, hcomplete, hdraws', hcomplete', hge, hle, hge', hle'⟩

end Machine

end DotMatrix
