import DotMatrix.Proofs.Reachable

/-!
# Running on after a restore

What a machine does once it has been restored.

* `Machine.history` — the results of a number of steps, with the machine after each.
* `Machine.Looping`, `Machine.endlessLoop` — programs that are never refused.

Principal results: `Machine.resume_reachable` — what a reachable machine saved goes on as that machine
would have; `Machine.run_of_restore` — what any accepted input goes on as: either it can be saved and
restored for ever, or its program comes to a line that does not exist.

The last case is that of a video unit that is below the picture and not in the vertical blank.  The
check of a snapshot bounds line and clock one by one and lets it pass, although no passage of time
leads there.
-/

set_option autoImplicit false

namespace DotMatrix

namespace Machine

/-! ## The same steps -/

/-- The results of the next `n` steps, each with the machine after it. -/
def history : Nat → Machine → List (Except Fault Step × Machine)
  | 0, _ => []
  | n + 1, m => m.stepOnce :: history n m.stepOnce.2

/-- No step looks at the settings. -/
theorem stepOnce_config (m : Machine) (config : Config) :
    stepOnce { m with config := config } =
      (m.stepOnce.1, { m.stepOnce.2 with config := config }) := by
  have hcpu : ({ m with config := config } : Machine).cpu.step
      ({ m with config := config } : Machine).bus = m.cpu.step m.bus := rfl
  unfold stepOnce step
  rw [hcpu]
  cases m.cpu.step m.bus with
  | error fault => rfl
  | ok r => rfl

theorem history_config (config : Config) (n : Nat) (m : Machine) :
    history n { m with config := config } =
      (history n m).map fun r => (r.1, { r.2 with config := config }) := by
  induction n generalizing m with
  | zero => rfl
  | succ n ih =>
    rw [history, stepOnce_config, history, List.map_cons]
    rw [ih m.stepOnce.2]

/-- **A saved machine goes on as it would have.**  Whatever machine it is restored into, the result
is the machine that was saved with other settings, and each of its steps has the same outcome. -/
theorem resume_reachable {m : Machine} (h : Reachable m) (m' : Machine) :
    (∀ capacity, 150168 ≤ capacity → m.saveInto capacity = .ok m.save) ∧
      m'.restore m.save = .ok { m with config := m'.config } ∧
      ∀ n, history n { m with config := m'.config } =
        (history n m).map fun r => (r.1, { r.2 with config := m'.config }) := by
  have hi := h.intact
  have hs := h.sustained
  refine ⟨?_, hi.restore_save hs.line hs.clock m', ?_⟩
  · intro capacity hcap
    apply saveInto_of_le
    rw [length_save (hi.valid hs.line hs.clock)]
    exact hcap
  · intro n
    exact history_config m'.config n m

/-- A machine on which a program has shown one line of the window and fills video memory from the stack. -/
def pushLoop : Machine :=
  (create
    { stepsPerFrame := 20
      bootRom := some
        [0x3E, 0x20, 0xE0, 0x40, 0x31, 0x12, 0x80, 0x01, 0x0F, 0x80, 0xC5, 0x18, 0xFD] }).perform
    .runFrame

/-- It is restored in the middle of its program, into a machine with other settings. -/
theorem resume_pushLoop :
    Reachable pushLoop ∧ pushLoop.bus.video.windowLine = 1 ∧ pushLoop.cycles = 67 ∧
      pushLoop.bus.read 0x8010 = 0x0F ∧ pushLoop.bus.read 0x8011 = 0x80 ∧
      (create { startInBoot := false }).restore pushLoop.save =
        .ok { pushLoop with config := { startInBoot := false } } ∧
      ∀ n, history n { pushLoop with config := { startInBoot := false } } =
        (history n pushLoop).map fun r => (r.1, { r.2 with config := { startInBoot := false } }) := by
  have hreachable : Reachable pushLoop := (Reachable.create _).call .runFrame
  obtain ⟨-, hrestore, hhistory⟩ := resume_reachable hreachable (create { startInBoot := false })
  exact ⟨hreachable, by decide +kernel, by decide +kernel, by decide +kernel, by decide +kernel,
    hrestore, hhistory⟩

/-! ## Runs -/

theorem runFrom_eq_run (done n : Nat) (m : Machine) :
    (runFrom done n m).machine = (m.run n).machine ∧
      (runFrom done n m).fault = (m.run n).fault := by
  have h : ∀ (n done done' : Nat) (m : Machine),
      (runFrom done n m).machine = (runFrom done' n m).machine ∧
        (runFrom done n m).fault = (runFrom done' n m).fault := by
    intro n
    induction n with
    | zero => exact fun _ _ _ => ⟨rfl, rfl⟩
    | succ n ih =>
      intro done done' m
      simp only [runFrom]
      cases m.step with
      | error fault => exact ⟨rfl, rfl⟩
      | ok r => exact ih (done + 1) (done' + 1) r.1
  exact h n done 0 m

theorem run_succ {m m' : Machine} {s : Step} (h : m.step = .ok (m', s)) (n : Nat) :
    (m.run (n + 1)).machine = (m'.run n).machine ∧ (m.run (n + 1)).fault = (m'.run n).fault := by
  have hr := runFrom_eq_run 1 n m'
  rw [run, runFrom, h]
  exact hr

/-- The instruction at the program counter is a jump to HL, and both are 0. -/
structure Looping (m : Machine) : Prop where
  pc : m.cpu.pc = 0
  hl : m.cpu.hl = 0
  opcode : m.bus.read 0 = 0xE9

theorem Looping.step {m : Machine} (h : m.Looping) :
    ∃ m' s, m.step = .ok (m', s) ∧ m'.Looping := by
  have hfetch : Opcode.fetch m.bus m.cpu.pc = .base 0xE9 := by
    rw [h.pc, Opcode.fetch, h.opcode]
    rfl
  have hdecode : (Opcode.base 0xE9).decode? = some .jumpHl := by decide
  have hstep : m.cpu.step m.bus = .ok (m.cpu.carryOut m.bus .jumpHl) := by
    simp only [Cpu.step, hfetch, hdecode]
  refine ⟨_, _, by rw [Machine.step, hstep], ?_⟩
  exact ⟨h.hl, h.hl, h.opcode⟩

theorem Looping.run {m : Machine} (h : m.Looping) (n : Nat) : (m.run n).fault = none := by
  induction n generalizing m with
  | zero => rfl
  | succ n ih =>
    obtain ⟨m', s, hs, hm'⟩ := h.step
    rw [(run_succ hs n).2]
    exact ih hm'

theorem Looping.withVideo {m : Machine} (h : m.Looping) (v : Video) : (m.withVideo v).Looping :=
  ⟨h.pc, h.hl, h.opcode⟩

/-- A machine whose boot program is a jump to itself. -/
def endlessLoop : Machine := create { bootRom := some [0xE9] }

theorem looping_endlessLoop : endlessLoop.reset.Looping :=
  ⟨rfl, rfl, by decide +kernel⟩

/-! ## Lines that exist and lines that do not -/

/-- A run that is never refused brings a stray phase to line 154. -/
theorem exists_line_of_stray (n : Nat) (m : Machine) (h : m.phase.Stray)
    (hn : m.phase.stepsLeft ≤ n) (hrun : (m.run n).fault = none) :
    ∃ k ≤ n, (m.run k).machine.phase.line = 154 := by
  induction n generalizing m with
  | zero =>
    have hclock := h.clock
    simp only [Phase.stepsLeft] at hn
    omega
  | succ n ih =>
    cases hs : m.step with
    | error fault =>
      rw [run, runFrom, hs] at hrun
      cases hrun
    | ok r =>
      obtain ⟨m', s⟩ := r
      rw [(run_succ hs n).2] at hrun
      have hticks : 4 ≤ 4 * s.cycles := by
        have := (stepped_of_step hs).cycles_pos
        omega
      have hphase : m'.phase = (m.phase.tick (4 * s.cycles)).1 := by rw [← phase_step hs]
      rcases h.tick hticks with ⟨hstray, hless⟩ | hline
      · rw [← hphase] at hstray hless
        obtain ⟨k, hk, hline⟩ := ih m' hstray (by omega) hrun
        exact ⟨k + 1, by omega, by rw [(run_succ hs k).1]; exact hline⟩
      · rw [← hphase] at hline
        exact ⟨1, by omega, by rw [(run_succ hs 0).1]; exact hline⟩

/-- On line 154 a machine can be saved, but no machine takes it back. -/
theorem Intact.refused {m : Machine} (h : m.Intact) (hline : m.phase.line = 154)
    (other : Machine) : other.restore m.save = .error (.corrupt .line) := by
  have hlt : Video.lastLine < m.bus.video.regs.ly := by
    rw [UInt8.lt_iff_toNat_lt, show m.bus.video.regs.ly.toNat = 154 from hline]
    decide
  exact restore_save_of_line h.eram hlt other

/-- **What an accepted input goes on as.**  In the vertical blank, or with its line in the picture, it
stays valid and is taken back whenever it is saved.  Otherwise no program can run on for 1254 steps
without coming to line 154, where what is saved is refused. -/
theorem run_of_restore {m m' : Machine} {b : List UInt8} (h : m.restore b = .ok m') :
    if m'.bus.video.regs.mode = .vblank ∨ m'.bus.video.regs.ly ≤ 142 then
      ∀ n other, (m'.run n).machine.snapshot.Valid ∧
        Machine.restore other (m'.run n).machine.save =
          .ok { (m'.run n).machine with config := other.config }
    else
      ∀ n, 1254 ≤ n → (m'.run n).fault = none →
        ∃ k ≤ n, (m'.run k).machine.bus.video.regs.ly = 154 ∧
          ∀ other, Machine.restore other (m'.run k).machine.save = .error (.corrupt .line) := by
  obtain ⟨hintact, hline, hclock⟩ := intact_of_restore h
  have hly : m'.bus.video.regs.ly ≤ 142 ↔ m'.phase.line ≤ 142 := UInt8.le_iff_toNat_le
  have hrun : ∀ n, (m'.run n).machine.Intact :=
    run_induction (fun hm hs => hm.step hs) hintact
  split
  · rename_i hlasts
    have hsustained : ∀ n, (m'.run n).machine.phase.Sustained :=
      run_induction sustained_step ⟨hclock, hline, hlasts.imp_right hly.1⟩
    intro n other
    exact ⟨(hrun n).valid (hsustained n).line (hsustained n).clock,
      (hrun n).restore_save (hsustained n).line (hsustained n).clock other⟩
  · rename_i hlasts
    obtain ⟨hmode, hbelow⟩ := not_or.1 hlasts
    have hstray : m'.phase.Stray := ⟨hclock, hline, Nat.lt_of_not_le (mt hly.2 hbelow), hmode⟩
    intro n hn hfault
    obtain ⟨k, hk, h154⟩ :=
      exists_line_of_stray n m' hstray (Nat.le_trans hstray.stepsLeft_le hn) hfault
    exact ⟨k, hk, UInt8.toNat_inj.1 h154, (hrun k).refused h154⟩

/-- A new machine with its video unit at the end of a horizontal blank on the last line. -/
def lastLineBlank : Machine :=
  (create {}).withVideo
    { Video.powerOn with
      regs := (Registers.powerOn.setMode .hblank).setLine 153
      clock := 203 }

/-- An endless loop with its video unit there. -/
def strayLoop : Machine := endlessLoop.reset.withVideo lastLineBlank.bus.video

/-- Where the program is the same, it is the video unit that decides: from power on the machine can be
saved and restored for ever, from below the picture it comes to line 154. -/
theorem run_of_restore_endlessLoop :
    endlessLoop.restore endlessLoop.reset.save = .ok endlessLoop.reset ∧
      (∀ n other, (endlessLoop.reset.run n).machine.snapshot.Valid ∧
        Machine.restore other (endlessLoop.reset.run n).machine.save =
          .ok { (endlessLoop.reset.run n).machine with config := other.config }) ∧
      endlessLoop.restore strayLoop.save = .ok strayLoop ∧
      ∃ k ≤ 1254, (strayLoop.run k).machine.bus.video.regs.ly = 154 ∧
        ∀ other, Machine.restore other (strayLoop.run k).machine.save = .error (.corrupt .line) := by
  have hintact := intact_reset endlessLoop
  have hstray : strayLoop.Intact := hintact.withVideo Video.coherent_powerOn
  have hfresh : endlessLoop.restore endlessLoop.reset.save = .ok endlessLoop.reset :=
    hintact.restore_save (by decide) (by decide) endlessLoop
  have hbelow : endlessLoop.restore strayLoop.save = .ok strayLoop :=
    hstray.restore_save (by decide) (by decide) endlessLoop
  have hlasts := run_of_restore hfresh
  rw [if_pos (by decide)] at hlasts
  have hends := run_of_restore hbelow
  rw [if_neg (by decide)] at hends
  exact ⟨hfresh, hlasts, hbelow,
    hends 1254 (Nat.le_refl _) ((looping_endlessLoop.withVideo _).run _)⟩

/-- From the last line a step of an empty program leads to line 154. -/
theorem line_after_lastLineBlank :
    ∃ m s, lastLineBlank.step = .ok (m, s) ∧ m.Intact ∧ m.phase.line = 154 := by
  have hphase : lastLineBlank.phase = ⟨.hblank, 153, 203⟩ := by decide
  have hintact : lastLineBlank.Intact := (intact_reset _).withVideo Video.coherent_powerOn
  obtain ⟨m, s, hs⟩ : ∃ m s, lastLineBlank.step = .ok (m, s) := ⟨_, _, rfl⟩
  have hcycles := (stepped_of_step hs).cycles_pos
  have hnext : m.phase = (lastLineBlank.phase.tick (4 * s.cycles)).1 := by rw [← phase_step hs]
  rw [hphase, Phase.tick, if_pos (by simp only [Mode.duration]; omega)] at hnext
  exact ⟨m, s, hs, hintact.step hs, by rw [hnext]; rfl⟩

/-- **Accepted, and refused one step later.** -/
theorem refused_after_step :
    (create {}).restore lastLineBlank.save = .ok lastLineBlank ∧
      ∃ m s, lastLineBlank.step = .ok (m, s) ∧ ¬ m.snapshot.Valid ∧
        ∀ other, Machine.restore other m.save = .error (.corrupt .line) := by
  have hintact : lastLineBlank.Intact := (intact_reset _).withVideo Video.coherent_powerOn
  obtain ⟨m, s, hs, hm, hline⟩ := line_after_lastLineBlank
  refine ⟨hintact.restore_save (by decide) (by decide) (create {}), m, s, hs, ?_,
    hm.refused hline⟩
  intro hvalid
  have hle : m.phase.line ≤ 153 := UInt8.le_iff_toNat_le.1 hvalid.line
  omega

end Machine

end DotMatrix
