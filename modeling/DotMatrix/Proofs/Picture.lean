import DotMatrix.Proofs.Painting
import DotMatrix.Proofs.Resume
import DotMatrix.Proofs.Timing

/-!
# The rows of a picture

Which rows are drawn between one complete picture and the next.

* `Video.rowDrawn?`, `Machine.rowDrawn?` — the row that is drawn while time passes, or in a step.
* `Machine.pictures` — for each picture that the next steps complete, the rows drawn since the one
  before it.
* `Phase.row?`, `Phase.drawn` — the line that is drawn, and how many rows of the picture have been
  drawn in a phase.
* `Phase.stepsToBlank` — a bound on the steps until the picture is complete.

Principal results: `Video.frame_tick`, `Machine.frame_step` — time and steps paint the row that is
said to be drawn and nothing else; `Machine.pictures_reset` — every picture is reported complete
without its last row.

The vertical blank begins with line 143, and a line is drawn at the end of its second mode.  Line 143
has no such mode, so its row keeps the white of the reset.
-/

set_option autoImplicit false

namespace DotMatrix

/-! ## Drawing -/

namespace Video

/-- The row that is drawn while ticks pass. -/
def rowDrawn? (v : Video) (ticks : UInt32) : Option (Fin 144) :=
  if v.regs.mode = .vramScan ∧ v.regs.mode.duration ≤ (advanceClock v.clock ticks).toNat then
    if h : v.regs.ly.toNat < 144 then some ⟨v.regs.ly.toNat, h⟩ else none
  else none

/-- The video unit at the moment at which it draws a line. -/
def atDrawing (v : Video) : Video := { v with regs := v.regs.setMode .hblank, clock := 0 }

/-- **Time paints the row that is drawn**, and where none is drawn it leaves the picture alone. -/
theorem frame_tick (v : Video) (ticks : UInt32) :
    (v.tick ticks).1.frame =
      match v.rowDrawn? ticks with
      | none => v.frame
      | some y => v.frame.drawRow y v.atDrawing.lineShades := by
  unfold rowDrawn?
  by_cases hover : v.regs.mode.duration ≤ (advanceClock v.clock ticks).toNat
  · have htick : v.tick ticks = nextMode { v with clock := 0 } := if_pos hover
    rw [htick]
    cases hm : v.regs.mode with
    | oamScan => simp [nextMode, hm]
    | vramScan =>
      have hnext : (nextMode { v with clock := 0 }).1 = v.atDrawing.drawLine := by
        simp only [nextMode, hm]
        rfl
      rw [hm] at hover
      rw [hnext, frame_drawLine, if_pos ⟨rfl, hover⟩]
      by_cases hline : v.regs.ly.toNat < 144
      · rw [dif_pos hline]
        exact dif_pos hline
      · rw [dif_neg hline]
        exact dif_neg hline
    | hblank => simp only [nextMode, hm]; split <;> simp
    | vblank => simp only [nextMode, hm]; split <;> simp
  · have htick : (v.tick ticks).1.frame = v.frame := by rw [tick, if_neg hover]
    rw [htick, if_neg (fun h => hover h.2)]

end Video

/-! ## Phases -/

namespace Phase

/-- The line that is drawn while ticks pass. -/
def row? (p : Phase) (ticks : Nat) : Option Nat :=
  if p.mode = .vramScan ∧ p.mode.duration ≤ p.clock + ticks then some p.line else none

/-- Lines of the picture that have been drawn. -/
def drawn (p : Phase) : Nat :=
  match p.mode with
  | .oamScan => p.line
  | .vramScan => p.line
  | .hblank => p.line + 1
  | .vblank => 0

theorem Regular.row?_lt {p : Phase} (h : p.Regular) {ticks y : Nat} (hy : p.row? ticks = some y) :
    y < 143 := by
  unfold row? at hy
  split at hy
  · rename_i hscan
    cases hy
    have hle := h.blank.resolve_left (by rw [hscan.1]; nofun)
    omega
  · cases hy

/-- **Lines are drawn in their order, one at a time.**  When the picture is complete, 143 of them have
been drawn. -/
theorem Regular.drawn_tick {p : Phase} (h : p.Regular) (ticks : Nat) :
    if (p.tick ticks).2 = true then
      p.drawn = 143 ∧ p.row? ticks = none ∧ (p.tick ticks).1.drawn = 0
    else
      List.range p.drawn ++ (p.row? ticks).toList = List.range (p.tick ticks).1.drawn := by
  obtain ⟨hedge, hcomplete⟩ := h.edge_next
  unfold Phase.tick row?
  by_cases hover : p.mode.duration ≤ p.clock + ticks
  · simp only [if_pos hover]
    generalize p.next = r at hedge hcomplete ⊢
    obtain ⟨q, complete⟩ := r
    simp only at hedge hcomplete ⊢
    cases hedge with
    | scanned line clock => simp_all [Phase.drawn]
    | drawn line clock => simp_all [Phase.drawn, List.range_succ]
    | nextLine line clock hlt =>
      have hne : line ≠ 142 := by omega
      simp_all [Phase.drawn]
    | blanked clock => simp_all [Phase.drawn]
    | nextBlankLine line clock hlt => simp_all [Phase.drawn]
    | restarted clock => simp_all [Phase.drawn]
  · simp [hover, drawn]

/-- A bound on the steps, of four ticks at least, until the picture is complete. -/
def stepsToBlank (p : Phase) : Nat :=
  (p.mode.duration - p.clock + 3) / 4 + laterSteps p.mode +
    114 * (if p.mode = .vblank then 153 - p.line + 143 else 142 - p.line)

/-- **Every step brings the complete picture closer.** -/
theorem Regular.stepsToBlank_tick {p : Phase} (h : p.Regular) {ticks : Nat} (ht : 4 ≤ ticks) :
    (p.tick ticks).2 = true ∨ (p.tick ticks).1.stepsToBlank < p.stepsToBlank := by
  obtain ⟨hedge, hcomplete⟩ := h.edge_next
  have hclock := h.clock
  unfold Phase.tick
  by_cases hover : p.mode.duration ≤ p.clock + ticks
  · simp only [if_pos hover]
    generalize p.next = r at hedge hcomplete ⊢
    obtain ⟨q, complete⟩ := r
    simp only at hedge hcomplete ⊢
    -- a mode that is over had a step left, which is more than the next mode and line need
    cases hedge with
    | blanked clock => exact .inl (hcomplete.2 ⟨rfl, rfl⟩)
    | nextBlankLine line clock hlt =>
      have hge : 143 ≤ line := h.below rfl
      right
      simp [stepsToBlank, laterSteps, Mode.duration] at hclock ⊢
      omega
    | _ =>
      right
      simp [stepsToBlank, laterSteps, Mode.duration] at hclock ⊢
      omega
  · right
    simp only [if_neg hover, stepsToBlank]
    omega

end Phase

/-! ## Pictures -/

theorem Cpu.touched_step {c : Cpu} {b : Bus} {o : Outcome} (h : c.step b = .ok o) :
    b.Touched o.bus := by
  unfold Cpu.step at h
  cases hd : (Opcode.fetch b c.pc).decode? with
  | none => simp only [hd] at h; cases h
  | some i =>
    simp only [hd] at h
    cases h
    exact i.touched_exec _ b

/-- Between the last line of the picture and the blank there is no line that could be drawn. -/
theorem Video.map_rowDrawn? {v : Video} (h : v.phase.Regular) (ticks : UInt32) :
    (v.rowDrawn? ticks).map Fin.val = v.phase.row? ticks.toNat := by
  have hd : v.regs.mode.duration ≤ 456 := by cases v.regs.mode <;> decide
  have hc := toNat_advanceClock v.clock ticks
  have hiff : v.regs.mode.duration ≤ (advanceClock v.clock ticks).toNat ↔
      v.regs.mode.duration ≤ v.clock.toNat + ticks.toNat := by omega
  unfold rowDrawn? Phase.row?
  simp only [hiff]
  by_cases hscan : v.regs.mode = .vramScan ∧
      v.regs.mode.duration ≤ v.clock.toNat + ticks.toNat
  · have hline : v.regs.ly.toNat ≤ 142 := by
      refine h.blank.resolve_left ?_
      rw [show v.phase.mode = .vramScan from hscan.1]
      nofun
    rw [if_pos hscan, dif_pos (by omega)]
    exact (if_pos hscan).symm
  · rw [if_neg hscan]
    exact (if_neg hscan).symm

namespace Machine

/-- The row that a step draws. -/
def rowDrawn? (m : Machine) : Option (Fin 144) :=
  match m.cpu.step m.bus with
  | .error _ => none
  | .ok o => o.bus.video.rowDrawn? (UInt32.ofNat (ticksPerCycle * o.cycles))

/-- For each picture that the next `n` steps complete, the rows drawn since the one before it.
Before these steps `rows` have been drawn. -/
def picturesFrom (rows : List (Fin 144)) : Nat → Machine → List (List (Fin 144))
  | 0, _ => []
  | n + 1, m =>
    match m.step with
    | .error _ => []
    | .ok (next, s) =>
      let rows := rows ++ m.rowDrawn?.toList
      if s.frameComplete then rows :: picturesFrom [] n next else picturesFrom rows n next

def pictures (n : Nat) (m : Machine) : List (List (Fin 144)) := picturesFrom [] n m

/-- What a step does to the video unit, and the row that it draws. -/
theorem video_of_step {m m' : Machine} {s : Step} (h : m.step = .ok (m', s)) :
    ∃ v ticks, m.bus.video.Poked v ∧ ticks.toNat = 4 * s.cycles ∧
      m.rowDrawn? = v.rowDrawn? ticks ∧ m'.bus.video = (v.tick ticks).1 := by
  have hcycles := (stepped_of_step h).cycles_le
  unfold step at h
  unfold rowDrawn?
  cases hc : m.cpu.step m.bus with
  | error fault => rw [hc] at h; cases h
  | ok o =>
    rw [hc] at h
    cases h
    exact ⟨o.bus.video, _, (Cpu.touched_step hc).video, toNat_ticks hcycles, rfl, rfl⟩

/-- **A step paints the row that it draws**, and where it draws none it leaves the picture alone. -/
theorem frame_step {m m' : Machine} {s : Step} (h : m.step = .ok (m', s)) :
    ∃ shades, m'.bus.video.frame =
      match m.rowDrawn? with
      | none => m.bus.video.frame
      | some y => m.bus.video.frame.drawRow y shades := by
  obtain ⟨v, ticks, hpoked, -, hrow, hvideo⟩ := video_of_step h
  refine ⟨v.atDrawing.lineShades, ?_⟩
  rw [hvideo, Video.frame_tick, ← hrow, hpoked.frame_eq]

theorem map_rowDrawn? {m m' : Machine} {s : Step} (hr : m.phase.Regular)
    (h : m.step = .ok (m', s)) :
    m.rowDrawn?.map Fin.val = m.phase.row? (4 * s.cycles) := by
  obtain ⟨v, ticks, hpoked, hticks, hrow, -⟩ := video_of_step h
  have hphase : v.phase = m.phase := hpoked.phase_eq
  rw [hrow, Video.map_rowDrawn? (by rw [hphase]; exact hr), hphase, hticks]

theorem regular_step {m m' : Machine} {s : Step} (hr : m.phase.Regular)
    (h : m.step = .ok (m', s)) : m'.phase.Regular := by
  have ht := hr.tick (4 * s.cycles)
  rw [← phase_step h] at ht
  exact ht

theorem regular_reset (m : Machine) : m.reset.phase.Regular := (video_reset m).regular

/-- **Each picture has its rows in order, but for the last one.** -/
theorem picturesFrom_rows (n : Nat) {m : Machine} {rows : List (Fin 144)}
    (hr : m.phase.Regular) (hrows : rows.map Fin.val = List.range m.phase.drawn) :
    ∀ picture ∈ picturesFrom rows n m, picture.map Fin.val = List.range 143 := by
  induction n generalizing m rows with
  | zero => exact fun _ hp => absurd hp (List.not_mem_nil)
  | succ n ih =>
    intro picture hp
    unfold picturesFrom at hp
    cases hs : m.step with
    | error fault => rw [hs] at hp; cases hp
    | ok r =>
      obtain ⟨m', s⟩ := r
      have hr' := regular_step hr hs
      have hdrawn := hr.drawn_tick (4 * s.cycles)
      rw [← phase_step hs] at hdrawn
      have hmap : (rows ++ m.rowDrawn?.toList).map Fin.val =
          List.range m.phase.drawn ++ (m.phase.row? (4 * s.cycles)).toList := by
        rw [← map_rowDrawn? hr hs, List.map_append, hrows]
        cases m.rowDrawn? <;> rfl
      simp only [hs] at hp
      by_cases hcomplete : s.frameComplete = true
      · rw [if_pos hcomplete] at hdrawn hp
        obtain ⟨hall, hnone, hnew⟩ := hdrawn
        rcases List.mem_cons.1 hp with rfl | hp
        · rw [hmap, hall, hnone, Option.toList_none, List.append_nil]
        · exact ih hr' (by rw [hnew]; rfl) picture hp
      · rw [if_neg hcomplete] at hdrawn hp
        exact ih hr' (hmap.trans hdrawn) picture hp

/-- A run that is never refused completes a picture. -/
theorem picturesFrom_ne_nil (n : Nat) {m : Machine} {rows : List (Fin 144)}
    (hr : m.phase.Regular) (hn : m.phase.stepsToBlank ≤ n) (hrun : (m.run n).fault = none) :
    picturesFrom rows n m ≠ [] := by
  induction n generalizing m rows with
  | zero =>
    have hclock := hr.clock
    simp only [Phase.stepsToBlank] at hn
    omega
  | succ n ih =>
    unfold picturesFrom
    cases hs : m.step with
    | error fault =>
      rw [run, runFrom, hs] at hrun
      cases hrun
    | ok r =>
      obtain ⟨m', s⟩ := r
      rw [(run_succ hs n).2] at hrun
      have hticks : 4 ≤ 4 * s.cycles := by
        have := (stepped_of_step hs).cycles_pos
        omega
      have hcloser := hr.stepsToBlank_tick hticks
      rw [← phase_step hs] at hcloser
      simp only
      by_cases hcomplete : s.frameComplete = true
      · rw [if_pos hcomplete]
        exact List.cons_ne_nil _ _
      · rw [if_neg hcomplete]
        have hless : m'.phase.stepsToBlank < m.phase.stepsToBlank :=
          hcloser.resolve_left hcomplete
        exact ih (regular_step hr hs) (by omega) hrun

/-! ## The last row -/

theorem lastRow_step {m m' : Machine} {s : Step} (hr : m.phase.Regular)
    (h : m.step = .ok (m', s)) (px : Fin 160) :
    m'.bus.video.frame.pixel 143 px = m.bus.video.frame.pixel 143 px := by
  have hmap := map_rowDrawn? hr h
  obtain ⟨shades, hframe⟩ := frame_step h
  rw [hframe]
  cases hd : m.rowDrawn? with
  | none => rfl
  | some y =>
    rw [hd, Option.map_some] at hmap
    have hlt := hr.row?_lt hmap.symm
    have hne : (143 : Fin 144) ≠ y := by
      rintro rfl
      exact absurd hlt (by decide)
    exact (Frame.pixel_drawRow _ _ _ _ _).trans (if_neg hne)

theorem frame_reset (m : Machine) : m.reset.bus.video.frame = Frame.white := by
  unfold reset
  simp only
  split <;> rfl

/-- **A picture that is reported complete lacks its last row.**  In a run from a reset, whatever the
program, each picture has had rows 0 to 142 drawn since the one before it, each of them once and in
this order; the last row is never drawn and stays white. -/
theorem pictures_reset (m : Machine) (n : Nat) :
    (∀ rows ∈ pictures n m.reset, rows.map Fin.val = List.range 143) ∧
      ∀ px, (m.reset.run n).machine.bus.video.frame.pixel 143 px = [0xFF, 0xFF, 0xFF, 0xFF] := by
  have hr := regular_reset m
  constructor
  · exact picturesFrom_rows n hr (by rw [phase_reset]; rfl)
  · intro px
    have hwhite : m.reset.bus.video.frame.pixel 143 px = [0xFF, 0xFF, 0xFF, 0xFF] := by
      rw [frame_reset]
      simp [Frame.pixel, Frame.white, Memory.getElem_filled]
    have hrun := run_induction
      (P := fun k => k.phase.Regular ∧
        k.bus.video.frame.pixel 143 px = [0xFF, 0xFF, 0xFF, 0xFF])
      (fun hk hs => ⟨regular_step hk.1 hs, (lastRow_step hk.1 hs px).trans hk.2⟩)
      ⟨hr, hwhite⟩ n
    exact hrun.2

/-! ## A picture -/

/-- **A picture is reported complete without all of its rows.** -/
theorem picture_without_lastRow :
    ∃ rows ∈ pictures 16302 endlessLoop.reset, rows ≠ List.finRange 144 := by
  have hr := regular_reset endlessLoop
  have hsteps : endlessLoop.reset.phase.stepsToBlank ≤ 16302 := by
    rw [phase_reset]
    decide
  have hsome : pictures 16302 endlessLoop.reset ≠ [] :=
    picturesFrom_ne_nil _ hr hsteps (looping_endlessLoop.run _)
  obtain ⟨rows, hrows⟩ := List.exists_mem_of_ne_nil _ hsome
  refine ⟨rows, hrows, ?_⟩
  intro hall
  have hmap := picturesFrom_rows _ hr (by rw [phase_reset]; rfl) rows hrows
  have hlength := congrArg List.length hmap
  rw [hall, List.length_map, List.length_finRange, List.length_range] at hlength
  omega

end Machine

end DotMatrix
