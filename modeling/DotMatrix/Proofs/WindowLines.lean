import DotMatrix.Proofs.Picture
import DotMatrix.Proofs.Runs
import DotMatrix.Proofs.SpriteLayer
import Mathlib.Data.List.Basic

/-!
# The lines of the window

The window counts its lines by itself: it goes on with each line on which it is shown, and begins again
when a frame begins.  So a program that takes the window away for some lines loses none of its rows.

* `Machine.drawing?` — the video unit at the moment at which a step draws a line.
* `Machine.BeginsFrame` — machines after a reset, or after the step that left the vertical blank.
* `Machine.Course` — what can follow, with the lines drawn in the frame so far; `Machine.follow` — what does
  follow, with these lines.
* `Machine.Tallied` — the invariant: the lines drawn so far agree with the counter, and are those of the
  picture.

Principal results: `Machine.Tallied.step` — steps keep the invariant; `Machine.window_rows` — at every
moment of a frame the counter is the number of lines on which the window was shown, and the k-th of them
shows row k of the window, in the picture too where no sprite lies over it.
-/

set_option autoImplicit false

namespace DotMatrix

/-! ## Drawing and counting -/

namespace Video

variable {v w : Video} {ticks : UInt32}

/-- The video unit at the moment at which it draws a line, if it does so while ticks pass. -/
def drawing? (v : Video) (ticks : UInt32) : Option Video :=
  (v.rowDrawn? ticks).map fun _ => v.atDrawing

/-- The lines on which the window was shown. -/
def windowLines (lines : List Video) : List Video := lines.filter fun v => decide v.WindowShown

theorem windowLines_append (lines : List Video) (v : Video) :
    windowLines (lines ++ [v]) = windowLines lines ++ if v.WindowShown then [v] else [] := by
  unfold windowLines
  rw [List.filter_append, List.filter_cons, List.filter_nil]
  simp only [decide_eq_true_eq]

/-- Whoever draws is at the end of its scan of video memory, on a line of the picture. -/
theorem drawing?_eq_some (h : v.drawing? ticks = some w) :
    w = v.atDrawing ∧ v.regs.mode = .vramScan ∧
      v.regs.mode.duration ≤ (advanceClock v.clock ticks).toNat ∧ v.regs.ly.toNat < 144 := by
  unfold drawing? rowDrawn? at h
  split at h
  · rename_i hscan
    split at h
    · rename_i hline
      cases h
      exact ⟨rfl, hscan.1, hscan.2, hline⟩
    · cases h
  · cases h

theorem map_drawing? (v : Video) (ticks : UInt32) :
    (v.drawing? ticks).map (fun w => w.regs.ly.toNat) = (v.rowDrawn? ticks).map Fin.val := by
  unfold drawing? rowDrawn?
  split
  · split <;> rfl
  · rfl

/-- **What time does to a video unit that draws is drawing**, with the registers of that moment. -/
theorem tick_of_drawing (h : v.drawing? ticks = some w) : (v.tick ticks).1 = w.drawLine := by
  obtain ⟨rfl, hmode, hover, -⟩ := drawing?_eq_some h
  unfold tick nextMode
  simp only
  rw [if_pos hover, hmode]
  rfl

theorem windowLine_drawLine (h : v.regs.ly.toNat < 144) :
    v.drawLine.windowLine = if v.WindowShown then v.windowLine + 1 else v.windowLine := by
  rw [drawLine, dif_pos h]
  simp only [← windowShows_iff]

/-- Without drawing the counter stands still, unless the vertical blank is left. -/
theorem windowLine_tick (h : v.drawing? ticks = none)
    (hr : ¬ (v.regs.mode = .vblank ∧ (v.tick ticks).1.regs.mode = .oamScan)) :
    (v.tick ticks).1.windowLine = v.windowLine := by
  unfold drawing? rowDrawn? at h
  unfold tick nextMode at hr ⊢
  simp only at hr ⊢
  by_cases hover : v.regs.mode.duration ≤ (advanceClock v.clock ticks).toNat
  · rw [if_pos hover] at hr ⊢
    cases hmode : v.regs.mode with
    | oamScan => rfl
    | vramScan =>
      have hline : ¬ v.regs.ly.toNat < 144 := by
        intro hline
        rw [if_pos ⟨hmode, hover⟩, dif_pos hline] at h
        cases h
      simp only [drawLine]
      rw [dif_neg (show ¬ (v.regs.setMode .hblank).ly.toNat < 144 from hline)]
    | hblank =>
      simp only
      split <;> rfl
    | vblank =>
      rw [hmode] at hr
      simp only at hr ⊢
      split at hr
      · exact absurd ⟨trivial, Registers.mode_setMode _ _⟩ hr
      · rw [if_neg ‹_›]
  · rw [if_neg hover]

/-- The counter begins again where the vertical blank is left. -/
theorem windowLine_restart (hmode : v.regs.mode = .vblank)
    (hnext : (v.tick ticks).1.regs.mode = .oamScan) : (v.tick ticks).1.windowLine = 0 := by
  unfold tick nextMode at hnext ⊢
  simp only [hmode] at hnext ⊢
  split
  · rw [if_pos ‹_›] at hnext
    split
    · rfl
    · rw [if_neg ‹_›, Registers.mode_setLine, hmode] at hnext
      cases hnext
  · rw [if_neg ‹_›, hmode] at hnext
    cases hnext

theorem Poked.windowLine_eq (h : v.Poked w) : w.windowLine = v.windowLine := by
  have hh := h.hidden_eq
  simp only [hidden, Prod.mk.injEq] at hh
  exact hh.2.2.2.1

theorem Coherent.drawing (hv : v.Coherent) (h : v.drawing? ticks = some w) : w.Coherent := by
  obtain ⟨rfl, -⟩ := drawing?_eq_some h
  exact hv

/-- On a line that shows the window, its columns have the row that the counter says. -/
theorem layerShade_inWindow {px : Fin 160} (h : v.InWindow px) :
    v.layerShade px =
      Palette.shade v.regs.bgp (v.mapColor (v.regs.lcdc.toNat.testBit 6) (px.val - v.windowLeft)
        v.windowLine.toNat) := by
  rw [layerShade, layerColor, if_pos h, if_pos (.inl h)]

theorem backdropRow_inWindow (hv : v.Coherent) {px : Fin 160} (h : v.InWindow px) :
    v.backdropRow.get px =
      v.pixelOf (v.mapColor (v.regs.lcdc.toNat.testBit 6) (px.val - v.windowLeft)
        v.windowLine.toNat) := by
  rw [get_backdropRow hv, layerShade_inWindow h, layerColor, if_pos h]
  rfl

end Video

/-! ## Phases -/

namespace Phase

variable {p : Phase}

/-- Lines of the frame that have been drawn; in the vertical blank these are all that are drawn. -/
def passed (p : Phase) : Nat := if p.mode = .vblank then 143 else p.drawn

theorem Regular.passed_le (h : p.Regular) : p.passed ≤ 143 := by
  obtain ⟨mode, line, clock⟩ := p
  have hline := h.blank
  simp only at hline
  cases mode with
  | vblank => exact Nat.le_refl 143
  | _ =>
    have hle := hline.resolve_left (by decide)
    simp only [passed, drawn, reduceCtorEq, if_false]
    omega

/-- The vertical blank lasts, or is left for the first line. -/
theorem Regular.tick_of_vblank (h : p.Regular) (hmode : p.mode = .vblank) (ticks : Nat) :
    (p.tick ticks).1.mode = .vblank ∨ (p.tick ticks).1 = ⟨.oamScan, 0, 0⟩ := by
  obtain ⟨hedge, -⟩ := h.edge_tick ticks
  split at hedge
  · rw [hedge]
    exact .inl hmode
  · generalize (p.tick ticks).1 = q at hedge ⊢
    cases hedge with
    | nextBlankLine line clock hlt => exact .inl rfl
    | restarted clock => exact .inr rfl
    | _ => cases hmode

/-- The vertical blank begins only with a complete picture. -/
theorem Regular.tick_ne_vblank (h : p.Regular) (hmode : p.mode ≠ .vblank) {ticks : Nat}
    (hflag : ¬ (p.tick ticks).2 = true) : (p.tick ticks).1.mode ≠ .vblank := by
  intro hblank
  obtain ⟨hedge, hcomplete⟩ := h.edge_tick ticks
  apply hflag
  split at hedge
  · rw [hedge] at hblank
    exact absurd hblank hmode
  · rw [hcomplete]
    generalize (p.tick ticks).1 = q at hedge hblank ⊢
    cases hedge with
    | blanked clock => exact ⟨rfl, rfl, rfl, rfl⟩
    | nextBlankLine line clock hlt => exact absurd rfl hmode
    | _ => cases hblank

/-- Within a frame the lines are drawn in their order, each of them once. -/
theorem Regular.passed_tick (h : p.Regular) (ticks : Nat)
    (hsame : ¬ (p.mode = .vblank ∧ (p.tick ticks).1.mode = .oamScan)) :
    List.range p.passed ++ (p.row? ticks).toList = List.range (p.tick ticks).1.passed := by
  have hdrawn := h.drawn_tick ticks
  by_cases hmode : p.mode = .vblank
  · have hrow : p.row? ticks = none := by
      rw [row?, if_neg]
      rintro ⟨hscan, -⟩
      rw [hmode] at hscan
      cases hscan
    have hstays : (p.tick ticks).1.mode = .vblank := by
      rcases h.tick_of_vblank hmode ticks with hstays | hleft
      · exact hstays
      · exact absurd ⟨hmode, by rw [hleft]⟩ hsame
    rw [hrow, passed, if_pos hmode, passed, if_pos hstays, Option.toList_none, List.append_nil]
  · by_cases hflag : (p.tick ticks).2 = true
    · -- the last line has been drawn, and the vertical blank begins
      rw [if_pos hflag] at hdrawn
      obtain ⟨hall, hnone, -⟩ := hdrawn
      have hblank := ((h.edge_tick ticks).2.1 hflag).2.2.1
      rw [passed, if_neg hmode, hall, hnone, passed, if_pos hblank, Option.toList_none,
        List.append_nil]
    · rw [if_neg hflag] at hdrawn
      rw [passed, if_neg hmode, passed, if_neg (h.tick_ne_vblank hmode hflag)]
      exact hdrawn

end Phase

/-! ## Frames -/

namespace Machine

/-- The video unit at the moment at which a step draws a line, if it draws one. -/
def drawing? (m : Machine) : Option Video :=
  match m.cpu.step m.bus with
  | .error _ => none
  | .ok o => o.bus.video.drawing? (UInt32.ofNat (ticksPerCycle * o.cycles))

/-- The vertical blank is left for a new frame. -/
def Restarts (m m' : Machine) : Prop := m.phase.mode = .vblank ∧ m'.phase.mode = .oamScan

/-- Machines that begin a frame: after a reset, or when the vertical blank has just been left. -/
inductive BeginsFrame : Machine → Prop
  | reset (m : Machine) : BeginsFrame m.reset
  | restart {m m' : Machine} {s : Step} (h : Reachable m) (hs : m.step = .ok (m', s))
    (hr : m.Restarts m') : BeginsFrame m'

/-- What follows a machine that begins a frame, through steps and calls between them, with the lines that
have been drawn in the current frame. -/
inductive Course (start : Machine) : List Video → Machine → Prop
  | start : Course start [] start
  | call {lines : List Video} {m : Machine} (h : Course start lines m) (c : HostCall)
    (hc : c.Timeless) : Course start lines (m.perform c)
  | step {lines : List Video} {m m' : Machine} {s : Step} (h : Course start lines m)
    (hs : m.step = .ok (m', s)) (hr : ¬ m.Restarts m') :
    Course start (lines ++ m.drawing?.toList) m'
  | restart {lines : List Video} {m m' : Machine} {s : Step} (h : Course start lines m)
    (hs : m.step = .ok (m', s)) (hr : m.Restarts m') : Course start [] m'

variable {start m m' : Machine} {s : Step} {lines : List Video}

/-- What a step does to the video unit, and the line that it draws. -/
theorem drawing_of_step (h : m.step = .ok (m', s)) :
    ∃ v ticks, m.bus.video.Poked v ∧ m.drawing? = v.drawing? ticks ∧
      m.rowDrawn? = v.rowDrawn? ticks ∧ m'.bus.video = (v.tick ticks).1 := by
  unfold step at h
  unfold drawing? rowDrawn?
  cases hc : m.cpu.step m.bus with
  | error fault => rw [hc] at h; cases h
  | ok o =>
    rw [hc] at h
    cases h
    exact ⟨o.bus.video, _, (Cpu.touched_step hc).video, rfl, rfl, rfl⟩

theorem windowLine_reset (m : Machine) : m.reset.bus.video.windowLine = 0 := by
  unfold reset
  simp only
  split <;> rfl

/-- A step that draws no line leaves the counter alone, unless the vertical blank is left. -/
theorem windowLine_of_none (hs : m.step = .ok (m', s)) (hd : m.drawing? = none)
    (hr : ¬ m.Restarts m') : m'.bus.video.windowLine = m.bus.video.windowLine := by
  obtain ⟨v, ticks, hpoked, hdrawing, -, hvideo⟩ := drawing_of_step hs
  have hmode : v.regs.mode = m.phase.mode := congrArg Phase.mode hpoked.phase_eq
  rw [hvideo, Video.windowLine_tick (hdrawing.symm.trans hd), hpoked.windowLine_eq]
  rw [hmode, ← hvideo]
  exact hr

/-- A step that draws no line leaves the picture alone. -/
theorem frame_of_none (hs : m.step = .ok (m', s)) (hd : m.drawing? = none) :
    m'.bus.video.frame = m.bus.video.frame := by
  obtain ⟨v, ticks, hpoked, hdrawing, -, hvideo⟩ := drawing_of_step hs
  rw [hdrawing, Video.drawing?, Option.map_eq_none_iff] at hd
  rw [hvideo, Video.frame_tick, hd, hpoked.frame_eq]

/-- The line that a step draws has picture and counter as they were, and what is left is that line drawn. -/
theorem video_of_some {w : Video} (hs : m.step = .ok (m', s)) (hd : m.drawing? = some w) :
    m'.bus.video = w.drawLine ∧ w.frame = m.bus.video.frame ∧
      w.windowLine = m.bus.video.windowLine ∧ w.regs.ly.toNat < 144 := by
  obtain ⟨v, ticks, hpoked, hdrawing, -, hvideo⟩ := drawing_of_step hs
  have hdraws : v.drawing? ticks = some w := hdrawing.symm.trans hd
  obtain ⟨rfl, -, -, hline⟩ := Video.drawing?_eq_some hdraws
  exact ⟨hvideo.trans (Video.tick_of_drawing hdraws), hpoked.frame_eq, hpoked.windowLine_eq, hline⟩

/-- It moves the counter on if the window is shown. -/
theorem windowLine_of_some {w : Video} (hs : m.step = .ok (m', s)) (hd : m.drawing? = some w) :
    m'.bus.video.windowLine = if w.WindowShown then w.windowLine + 1 else w.windowLine := by
  obtain ⟨hvideo, -, -, hline⟩ := video_of_some hs hd
  rw [hvideo]
  exact Video.windowLine_drawLine hline

/-- It paints its own row of the picture. -/
theorem pixel_of_some {w : Video} (hs : m.step = .ok (m', s)) (hd : m.drawing? = some w)
    (y : Fin 144) (px : Fin 160) :
    m'.bus.video.frame.pixel y px =
      if y.val = w.regs.ly.toNat then Frame.shadeBytes (w.lineShades.get px)
      else m.bus.video.frame.pixel y px := by
  obtain ⟨hvideo, hframe, -, -⟩ := video_of_some hs hd
  rw [hvideo, Video.pixel_drawLine, hframe]

theorem coherent_of_some {w : Video} (hm : m.Intact) (hs : m.step = .ok (m', s))
    (hd : m.drawing? = some w) : w.Coherent := by
  obtain ⟨v, ticks, hpoked, hdrawing, -, -⟩ := drawing_of_step hs
  exact (hpoked.coherent hm.tiles).drawing (hdrawing.symm.trans hd)

/-- The line that a step draws is the next one. -/
theorem range_passed_step (hregular : m.phase.Regular) (hs : m.step = .ok (m', s))
    (hr : ¬ m.Restarts m') :
    List.range m.phase.passed ++ (m.drawing?.map fun w => w.regs.ly.toNat).toList =
      List.range m'.phase.passed := by
  obtain ⟨v, ticks, -, hdrawing, hrow, -⟩ := drawing_of_step hs
  have hmap : (m.drawing?.map fun w => w.regs.ly.toNat) = m.phase.row? (4 * s.cycles) := by
    rw [hdrawing, Video.map_drawing?, ← hrow]
    exact map_rowDrawn? hregular hs
  have hnext := (phase_eq_of_step hs).1
  rw [hmap, hnext]
  refine hregular.passed_tick _ ?_
  rw [← hnext]
  exact hr

/-! ## The invariant -/

/-- The lines drawn so far agree with the counter of the window, and are those of the picture. -/
structure Tallied (lines : List Video) (m : Machine) : Prop where
  intact : m.Intact
  regular : m.phase.Regular
  coherent : ∀ v ∈ lines, v.Coherent
  rows : lines.map (fun v => v.regs.ly.toNat) = List.range m.phase.passed
  counted : (Video.windowLines lines).map (fun v => v.windowLine.toNat) =
    List.range m.bus.video.windowLine.toNat
  painted : ∀ v ∈ lines, ∀ (y : Fin 144) (px : Fin 160), y.val = v.regs.ly.toNat →
    m.bus.video.frame.pixel y px = Frame.shadeBytes (v.lineShades.get px)

theorem Tallied.length_windowLines (h : Tallied lines m) :
    (Video.windowLines lines).length = m.bus.video.windowLine.toNat := by
  have hlength := congrArg List.length h.counted
  rwa [List.length_map, List.length_range] at hlength

/-- There are at most as many lines with a window as lines. -/
theorem Tallied.windowLine_le (h : Tallied lines m) : m.bus.video.windowLine.toNat ≤ 143 := by
  have hlines : lines.length = m.phase.passed := by
    have hlength := congrArg List.length h.rows
    rwa [List.length_map, List.length_range] at hlength
  have hfilter : (Video.windowLines lines).length ≤ lines.length := List.length_filter_le _ _
  have hpassed := h.regular.passed_le
  have hcounted := h.length_windowLines
  omega

theorem tallied_nil (hintact : m.Intact) (hphase : m.phase = ⟨.oamScan, 0, 0⟩)
    (hline : m.bus.video.windowLine = 0) : Tallied [] m := by
  refine ⟨hintact, ?_, nofun, ?_, ?_, nofun⟩
  · rw [hphase]
    exact ⟨⟨by decide, by decide, .inr (by decide)⟩, nofun⟩
  · rw [hphase]
    rfl
  · rw [hline]
    rfl

/-- A line counts if the window is shown on it; the counter has room for it. -/
theorem Tallied.counted_concat (h : Tallied lines m) {w : Video}
    (hw : w.windowLine = m.bus.video.windowLine) :
    (Video.windowLines (lines ++ [w])).map (fun v => v.windowLine.toNat) =
      List.range (if w.WindowShown then w.windowLine + 1 else w.windowLine).toNat := by
  have hbound := h.windowLine_le
  rw [Video.windowLines_append, hw]
  by_cases hshown : w.WindowShown
  · have hsucc : (m.bus.video.windowLine + 1).toNat = m.bus.video.windowLine.toNat + 1 := by
      rw [UInt8.toNat_add]
      exact Nat.mod_eq_of_lt (by simp; omega)
    rw [if_pos hshown, if_pos hshown, List.map_append, h.counted, hsucc, List.range_succ,
      List.map_singleton, hw]
  · rw [if_neg hshown, if_neg hshown, List.append_nil, h.counted]

/-- No line is drawn twice. -/
theorem Tallied.ly_ne (h : Tallied lines m) (hs : m.step = .ok (m', s)) (hr : ¬ m.Restarts m')
    {v w : Video} (hv : v ∈ lines) (hd : m.drawing? = some w) :
    v.regs.ly.toNat ≠ w.regs.ly.toNat := by
  have hrows := range_passed_step h.regular hs hr
  rw [hd, Option.map_some, Option.toList_some, ← h.rows] at hrows
  have hnodup := List.nodup_range (n := m'.phase.passed)
  rw [← hrows, List.nodup_append] at hnodup
  exact hnodup.2.2 _ (List.mem_map_of_mem hv) _ (List.mem_singleton_self _)

/-- The row of a new line is painted, and the rows of the others stay as they are. -/
theorem Tallied.painted_concat (h : Tallied lines m) (hs : m.step = .ok (m', s))
    (hr : ¬ m.Restarts m') {w : Video} (hd : m.drawing? = some w) {v : Video}
    (hv : v ∈ lines ++ [w]) (y : Fin 144) (px : Fin 160) (hy : y.val = v.regs.ly.toNat) :
    m'.bus.video.frame.pixel y px = Frame.shadeBytes (v.lineShades.get px) := by
  rw [pixel_of_some hs hd]
  rcases List.mem_append.1 hv with hv | hv
  · rw [if_neg (by rw [hy]; exact h.ly_ne hs hr hv hd)]
    exact h.painted v hv y px hy
  · obtain rfl := List.mem_singleton.1 hv
    rw [if_pos hy]

/-- **A step counts the line that it draws**, if the window is shown on it, and paints it over no other. -/
theorem Tallied.step (h : Tallied lines m) (hs : m.step = .ok (m', s)) (hr : ¬ m.Restarts m') :
    Tallied (lines ++ m.drawing?.toList) m' := by
  have hintact := h.intact.step hs
  have hregular := regular_step h.regular hs
  have hrows := range_passed_step h.regular hs hr
  cases hd : m.drawing? with
  | none =>
    rw [hd, Option.map_none, Option.toList_none, List.append_nil] at hrows
    rw [Option.toList_none, List.append_nil]
    refine ⟨hintact, hregular, h.coherent, h.rows.trans hrows, ?_, ?_⟩
    · rw [windowLine_of_none hs hd hr]
      exact h.counted
    · rw [frame_of_none hs hd]
      exact h.painted
  | some w =>
    obtain ⟨-, -, hcounter, -⟩ := video_of_some hs hd
    rw [hd, Option.map_some, Option.toList_some] at hrows
    rw [Option.toList_some]
    refine ⟨hintact, hregular, ?_, ?_, ?_, fun v hv => h.painted_concat hs hr hd hv⟩
    · intro v hv
      rcases List.mem_append.1 hv with hv | hv
      · exact h.coherent v hv
      · rw [List.mem_singleton.1 hv]
        exact coherent_of_some h.intact hs hd
    · rw [List.map_append, h.rows, List.map_singleton]
      exact hrows
    · rw [windowLine_of_some hs hd]
      exact h.counted_concat hcounter

theorem Tallied.still (h : Tallied lines m) (hintact : m'.Intact) (hphase : m'.phase = m.phase)
    (hline : m'.bus.video.windowLine = m.bus.video.windowLine)
    (hframe : m'.bus.video.frame = m.bus.video.frame) : Tallied lines m' := by
  refine ⟨hintact, ?_, h.coherent, ?_, ?_, ?_⟩
  · rw [hphase]
    exact h.regular
  · rw [hphase]
    exact h.rows
  · rw [hline]
    exact h.counted
  · rw [hframe]
    exact h.painted

/-- A call without time leaves counter and picture alone. -/
theorem windowLine_perform (m : Machine) {c : HostCall} (hc : c.Timeless) :
    (m.perform c).bus.video.windowLine = m.bus.video.windowLine ∧
      (m.perform c).bus.video.frame = m.bus.video.frame := by
  rcases m.poked_perform hc with hpoked | hdecode
  · exact ⟨hpoked.windowLine_eq, hpoked.frame_eq⟩
  · rw [hdecode]
    exact ⟨Video.decodeTiles_windowLine _, Video.decodeTiles_frame _⟩

/-- A new frame has its first line before it, and a window that begins again. -/
theorem newFrame_of_restarts (hregular : m.phase.Regular) (hs : m.step = .ok (m', s))
    (hr : m.Restarts m') :
    m'.phase = ⟨.oamScan, 0, 0⟩ ∧ m'.bus.video.windowLine = 0 := by
  obtain ⟨hblank, hscan⟩ := hr
  constructor
  · rw [(phase_eq_of_step hs).1] at hscan ⊢
    rcases hregular.tick_of_vblank hblank (4 * s.cycles) with hstays | hleft
    · rw [hstays] at hscan
      cases hscan
    · exact hleft
  · obtain ⟨v, ticks, hpoked, -, -, hvideo⟩ := drawing_of_step hs
    have hmode : v.regs.mode = .vblank :=
      (congrArg Phase.mode hpoked.phase_eq).trans hblank
    rw [hvideo]
    refine Video.windowLine_restart hmode ?_
    rw [← hvideo]
    exact hscan

theorem BeginsFrame.tallied (h : m.BeginsFrame) : Tallied [] m := by
  cases h with
  | reset m => exact tallied_nil (intact_reset m) (phase_reset m) (windowLine_reset m)
  | restart hreachable hs hr =>
    obtain ⟨hphase, hline⟩ := newFrame_of_restarts hreachable.video.regular hs hr
    exact tallied_nil (hreachable.intact.step hs) hphase hline

/-- The invariant of a run. -/
theorem Course.tallied (h : start.Course lines m) (hstart : start.BeginsFrame) :
    Tallied lines m := by
  induction h with
  | start => exact hstart.tallied
  | @call _ m _ c hc ih =>
    obtain ⟨hline, hframe⟩ := windowLine_perform m hc
    exact ih.still (ih.intact.perform c) (still_perform m hc).phase hline hframe
  | step _ hs hr ih => exact ih.step hs hr
  | restart _ hs hr ih =>
    obtain ⟨hphase, hline⟩ := newFrame_of_restarts ih.regular hs hr
    exact tallied_nil (ih.intact.step hs) hphase hline

/-- **The window shows its rows without a gap.**  In a run that begins with a frame, whatever programs and
hosts write in between, at every moment the lines drawn in the frame so far are the first ones of the
picture, each of them once; the counter is the number of those that showed the window, at most 143; and the
k-th of these had row k of the map in every column of the window, and shows it in the picture wherever no
sprite can lie over it.  A step draws a line as a whole, with the registers of that moment, or leaves the
picture alone, and when it begins a frame the window begins again. -/
theorem window_rows (hstart : start.BeginsFrame) (h : start.Course lines m) :
    lines.map (fun v => v.regs.ly.toNat) = List.range m.phase.passed ∧
      m.bus.video.windowLine.toNat = (Video.windowLines lines).length ∧
      m.bus.video.windowLine.toNat ≤ 143 ∧
      (∀ (k : Nat) (v : Video), (Video.windowLines lines)[k]? = some v →
        v.windowLine.toNat = k ∧ ∀ px, v.InWindow px →
          v.backdropRow.get px =
            v.pixelOf (v.mapColor (v.regs.lcdc.toNat.testBit 6) (px.val - v.windowLeft) k) ∧
          (v.regs.lcdc.toNat.testBit 1 = false ∨ (∀ i, ¬ v.Contends i px) →
            ∀ y : Fin 144, y.val = v.regs.ly.toNat →
              m.bus.video.frame.pixel y px =
                Frame.shadeBytes (Palette.shade v.regs.bgp
                  (v.mapColor (v.regs.lcdc.toNat.testBit 6) (px.val - v.windowLeft) k)))) ∧
      ∀ m' s, m.step = .ok (m', s) →
        (∀ v, m.drawing? = some v → m'.bus.video = v.drawLine) ∧
          (m.drawing? = none → m'.bus.video.frame = m.bus.video.frame) ∧
          (m.Restarts m' → m'.phase = ⟨.oamScan, 0, 0⟩ ∧ m'.bus.video.windowLine = 0) := by
  have htallied := h.tallied hstart
  refine ⟨htallied.rows, htallied.length_windowLines.symm, htallied.windowLine_le, ?_, ?_⟩
  · intro k v hk
    have hcounted := congrArg (fun l => l[k]?) htallied.counted
    obtain ⟨hlt, -⟩ := List.getElem?_eq_some_iff.1 hk
    rw [htallied.length_windowLines] at hlt
    simp only [List.getElem?_map, hk, Option.map_some, List.getElem?_range hlt,
      Option.some.injEq] at hcounted
    have hmem : v ∈ lines := (List.mem_filter.1 (List.mem_of_getElem? hk)).1
    have hv := htallied.coherent v hmem
    refine ⟨hcounted, ?_⟩
    intro px hpx
    refine ⟨by rw [Video.backdropRow_inWindow hv hpx, hcounted], ?_⟩
    intro hbare y hy
    have hshade : v.lineShades.get px = v.layerShade px :=
      hbare.elim (fun hoff => Video.get_lineShades_of_off hv hoff px)
        (Video.get_lineShades_of_not_contends hv)
    rw [htallied.painted v hmem y px hy, hshade, Video.layerShade_inWindow hpx, hcounted]
  · intro m' s hs
    exact ⟨fun _ hd => (video_of_some hs hd).1, frame_of_none hs,
      newFrame_of_restarts htallied.regular hs⟩

/-! ## A window that is taken away -/

instance (m m' : Machine) : Decidable (m.Restarts m') := inferInstanceAs (Decidable (_ ∧ _))

/-- What follows in up to `n` steps, with the lines drawn in the current frame. -/
def follow : Nat → List Video × Machine → List Video × Machine
  | 0, r => r
  | n + 1, (lines, m) =>
    match m.step with
    | .error _ => (lines, m)
    | .ok (next, _) =>
      follow n (if m.Restarts next then [] else lines ++ m.drawing?.toList, next)

theorem Course.follow (h : start.Course lines m) (n : Nat) :
    start.Course (follow n (lines, m)).1 (follow n (lines, m)).2 := by
  induction n generalizing lines m with
  | zero => exact h
  | succ n ih =>
    unfold Machine.follow
    split
    · exact h
    · rename_i next s hs
      by_cases hr : m.Restarts next
      · rw [if_pos hr]
        exact ih (h.restart hs hr)
      · rw [if_neg hr]
        exact ih (h.step hs hr)

/-- The same after a write to the control register, which takes the window away or gives it back. -/
def drawWith (control : UInt8) (steps : Nat) (r : List Video × Machine) : List Video × Machine :=
  follow steps (r.1, r.2.perform (.write 0xFF40 control))

theorem Course.drawWith {r : List Video × Machine} (h : start.Course r.1 r.2) (control : UInt8)
    (steps : Nat) : start.Course (drawWith control steps r).1 (drawWith control steps r).2 :=
  (h.call (.write 0xFF40 control) trivial).follow steps

/-- A machine whose boot program calls itself. -/
def callLoop : Machine := create { bootRom := some [0xCD, 0, 0] }

/-- It begins a frame with a window of tiles whose first row is white and whose second row is black. -/
def stripes : Machine :=
  ((callLoop.reset.perform (.write 0x8002 0xFF)).perform (.write 0x8003 0xFF)).perform
    (.write 0xFF47 0xE4)

/-- Three lines of it, the second without the window. -/
def threeLines : List Video × Machine :=
  drawWith 0x30 21 (drawWith 0x10 21 (drawWith 0x30 12 ([], stripes)))

/-- Of three lines the second has no window, and then the window goes on with its second row. -/
theorem window_rows_threeLines :
    callLoop.reset.BeginsFrame ∧ callLoop.reset.Course threeLines.1 threeLines.2 ∧
      threeLines.1.map (fun v => v.regs.ly.toNat) = [0, 1, 2] ∧
      (Video.windowLines threeLines.1).length = 2 ∧
      threeLines.2.bus.video.frame.pixel 0 0 = [0xFF, 0xFF, 0xFF, 0xFF] ∧
      threeLines.2.bus.video.frame.pixel 2 0 = [0, 0, 0, 0xFF] := by
  have hstart : callLoop.reset.BeginsFrame := .reset callLoop
  have hstripes : callLoop.reset.Course [] stripes :=
    ((Course.start.call (.write 0x8002 0xFF) trivial).call (.write 0x8003 0xFF) trivial).call
      (.write 0xFF47 0xE4) trivial
  have hcourse : callLoop.reset.Course threeLines.1 threeLines.2 :=
    ((Course.drawWith (r := ([], stripes)) hstripes 0x30 12).drawWith 0x10 21).drawWith 0x30 21
  obtain ⟨hrows, hcount, -, hlines, -⟩ := window_rows hstart hcourse
  have hphase : threeLines.2.phase.passed = 3 := by decide +kernel
  have hline : threeLines.2.bus.video.windowLine.toNat = 2 := by decide +kernel
  have hpixel : ∀ (k : Nat) (y : Fin 144) (shade : Shade),
      (∃ v ∈ (Video.windowLines threeLines.1)[k]?, v.InWindow 0 ∧
        v.regs.lcdc.toNat.testBit 1 = false ∧ y.val = v.regs.ly.toNat ∧
        Palette.shade v.regs.bgp (v.mapColor (v.regs.lcdc.toNat.testBit 6)
          ((0 : Fin 160).val - v.windowLeft) k) = shade) →
      threeLines.2.bus.video.frame.pixel y 0 = Frame.shadeBytes shade := by
    rintro k y shade ⟨v, hv, hpx, hoff, hy, hshade⟩
    rw [((hlines k v hv).2 0 hpx).2 (.inl hoff) y hy, hshade]
  have hfirst := hpixel 0 0 0 (by decide +kernel)
  have hsecond := hpixel 1 2 3 (by decide +kernel)
  rw [hphase] at hrows
  rw [hline] at hcount
  exact ⟨hstart, hcourse, hrows, hcount.symm, hfirst, hsecond⟩

end Machine

end DotMatrix
