import DotMatrix.Proofs.FrameTime

/-!
# Time that does not depend on the picture

Mode, line and clock of a video unit, and the moments at which its picture is complete, follow from the
ticks alone.  What its memories and registers hold, what is written to them between the ticks, and
whether the display is switched on, have no part in them.

* `Phase.beats` — the automaton of the phases run on amounts of ticks.
* `VideoCall.amounts` — the ticks among calls, with the writes left out.
* `Video.timeline` — what the ticks among calls report, each with the phase after it.

Principal results: `Video.timeline_eq` — the timeline is a run of the automaton, which knows nothing of
writes; `Video.timeline_independent` — two video units in the same phase have the same timeline.
-/

set_option autoImplicit false

namespace DotMatrix

/-- What some amounts of ticks, one after the other, report and lead to. -/
def Phase.beats (p : Phase) : List UInt32 → List (Bool × Phase)
  | [] => []
  | n :: rest => ((p.tick n.toNat).2, (p.tick n.toNat).1) :: (p.tick n.toNat).1.beats rest

/-- The phase after some amounts of ticks. -/
def Phase.after (p : Phase) (ticks : List UInt32) : Phase :=
  ticks.foldl (fun p n => (p.tick n.toNat).1) p

namespace VideoCall

/-- The ticks that a call lets pass, if it is not a write. -/
def amount? : VideoCall → Option UInt32
  | tick n => some n
  | _ => none

/-- The ticks that calls let pass, one amount for each call that is not a write. -/
def amounts (calls : List VideoCall) : List UInt32 := calls.filterMap amount?

end VideoCall

namespace Video

variable {v w : Video}

/-- What the calls that are not writes report, each with the phase that it leads to. -/
def timeline (v : Video) : List VideoCall → List (Bool × Phase)
  | [] => []
  | c :: calls =>
    let r := v.call c
    match c.amount? with
    | some _ => (r.2, r.1.phase) :: r.1.timeline calls
    | none => r.1.timeline calls

/-- A write, which no time passes during, does not move the phase. -/
theorem phase_call_of_write {c : VideoCall} (h : c.amount? = none) : (v.call c).1.phase = v.phase := by
  cases c with
  | tick n => cases h
  | memory addr b => exact (Poked.memory .refl _ b).phase_eq
  | sprites addr b => exact (Poked.sprites .refl _ b).phase_eq
  | register addr b => exact (Machine.writeAddr_poked v addr b).phase_eq

/-- Any other call moves the phase as the automaton says, and reports what it says. -/
theorem phase_call_of_tick {c : VideoCall} {n : UInt32} (h : c.amount? = some n) :
    (v.call c).1.phase = (v.phase.tick n.toNat).1 ∧ (v.call c).2 = (v.phase.tick n.toNat).2 := by
  cases c with
  | tick k =>
    cases h
    exact Prod.ext_iff.1 (v.phase_tick n)
  | _ => cases h

/-- **The timeline is a run of the automaton** on the ticks, which sees nothing of the writes. -/
theorem timeline_eq (v : Video) (calls : List VideoCall) :
    v.timeline calls = v.phase.beats (VideoCall.amounts calls) := by
  induction calls generalizing v with
  | nil => rfl
  | cons c calls ih =>
    cases hc : c.amount? with
    | none =>
      rw [timeline, hc, VideoCall.amounts, List.filterMap_cons_none hc]
      simp only
      rw [ih, phase_call_of_write hc, VideoCall.amounts]
    | some n =>
      obtain ⟨hphase, hreport⟩ := phase_call_of_tick (v := v) hc
      rw [timeline, hc, VideoCall.amounts, List.filterMap_cons_some hc]
      simp only [Phase.beats]
      rw [ih, hphase, hreport, VideoCall.amounts]

/-- The phase after calls is that of the automaton after the ticks among them. -/
theorem phase_play (v : Video) (calls : List VideoCall) :
    (v.play calls).1.phase = v.phase.after (VideoCall.amounts calls) := by
  induction calls generalizing v with
  | nil => rfl
  | cons c calls ih =>
    rw [play]
    simp only
    rw [ih]
    cases hc : c.amount? with
    | none =>
      rw [phase_call_of_write hc, VideoCall.amounts, VideoCall.amounts,
        List.filterMap_cons_none hc]
    | some n =>
      rw [(phase_call_of_tick hc).1, VideoCall.amounts, VideoCall.amounts,
        List.filterMap_cons_some hc]
      rfl

theorem phase_eq_iff :
    v.phase = w.phase ↔
      v.regs.ly = w.regs.ly ∧ v.regs.mode = w.regs.mode ∧ v.clock = w.clock := by
  rw [phase, phase, Phase.mk.injEq, UInt8.toNat_inj, UInt32.toNat_inj]
  exact and_left_comm

/-- **Time does not depend on the picture.**  Of two video units that agree on line, mode and clock, let
each be written to in its own way between the same ticks.  The ticks then report the completed pictures
alike and lead to the same phases, and after every call, be it a tick or a write, line, mode and clock
are those of the other one as soon as it has made the same ticks. -/
theorem timeline_independent (hline : v.regs.ly = w.regs.ly) (hmode : v.regs.mode = w.regs.mode)
    (hclock : v.clock = w.clock) {calls others : List VideoCall}
    (hticks : VideoCall.amounts calls = VideoCall.amounts others) :
    v.timeline calls = w.timeline others ∧
      ∀ i j, VideoCall.amounts (calls.take i) = VideoCall.amounts (others.take j) →
        (v.play (calls.take i)).1.regs.ly = (w.play (others.take j)).1.regs.ly ∧
          (v.play (calls.take i)).1.regs.mode = (w.play (others.take j)).1.regs.mode ∧
          (v.play (calls.take i)).1.clock = (w.play (others.take j)).1.clock := by
  have hphase : v.phase = w.phase := phase_eq_iff.2 ⟨hline, hmode, hclock⟩
  constructor
  · rw [timeline_eq, timeline_eq, hphase, hticks]
  · intro i j hij
    rw [← phase_eq_iff, phase_play, phase_play, hphase, hij]

/-- A video unit with its display and all layers switched on, in the middle of the picture. -/
def displayOn : Video :=
  { powerOn with
    regs := { Registers.powerOn.setLine 142 with lcdc := 0xF3, wx := 7 }
    clock := 79
    windowLine := 9 }

/-- The same moment in a cleared video unit, whose display is switched off. -/
def displayOff : Video := { powerOn with regs := Registers.powerOn.setLine 142, clock := 79 }

/-- Through the last lines of the picture, writes to line, mode and comparison line on one side, to the
switches and to memory on the other. -/
theorem timeline_independent_display :
    displayOn.timeline
        [.register 0xFF44 0, .tick 1, .register 0xFF41 0xFF, .tick 172, .tick 204] =
      displayOff.timeline
        [.tick 1, .memory 0x8000 0xFF, .tick 172, .register 0xFF40 0x80, .tick 204] ∧
      displayOff.timeline
        [.tick 1, .memory 0x8000 0xFF, .tick 172, .register 0xFF40 0x80, .tick 204] =
        [(false, ⟨.vramScan, 142, 0⟩), (false, ⟨.hblank, 142, 0⟩), (true, ⟨.vblank, 143, 0⟩)] := by
  refine ⟨(timeline_independent rfl (by decide) rfl rfl).1, ?_⟩
  rw [timeline_eq]
  decide

end Video

end DotMatrix
