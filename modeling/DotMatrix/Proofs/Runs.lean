import DotMatrix.Proofs.Resume
import DotMatrix.Proofs.Timing

/-!
# Runs

A run of a machine is its successful steps, in their order.  Between them a host may make calls
during which no time passes: it writes, inserts a cartridge, skips the boot program.

* `HostCall.Timeless` — calls that let no time pass and do not switch the machine on again.
* `Machine.Ran` — the runs of a machine; `Step.total` — the machine cycles of steps.
* `Machine.Still` — what calls without time leave alone.

Principal results: `Machine.Ran.phase_induction` — along a run the phase is moved by the time of the
steps and by nothing else; `Machine.Ran.cycles_eq` — a run advances the cycle counter by the cycles
of its steps.
-/

set_option autoImplicit false

namespace DotMatrix

/-- Calls that let no time pass and do not switch the machine on again. -/
def HostCall.Timeless : HostCall → Prop
  | .step | .runFrame | .reset | .tick _ => False
  | _ => True

/-- Machine cycles of several steps. -/
def Step.total : List Step → Nat
  | [] => 0
  | s :: steps => s.cycles + total steps

/-- A run from `start`: the steps that were made, and the machine after them. -/
inductive Machine.Ran (start : Machine) : List Step → Machine → Prop
  | start : Ran start [] start
  | call {steps : List Step} {m : Machine} (h : Ran start steps m) (c : HostCall)
    (hc : c.Timeless) : Ran start steps (m.perform c)
  | step {steps : List Step} {m m' : Machine} {s : Step} (h : Ran start steps m)
    (hs : m.step = .ok (m', s)) : Ran start (steps ++ [s]) m'

theorem Step.total_append (steps : List Step) (s : Step) :
    total (steps ++ [s]) = total steps + s.cycles := by
  induction steps with
  | nil => exact Nat.add_comm _ _
  | cons t steps ih =>
    simp only [List.cons_append, total, ih]
    omega

namespace Machine

/-! ## Calls without time -/

/-- What a call without time leaves alone. -/
structure Still (m m' : Machine) : Prop where
  phase : m'.phase = m.phase
  cycles : m'.cycles = m.cycles
  compared : m.bus.video.regs.Compared → m'.bus.video.regs.Compared

theorem poked_images (m : Machine) (rom : Memory 0x8000) (boot : Memory 0x100) :
    m.bus.video.Poked { m with bus := { m.bus with rom := rom, boot := boot } }.bus.video :=
  .refl

theorem video_withVideo (m : Machine) (v : Video) : (m.withVideo v).bus.video = v := rfl

/-- **A call without time writes to the video unit, or decodes its tiles**, and does no more to it. -/
theorem poked_perform (m : Machine) {c : HostCall} (hc : c.Timeless) :
    m.bus.video.Poked (m.perform c).bus.video ∨
      (m.perform c).bus.video = m.bus.video.decodeTiles := by
  cases c with
  | step => exact hc.elim
  | runFrame => exact hc.elim
  | reset => exact hc.elim
  | tick ticks => exact hc.elim
  | skipBoot => exact .inl (.register (.register .refl .lcdc 0x91) .bgp 0xFC)
  | load image => exact .inl (m.poked_images (Memory.ofImage _ image) m.bus.boot)
  | loadBoot image => exact .inl (m.poked_images m.bus.rom (Memory.ofImage _ image))
  | write addr v => exact .inl (Bus.touched_write m.bus addr v).video
  | write16 addr w => exact .inl (Bus.touched_write16 m.bus addr w).video
  | writeMemory addr v => exact .inl (.memory .refl _ v)
  | writeSprites i v => exact .inl (.sprites .refl i v)
  | writeRegister addr v => exact .inl (writeAddr_poked _ addr v)
  | decodeTiles => exact .inr (m.video_withVideo _)

theorem cycles_images (m : Machine) (rom : Memory 0x8000) (boot : Memory 0x100) :
    { m with bus := { m.bus with rom := rom, boot := boot } }.cycles = m.cycles := rfl

theorem cycles_withVideo (m : Machine) (v : Video) : (m.withVideo v).cycles = m.cycles := rfl

theorem cycles_perform (m : Machine) {c : HostCall} (hc : c.Timeless) :
    (m.perform c).cycles = m.cycles := by
  cases c with
  | step => exact hc.elim
  | runFrame => exact hc.elim
  | reset => exact hc.elim
  | tick ticks => exact hc.elim
  | skipBoot => rfl
  | load image => exact m.cycles_images (Memory.ofImage _ image) m.bus.boot
  | loadBoot image => exact m.cycles_images m.bus.rom (Memory.ofImage _ image)
  | decodeTiles => exact m.cycles_withVideo _
  | _ => rfl

theorem still_perform (m : Machine) {c : HostCall} (hc : c.Timeless) : m.Still (m.perform c) := by
  rcases m.poked_perform hc with hpoked | hdecode
  · exact ⟨hpoked.phase_eq, m.cycles_perform hc, hpoked.compared⟩
  · refine ⟨?_, m.cycles_perform hc, ?_⟩
    · rw [phase, hdecode]
      exact Video.phase_decodeTiles _
    · rw [hdecode, Video.decodeTiles_regs]
      exact id

/-! ## Runs -/

theorem phase_eq_of_step {m m' : Machine} {s : Step} (h : m.step = .ok (m', s)) :
    m'.phase = (m.phase.tick (4 * s.cycles)).1 ∧
      s.frameComplete = (m.phase.tick (4 * s.cycles)).2 :=
  Prod.ext_iff.1 (phase_step h)

variable {start m : Machine} {steps : List Step}

theorem Ran.trans {m' : Machine} {more : List Step} (h : start.Ran steps m)
    (h' : m.Ran more m') : start.Ran (steps ++ more) m' := by
  induction h' with
  | start =>
    rw [List.append_nil]
    exact h
  | call _ c hc ih => exact ih.call c hc
  | step _ hs ih =>
    rw [← List.append_assoc]
    exact ih.step hs

/-- Steps of which none is refused are a run. -/
theorem ran_run (n : Nat) {m : Machine} (h : (m.run n).fault = none) :
    ∃ steps, m.Ran steps (m.run n).machine ∧ steps.length = n := by
  induction n generalizing m with
  | zero => exact ⟨[], .start, rfl⟩
  | succ n ih =>
    cases hs : m.step with
    | error fault =>
      rw [run, runFrom, hs] at h
      cases h
    | ok r =>
      obtain ⟨m', s⟩ := r
      obtain ⟨hmachine, hfault⟩ := run_succ hs n
      rw [hfault] at h
      obtain ⟨steps, hran, hlength⟩ := ih h
      refine ⟨s :: steps, ?_, by rw [List.length_cons, hlength]⟩
      rw [hmachine]
      exact (Ran.start.step hs).trans hran

/-- **What the time of steps does to the phase, a run does**: what holds at the start, and is kept
when the phase is moved by the time of a step, holds after the run. -/
theorem Ran.phase_induction {P : List Step → Phase → Prop} (hstart : P [] start.phase)
    (hstep : ∀ {steps : List Step} {p : Phase} {s : Step}, P steps p → 1 ≤ s.cycles →
      s.cycles ≤ 6 → (p.tick (4 * s.cycles)).2 = s.frameComplete →
      P (steps ++ [s]) (p.tick (4 * s.cycles)).1)
    (h : start.Ran steps m) : P steps m.phase := by
  induction h with
  | start => exact hstart
  | call _ c hc ih =>
    rw [(still_perform _ hc).phase]
    exact ih
  | @step steps m m' s _ hs ih =>
    have hstepped := stepped_of_step hs
    obtain ⟨hphase, hflag⟩ := phase_eq_of_step hs
    rw [hphase]
    exact hstep ih hstepped.cycles_pos hstepped.cycles_le hflag.symm

/-- **A run advances the cycle counter by the cycles of its steps.** -/
theorem Ran.cycles_eq (h : start.Ran steps m) :
    m.cycles = start.cycles + UInt64.ofNat (Step.total steps) := by
  induction h with
  | start => exact (UInt64.add_zero _).symm
  | call _ c hc ih => exact (still_perform _ hc).cycles.trans ih
  | step _ hs ih =>
    rw [(stepped_of_step hs).cycles, ih, Step.total_append, UInt64.ofNat_add, UInt64.add_assoc]

/-- A step takes one to six machine cycles. -/
theorem Ran.total_bounds (h : start.Ran steps m) :
    steps.length ≤ Step.total steps ∧ Step.total steps ≤ 6 * steps.length := by
  induction h with
  | start => exact ⟨Nat.le_refl 0, Nat.le_refl 0⟩
  | call _ _ _ ih => exact ih
  | step _ hs ih =>
    have hpos := (stepped_of_step hs).cycles_pos
    have hle := (stepped_of_step hs).cycles_le
    rw [List.length_append, List.length_singleton, Step.total_append]
    omega

end Machine

end DotMatrix
