import DotMatrix.Proofs.Timing
import Mathlib.Logic.Function.Iterate

/-!
# The time of a picture

A picture takes 154 lines of 456 ticks.  Where the video unit is in it follows from the ticks that
have passed, less those that modes have lasted beyond their durations.

* `Phase.sinceBlank` — the ticks since the last vertical blank began, if every mode since then had
  lasted for its duration; `Phase.ended` — how many modes and blank lines have ended since then.
* `Phase.excess` — the ticks that a mode lasts beyond its duration.
* `Phase.ofTime` — the phase at a time after line 0 began.
* `VideoCall`, `Video.play` — calls on the video unit alone; `Video.OnTime` — no mode lasts longer
  than its duration.

Principal results: `Phase.Regular.sinceBlank_tick` — how passing time moves a phase through the
picture; `Video.tick_eq_iterate` — ticks may be passed one by one; `Video.play_onTime` — the state of
a video unit as a function of the time.
-/

set_option autoImplicit false

namespace DotMatrix

/-- Modes last for whole machine cycles. -/
theorem Mode.duration_mod_four (m : Mode) : m.duration % 4 = 0 := by cases m <;> rfl

namespace Phase

/-! ## Positions in the picture -/

/-- Ticks of a line that pass before a mode begins. -/
def modeStart : Mode → Nat
  | .oamScan => 0
  | .vramScan => 80
  | .hblank => 252
  | .vblank => 0

/-- Ticks since the last vertical blank began, if no mode lasted longer than its duration. -/
def sinceBlank (p : Phase) : Nat :=
  if p.mode = .vblank then 456 * (p.line - 143) + p.clock
  else 456 * (11 + p.line) + modeStart p.mode + p.clock

/-- Modes, and lines of the vertical blank, that have ended since it began. -/
def ended (p : Phase) : Nat :=
  match p.mode with
  | .vblank => p.line - 143
  | .oamScan => 11 + 3 * p.line
  | .vramScan => 12 + 3 * p.line
  | .hblank => 13 + 3 * p.line

/-- Ticks that pass after the mode should have ended. -/
def excess (p : Phase) (ticks : Nat) : Nat := p.clock + ticks - p.mode.duration

variable {p : Phase}

theorem Regular.sinceBlank_lt (h : p.Regular) : p.sinceBlank < 70224 := by
  have hclock := h.clock
  have hline := h.line
  have hblank := h.blank
  obtain ⟨mode, line, clock⟩ := p
  cases mode
  all_goals simp [sinceBlank, modeStart, Mode.duration] at *
  all_goals omega

theorem Regular.ended_le (h : p.Regular) : p.ended ≤ 439 := by
  have hline := h.line
  have hblank := h.blank
  obtain ⟨mode, line, clock⟩ := p
  cases mode
  all_goals simp [ended] at *
  all_goals omega

theorem next_of_complete (h : p.next.2 = true) : p.next.1 = ⟨.vblank, 143, 0⟩ := by
  unfold Phase.next at h ⊢
  cases hmode : p.mode with
  | oamScan => rw [hmode] at h; cases h
  | vramScan => rw [hmode] at h; cases h
  | hblank =>
    simp only [hmode] at h ⊢
    by_cases hline : (p.line + 1) % 256 = 143
    · rw [if_pos hline, hline]
    · rw [if_neg hline] at h
      cases h
  | vblank =>
    simp only [hmode] at h
    split at h <;> cases h

/-- The picture is complete when the vertical blank begins. -/
theorem tick_of_complete {ticks : Nat} (h : (p.tick ticks).2 = true) :
    (p.tick ticks).1 = ⟨.vblank, 143, 0⟩ := by
  unfold Phase.tick at h ⊢
  split at h
  · rw [if_pos ‹_›]
    exact next_of_complete h
  · cases h

/-- **How time moves a phase through the picture.**  Ticks count, but for those in excess; a mode
that ends is counted; and when the picture is complete, all of its ticks and all but one of its modes
had been counted. -/
theorem Regular.sinceBlank_tick (h : p.Regular) (ticks : Nat) :
    if (p.tick ticks).2 = true then
      p.sinceBlank + ticks = 70224 + p.excess ticks ∧ p.ended = 439
    else
      (p.tick ticks).1.sinceBlank + p.excess ticks = p.sinceBlank + ticks ∧
        (p.tick ticks).1.ended = p.ended + if p.mode.duration ≤ p.clock + ticks then 1 else 0 := by
  obtain ⟨hedge, hcomplete⟩ := h.edge_next
  have hbelow := h.below
  unfold Phase.tick
  by_cases hover : p.mode.duration ≤ p.clock + ticks
  · simp only [if_pos hover]
    generalize p.next = r at hedge hcomplete ⊢
    obtain ⟨q, complete⟩ := r
    simp only at hedge hcomplete ⊢
    by_cases hflag : complete = true
    · obtain ⟨hmode, hline⟩ := hcomplete.1 hflag
      simp [hflag, sinceBlank, ended, excess, modeStart, hmode, hline, Mode.duration] at hover ⊢
      omega
    · rw [if_neg hflag]
      -- on every other edge the clock goes back and the position moves on by the duration
      cases hedge with
      | blanked clock => exact absurd (hcomplete.2 ⟨rfl, rfl⟩) hflag
      | nextBlankLine line clock hlt =>
        have hge : 143 ≤ line := hbelow rfl
        simp [sinceBlank, ended, excess, Mode.duration] at hover ⊢
        omega
      | _ =>
        simp [sinceBlank, ended, excess, modeStart, Mode.duration] at hover ⊢
        omega
  · have hexcess : p.excess ticks = 0 := by
      unfold excess
      omega
    simp only [if_neg hover, hexcess, Bool.false_eq_true, if_false, sinceBlank, ended]
    split <;> omega

/-- When no tick is in excess, every tick counts. -/
theorem Regular.sinceBlank_tick_onTime (h : p.Regular) {ticks : Nat} (ht : p.excess ticks = 0) :
    (p.tick ticks).1.sinceBlank + 70224 * (p.tick ticks).2.toNat = p.sinceBlank + ticks := by
  have hstep := h.sinceBlank_tick ticks
  rw [ht] at hstep
  by_cases hcomplete : (p.tick ticks).2 = true
  · rw [if_pos hcomplete] at hstep
    rw [tick_of_complete hcomplete, hcomplete, hstep.1]
    rfl
  · rw [if_neg hcomplete] at hstep
    rw [Bool.not_eq_true] at hcomplete
    rw [hcomplete, ← hstep.1]
    rfl

/-! ## Times -/

/-- The phase at a time after line 0 began. -/
def ofTime (time : Nat) : Phase :=
  let line := time / 456
  let ticks := time % 456
  if 143 ≤ line then ⟨.vblank, line, ticks⟩
  else if ticks < 80 then ⟨.oamScan, line, ticks⟩
  else if ticks < 252 then ⟨.vramScan, line, ticks - 80⟩
  else ⟨.hblank, line, ticks - 252⟩

theorem Regular.time_eq (h : p.Regular) :
    (p.sinceBlank + 65208) % 70224 = 456 * p.line + modeStart p.mode + p.clock := by
  have hclock := h.clock
  have hline := h.line
  have hblank := h.blank
  have hbelow := h.below
  obtain ⟨mode, line, clock⟩ := p
  cases mode
  all_goals simp [sinceBlank, modeStart, Mode.duration] at *
  all_goals omega

/-- The time determines the phase. -/
theorem Regular.eq_ofTime (h : p.Regular) : p = ofTime ((p.sinceBlank + 65208) % 70224) := by
  rw [h.time_eq]
  have hclock := h.clock
  have hblank := h.blank
  have hbelow := h.below
  obtain ⟨mode, line, clock⟩ := p
  simp only at hblank
  have hlt : modeStart mode + clock < 456 := by
    cases mode
    all_goals simp only [modeStart, Mode.duration] at hclock ⊢
    all_goals omega
  have hdiv : (456 * line + modeStart mode + clock) / 456 = line := by omega
  have hmod : (456 * line + modeStart mode + clock) % 456 = modeStart mode + clock := by omega
  simp only [ofTime, hdiv, hmod]
  cases mode with
  | vblank =>
    rw [if_pos (hbelow rfl)]
    simp [modeStart]
  | oamScan =>
    have hle : line ≤ 142 := hblank.resolve_left (by decide)
    simp only [Mode.duration] at hclock
    rw [if_neg (by omega), if_pos (by simp only [modeStart]; omega)]
    simp [modeStart]
  | vramScan =>
    have hle : line ≤ 142 := hblank.resolve_left (by decide)
    simp only [Mode.duration] at hclock
    rw [if_neg (by omega), if_neg (by simp only [modeStart]; omega),
      if_pos (by simp only [modeStart]; omega)]
    simp [modeStart]
  | hblank =>
    have hle : line ≤ 142 := hblank.resolve_left (by decide)
    rw [if_neg (by omega), if_neg (by simp only [modeStart]; omega),
      if_neg (by simp only [modeStart]; omega)]
    simp [modeStart]

end Phase

/-! ## Calls on the video unit -/

/-- A call on the video unit alone. -/
inductive VideoCall where
  | tick (ticks : UInt32)
  | memory (addr : UInt16) (v : UInt8)
  | sprites (addr : UInt16) (v : UInt8)
  | register (addr : UInt16) (v : UInt8)
  deriving DecidableEq, Repr

namespace VideoCall

/-- The ticks that pass during a call. -/
def ticks : VideoCall → Nat
  | tick n => n.toNat
  | _ => 0

/-- The ticks that pass during several calls. -/
def elapsed : List VideoCall → Nat
  | [] => 0
  | c :: calls => c.ticks + elapsed calls

theorem elapsed_replicate (n : Nat) (c : VideoCall) :
    elapsed (List.replicate n c) = n * c.ticks := by
  induction n with
  | zero => exact (Nat.zero_mul _).symm
  | succ n ih => rw [List.replicate_succ, elapsed, ih, Nat.succ_mul, Nat.add_comm]

end VideoCall

namespace Video

/-- What a call does.  The flag says that the picture was completed. -/
def call (v : Video) : VideoCall → Video × Bool
  | .tick n => v.tick n
  | .memory addr b => (v.writeMemory (offset addr) b, false)
  | .sprites addr b => (v.writeSprites addr.toNat b, false)
  | .register addr b => (v.writeAddr addr b, false)

/-- What several calls do, and how many of them complete a picture. -/
def play (v : Video) : List VideoCall → Video × Nat
  | [] => (v, 0)
  | c :: calls =>
    let r := v.call c
    let rest := play r.1 calls
    (rest.1, r.2.toNat + rest.2)

/-- No mode lasts longer than its duration: a call that ends one ends it on time. -/
def OnTime (v : Video) : List VideoCall → Prop
  | [] => True
  | c :: calls =>
    (v.regs.mode.duration ≤ v.clock.toNat + c.ticks →
      v.clock.toNat + c.ticks = v.regs.mode.duration) ∧
    OnTime (v.call c).1 calls

/-- A call moves the phase by its ticks. -/
theorem phase_call (v : Video) (hclock : v.phase.clock < v.phase.mode.duration) (c : VideoCall) :
    ((v.call c).1.phase, (v.call c).2) = v.phase.tick c.ticks := by
  have hstill : ∀ w, v.Poked w → (w.phase, false) = v.phase.tick 0 := by
    intro w hw
    rw [hw.phase_eq]
    exact (if_neg (Nat.not_le.2 hclock)).symm
  cases c with
  | tick n => exact v.phase_tick n
  | memory addr b => exact hstill _ (.memory .refl _ b)
  | sprites addr b => exact hstill _ (.sprites .refl _ b)
  | register addr b => exact hstill _ (Machine.writeAddr_poked v addr b)

/-- What calls on time do to the phase: all of their ticks count. -/
theorem sinceBlank_play {v : Video} (hv : v.phase.Regular) {calls : List VideoCall}
    (h : v.OnTime calls) :
    (v.play calls).1.phase.Regular ∧
      (v.play calls).1.phase.sinceBlank + 70224 * (v.play calls).2 =
        v.phase.sinceBlank + VideoCall.elapsed calls := by
  induction calls generalizing v with
  | nil => exact ⟨hv, rfl⟩
  | cons c calls ih =>
    obtain ⟨honTime, hrest⟩ := h
    have hexcess : v.phase.excess c.ticks = 0 := by
      have hd : v.phase.mode.duration ≤ v.phase.clock + c.ticks →
        v.phase.clock + c.ticks = v.phase.mode.duration := honTime
      unfold Phase.excess
      omega
    have hstep := hv.sinceBlank_tick_onTime hexcess
    have hregular := hv.tick c.ticks
    rw [← v.phase_call hv.clock c] at hstep hregular
    obtain ⟨hend, hsum⟩ := ih hregular hrest
    refine ⟨hend, ?_⟩
    simp only [play, VideoCall.elapsed]
    simp only at hstep
    omega

/-! ## Ticks one by one -/

/-- Lets one tick pass. -/
def unitTick (v : Video) : Video := (v.tick 1).1

/-- The video unit with another clock. -/
def withClock (v : Video) (n : Nat) : Video := { v with clock := UInt32.ofNat n }

theorem tick_withClock (v : Video) {k : Nat} {n m : UInt32} (hk : k ≤ 456)
    (h : v.clock.toNat + m.toNat = k + n.toNat) : (v.withClock k).tick n = v.tick m := by
  have hclock : advanceClock (v.withClock k).clock n = advanceClock v.clock m := by
    have hkn : (UInt32.ofNat k).toNat = k := by
      rw [UInt32.toNat_ofNat']
      omega
    simp only [advanceClock, withClock, hkn, h]
  unfold tick
  rw [hclock]
  rfl

theorem tick_of_lt {v : Video} {n : UInt32}
    (h : v.clock.toNat + n.toNat < v.regs.mode.duration) :
    v.tick n = (v.withClock (v.clock.toNat + n.toNat), false) := by
  have hd : v.regs.mode.duration ≤ 456 := by cases v.regs.mode <;> decide
  have hc := toNat_advanceClock v.clock n
  have hclock : advanceClock v.clock n = UInt32.ofNat (v.clock.toNat + n.toNat) := by
    rw [advanceClock, Nat.min_eq_left (by omega)]
  unfold tick
  simp only
  rw [if_neg (by omega), hclock]
  rfl

theorem iterate_unitTick {v : Video} {k : Nat} (h : v.clock.toNat + k < v.regs.mode.duration) :
    unitTick^[k] v = v.withClock (v.clock.toNat + k) := by
  have hd : v.regs.mode.duration ≤ 456 := by cases v.regs.mode <;> decide
  induction k with
  | zero => simp [withClock]
  | succ k ih =>
    have hk : (UInt32.ofNat (v.clock.toNat + k)).toNat = v.clock.toNat + k := by
      rw [UInt32.toNat_ofNat']
      omega
    have hone : (v.withClock (v.clock.toNat + k)).tick 1 =
        ((v.withClock (v.clock.toNat + k)).withClock (v.clock.toNat + k + 1), false) := by
      rw [tick_of_lt]
      · simp only [withClock, hk]
        rfl
      · simp only [withClock, hk]
        exact h
    rw [Function.iterate_succ_apply', ih (by omega), unitTick, hone]
    rfl

/-- **Ticks may be passed one by one**, as long as no mode lasts longer than its duration. -/
theorem tick_eq_iterate {v : Video} (hv : v.clock.toNat < v.regs.mode.duration) {n : UInt32}
    (h : v.clock.toNat + n.toNat ≤ v.regs.mode.duration) : (v.tick n).1 = unitTick^[n.toNat] v := by
  have hd : v.regs.mode.duration ≤ 456 := by cases v.regs.mode <;> decide
  cases hn : n.toNat with
  | zero =>
    rw [tick_of_lt (by omega), hn]
    simp [withClock]
  | succ k =>
    have hlast : (v.withClock (v.clock.toNat + k)).tick 1 = v.tick n :=
      tick_withClock v (by omega) (by rw [hn]; rfl)
    rw [Function.iterate_succ_apply', iterate_unitTick (by omega), unitTick, hlast]

theorem play_ticks {v : Video} (hv : v.clock.toNat < v.regs.mode.duration) {ts : List UInt32}
    (h : v.OnTime (ts.map .tick)) :
    (v.play (ts.map .tick)).1 = unitTick^[VideoCall.elapsed (ts.map .tick)] v := by
  induction ts generalizing v with
  | nil => rfl
  | cons n ts ih =>
    obtain ⟨honTime, hrest⟩ := h
    have hle : v.clock.toNat + n.toNat ≤ v.regs.mode.duration := by
      have hd : v.regs.mode.duration ≤ v.clock.toNat + n.toNat →
        v.clock.toNat + n.toNat = v.regs.mode.duration := honTime
      omega
    have hclock : (v.tick n).1.phase.clock < (v.tick n).1.phase.mode.duration := by
      have ht := Phase.clock_tick v.phase n.toNat
      rw [← v.phase_tick n] at ht
      exact ht
    have hcall : v.call (.tick n) = v.tick n := rfl
    simp only [List.map_cons, VideoCall.elapsed, play]
    rw [hcall] at hrest ⊢
    rw [ih hclock hrest, tick_eq_iterate hv hle, ← Function.iterate_add_apply, Nat.add_comm]
    rfl

/-! ## Closed form -/

/-- Ticks of one size that divides all durations end every mode on time, whatever is written between
them. -/
theorem onTime_of_uniform {unit : Nat} (hunit : unit = 1 ∨ unit = 4) {v : Video}
    (hv : v.phase.clock < v.phase.mode.duration) (hclock : v.phase.clock % unit = 0)
    {calls : List VideoCall} (h : ∀ n, .tick n ∈ calls → n.toNat = unit) : v.OnTime calls := by
  induction calls generalizing v with
  | nil => trivial
  | cons c calls ih =>
    have hticks : c.ticks = 0 ∨ c.ticks = unit := by
      cases c with
      | tick n => exact .inr (h n List.mem_cons_self)
      | _ => exact .inl rfl
    have hd := v.phase.mode.duration_mod_four
    have hlt := Phase.clock_tick v.phase c.ticks
    have hnext : (v.phase.tick c.ticks).1.clock % unit = 0 := by
      unfold Phase.tick
      split
      · rw [Phase.clock_next, Nat.zero_mod]
      · rcases hticks with ht | ht
        · rw [ht]
          exact hclock
        · rw [ht]
          exact (Nat.add_mod_right _ _).trans hclock
    rw [← v.phase_call hv c] at hlt hnext
    refine ⟨?_, ih hlt hnext fun n hn => h n (List.mem_cons_of_mem _ hn)⟩
    intro hover
    change v.phase.mode.duration ≤ v.phase.clock + c.ticks at hover
    show v.phase.clock + c.ticks = v.phase.mode.duration
    rcases hunit with rfl | rfl <;> omega

/-- **The state of the video unit as a function of the time.**  While every mode ends on time, the
ticks that have passed since power on give line, mode and clock, whatever is written in the
meantime, and the number of pictures; ticks of one or four at a time are on time; and without writes
the same number of ticks leaves the same state, however they are passed. -/
theorem play_onTime :
    (∀ calls, powerOn.OnTime calls →
      (powerOn.play calls).1.phase =
          Phase.ofTime (VideoCall.elapsed calls % 70224) ∧
        (powerOn.play calls).2 = (VideoCall.elapsed calls + 5016) / 70224) ∧
      (∀ calls (unit : Nat), unit = 1 ∨ unit = 4 →
        (∀ n, VideoCall.tick n ∈ calls → n.toNat = unit) → powerOn.OnTime calls) ∧
      ∀ ts us : List UInt32,
        powerOn.OnTime (ts.map .tick) → powerOn.OnTime (us.map .tick) →
        VideoCall.elapsed (ts.map .tick) = VideoCall.elapsed (us.map .tick) →
        powerOn.play (ts.map .tick) = powerOn.play (us.map .tick) := by
  have hpowerOn : powerOn.phase.Regular := Reachable.powerOn.regular
  have hstart : powerOn.phase.sinceBlank = 5016 := by
    rw [phase_powerOn]
    rfl
  have hclosed : ∀ calls, powerOn.OnTime calls →
      (powerOn.play calls).1.phase =
          Phase.ofTime (VideoCall.elapsed calls % 70224) ∧
        (powerOn.play calls).2 = (VideoCall.elapsed calls + 5016) / 70224 := by
    intro calls h
    obtain ⟨hregular, hsum⟩ := sinceBlank_play hpowerOn h
    have hlt := hregular.sinceBlank_lt
    rw [hstart] at hsum
    have htime : ((powerOn.play calls).1.phase.sinceBlank + 65208) % 70224 =
        VideoCall.elapsed calls % 70224 := by omega
    refine ⟨?_, by omega⟩
    rw [← htime]
    exact hregular.eq_ofTime
  refine ⟨hclosed, ?_, ?_⟩
  · intro calls unit hunit h
    have hclock : powerOn.phase.clock % unit = 0 := by
      rw [phase_powerOn]
      exact Nat.zero_mod unit
    exact onTime_of_uniform hunit hpowerOn.clock hclock h
  · intro ts us hts hus hsum
    apply Prod.ext
    · rw [play_ticks hpowerOn.clock hts, play_ticks hpowerOn.clock hus, hsum]
    · rw [(hclosed _ hts).2, (hclosed _ hus).2, hsum]

/-- A picture's time passed four ticks at a time. -/
theorem play_oneFrame :
    powerOn.OnTime (List.replicate 17556 (.tick 4)) ∧
      (powerOn.play (List.replicate 17556 (.tick 4))).1.phase = ⟨.oamScan, 0, 0⟩ ∧
      (powerOn.play (List.replicate 17556 (.tick 4))).2 = 1 := by
  obtain ⟨hclosed, huniform, -⟩ := play_onTime
  have honTime : powerOn.OnTime (List.replicate 17556 (.tick 4)) := by
    apply huniform _ 4 (.inr rfl)
    intro n hn
    rw [VideoCall.tick.inj (List.eq_of_mem_replicate hn)]
    rfl
  have h := hclosed _ honTime
  rw [VideoCall.elapsed_replicate] at h
  exact ⟨honTime, h⟩

end Video

end DotMatrix
