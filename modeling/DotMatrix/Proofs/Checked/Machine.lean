import DotMatrix.Proofs.Checked.OpcodeTable
import DotMatrix.Proofs.Checked.Video
import DotMatrix.Proofs.Resume

/-!
# The machine, with all checks

Images are copied into chips byte by byte, opcodes are looked up, and the two counters are numbers of
64 bits that must not overflow.  Everything else that a host can ask of a machine comes down to the
parts that are checked elsewhere.

* `Checked.program` — programming a chip; `Checked.create`, `Checked.reset`, `Checked.skipBoot`.
* `Checked.cpuStep`, `Checked.step`, `Checked.runFrom` — single instructions, and many.
* `Checked.perform`, `Checked.restore` — what a host asks for.
* `Machine.Counts`, `Machine.Roomy`, `Machine.RoomFor` — the counters have room for what a step did, for
  another step, for all steps of a call.
* `Action`, `Machine.session`, `Checked.session` — all that a host does to a machine from its making
  on.

Principal results: `Checked.step_eq_error_iff` — a step fails a check if and only if a counter has no room
for it; `Machine.session_untrapped` — while the counters have room, no check ever fails.
-/

set_option autoImplicit false

namespace DotMatrix

namespace Checked

/-! ## Starting -/

/-- Programs a chip: as many bytes of the image as fit, and zeros behind them. -/
def program {n : Nat} (chip : Memory n) (image : List UInt8) : Checked (Memory n) := do
  let bytes := image.toArray
  let length := min bytes.size n
  let source ← slice bytes.toVector 0 length
  let _ ← slice chip 0 length
  let chip ← loop 0 length chip fun chip i => do store chip i (← fetchAt source i)
  let _ ← slice chip length n
  loop length n chip fun chip i => store chip i 0

/-- Installs a boot ROM. -/
def loadBoot (b : Bus) (image : List UInt8) : Checked Bus :=
  return { b with boot := ← program b.boot image }

/-- Inserts a cartridge. -/
def loadRom (b : Bus) (image : List UInt8) : Checked Bus :=
  return { b with rom := ← program b.rom image }

/-- Puts registers and video unit in the state in which the boot program leaves them. -/
def skipBoot (m : Machine) : Checked Machine := do
  let cpu ← set16 { m.cpu with pc := 0x100, sp := 0xFFFE } .af 0x01B0
  let cpu ← set16 cpu .bc 0x0013
  let cpu ← set16 cpu .de 0x00D8
  let cpu ← set16 cpu .hl 0x014D
  let regs := { m.bus.video.regs with lcdc := 0x91, bgp := 0xFC }
  return { m with
    cpu := cpu
    bus := { m.bus with bootMapped := false, video := { m.bus.video with regs := regs } } }

/-- Switches power off and on again. -/
def reset (m : Machine) : Checked Machine :=
  let m := { m with cpu := Cpu.powerOn, bus := m.bus.reset, cycles := 0, frames := 0 }
  if m.config.startInBoot then return m else skipBoot m

/-- The bus of a new machine. -/
def newBus : Option (List UInt8) → Checked Bus
  | none => return Bus.powerOn
  | some image => loadBoot Bus.powerOn image

/-- A new machine. -/
def create (config : Config) : Checked Machine := do
  let bus ← newBus config.bootRom
  reset { cpu := Cpu.powerOn, bus := bus, config := config, cycles := 0, frames := 0 }

/-! ## Steps -/

/-- Reads the opcode at an address. -/
def fetchOpcode (b : Bus) (pc : UInt16) : Checked Opcode := do
  let first ← read b pc
  if first = 0xCB then return .extended (← read b (pc + 1)) else return .base first

/-- Carries out the instruction at the program counter. -/
def cpuStep (c : Cpu) (b : Bus) : Checked (Except Fault Outcome) := do
  let op ← fetchOpcode b c.pc
  match ← OpcodeTable.lookup op.key.toNat with
  | none => return .error (.unimplemented op c.pc)
  | some entry =>
    let i ← entry.handler (op.key.toNat % 256)
    let r ← exec i { c with autoAdvance := true } b
    return .ok { r with cpu := r.cpu.advance entry.length }

/-- Counts pictures. -/
def countFrame (frames : UInt64) (complete : Bool) : Checked UInt64 :=
  if complete then return UInt64.ofNat (← Width.quad.add frames.toNat 1) else return frames

/-- Lets the time of some machine cycles pass in the video unit. -/
def elapse (m : Machine) (cycles : Nat) : Checked (Machine × Step) := do
  let r ← tick m.bus.video (UInt32.ofNat (← Width.long.mul Machine.ticksPerCycle cycles))
  let total ← Width.quad.add m.cycles.toNat cycles
  let frames ← countFrame m.frames r.2
  return ({ m with
      bus := { m.bus with video := r.1 }
      cycles := UInt64.ofNat total
      frames := frames },
    { cycles := cycles, frameComplete := r.2 })

/-- Carries out one instruction and lets its time pass. -/
def step (m : Machine) : Checked (Except Fault (Machine × Step)) := do
  match ← cpuStep m.cpu m.bus with
  | .error fault => return .error fault
  | .ok r => return .ok (← elapse { m with cpu := r.cpu, bus := r.bus } r.cycles)

/-- Makes up to `n` steps, and none after one that is refused. -/
def runFrom (done : Nat) : Nat → Machine → Checked Run
  | 0, m => return { machine := m, steps := done, fault := none }
  | n + 1, m => do
    match ← step m with
    | .error fault => return { machine := m, steps := done, fault := some fault }
    | .ok (next, _) => runFrom (done + 1) n next

/-! ## Calls -/

/-- One step as a host sees it. -/
def stepOnce (m : Machine) : Checked Machine := do
  match ← step m with
  | .error _ => return m
  | .ok (next, _) => return next

/-- What a call does. -/
def perform (m : Machine) : HostCall → Checked Machine
  | .step => stepOnce m
  | .runFrame => return (← runFrom 0 m.config.stepsPerFrame m).machine
  | .reset => reset m
  | .skipBoot => skipBoot m
  | .load image => return { m with bus := ← loadRom m.bus image }
  | .loadBoot image => return { m with bus := ← loadBoot m.bus image }
  | .write addr v => return { m with bus := ← write m.bus addr v }
  | .write16 addr w => return { m with bus := ← write16 m.bus addr w }
  | .writeMemory addr v => return m.withVideo (← writeMemory m.bus.video addr v)
  | .writeSprites i v => return m.withVideo (m.bus.video.writeSprites i v)
  | .writeRegister addr v => return m.withVideo (m.bus.video.writeAddr addr v)
  | .tick ticks => return m.withVideo (← tick m.bus.video ticks).1
  | .decodeTiles => do
    let tiles ← decodeTiles m.bus.video.vram m.bus.video.tiles
    return m.withVideo { m.bus.video with tiles := tiles }

/-- Replaces the state of a machine by a saved one, whose tiles are decoded from video memory. -/
def restore (m : Machine) (input : List UInt8) : Checked (Except SnapshotError Machine) :=
  match Snapshot.parse input with
  | .error e => return .error e
  | .ok s => do
    let tiles ← decodeTiles s.bus.video.vram s.bus.video.tiles
    let cpu := { s.cpu with f := s.cpu.f &&& 0xF0 }
    let bus := { s.bus with video := { s.bus.video with tiles := tiles } }
    return .ok
      { cpu := cpu, bus := bus, config := m.config, cycles := s.cycles, frames := s.frames }

end Checked

/-- What a host does to a machine. -/
inductive Action where
  | call (c : HostCall)
  /-- Restores any bytes, whether they are accepted or refused. -/
  | restore (input : List UInt8)
  deriving DecidableEq, Repr

namespace Machine

/-- A machine after an action. -/
def act (m : Machine) : Action → Machine
  | .call c => m.perform c
  | .restore input => m.afterRestore input

/-- What becomes of a new machine. -/
def session (config : Config) (actions : List Action) : Machine := actions.foldl act (create config)

/-- The counters have room for what a step did. -/
structure Counts (m : Machine) (s : Step) : Prop where
  cycles : m.cycles.toNat + s.cycles < UInt64.size
  frames : s.frameComplete = true → m.frames.toNat + 1 < UInt64.size

/-- The counters have room for one more step. -/
structure Roomy (m : Machine) : Prop where
  cycles : m.cycles.toNat + 6 < UInt64.size
  frames : m.frames.toNat + 1 < UInt64.size

theorem Roomy.counts {m : Machine} (h : m.Roomy) {s : Step} (hle : s.cycles ≤ 6) : m.Counts s := by
  have hcycles := h.cycles
  exact ⟨by omega, fun _ => h.frames⟩

/-- The counters have room for every step that an action makes. -/
def RoomFor (m : Machine) : Action → Prop
  | .call .step => m.Roomy
  | .call .runFrame => ∀ n < m.config.stepsPerFrame, (m.run n).machine.Roomy
  | _ => True

/-- The counters have room for every step of several actions, one after the other. -/
def RoomForAll (m : Machine) : List Action → Prop
  | [] => True
  | a :: actions => m.RoomFor a ∧ (m.act a).RoomForAll actions

end Machine

namespace Checked

/-- A machine after an action. -/
def act (m : Machine) : Action → Checked Machine
  | .call c => perform m c
  | .restore input => do
    match ← restore m input with
    | .ok m' => return m'
    | .error _ => return m

/-- What becomes of a new machine. -/
def session (config : Config) (actions : List Action) : Checked Machine := do
  actions.foldlM act (← create config)

/-! ## No check fails -/

section Program

variable {n i : Nat} {chip : Memory n} {image : List UInt8}

/-- The chip has the image up to a position. -/
def Programmed (chip : Memory n) (image : List UInt8) (i : Nat) : Prop :=
  ∀ (j : Nat) (hj : j < n), j < i → chip[j] = image[j]?.getD 0

theorem Programmed.set (h : Programmed chip image i) (hi : i < n) {v : UInt8}
    (hv : v = image[i]?.getD 0) : Programmed (chip.set i v hi) image (i + 1) := by
  intro j hj hlt
  rw [Vector.getElem_set]
  split
  · rename_i heq
    rw [← heq, hv]
  · exact h j hj (by omega)

/-- Copying the front of an image. -/
theorem loop_copy {stop : Nat} (hstop : stop ≤ n) (himage : stop ≤ image.toArray.size)
    (chip : Memory n) :
    ∃ t, loop 0 stop chip (fun chip i => do
        store chip i (← fetchAt (image.toArray.toVector.toArray.extract 0 stop) i)) = .ok t ∧
      Programmed t image stop := by
  refine loop_induction (fun i chip => Programmed chip image i) (Nat.zero_le _)
    (fun chip i _ hi hchip => ?_) (fun j _ hj => absurd hj (Nat.not_lt_zero j))
  have hin : i < n := Nat.lt_of_lt_of_le hi hstop
  have hsize : i < image.length := Nat.lt_of_lt_of_le hi himage
  have hbyte : image[i]?.getD 0 = image[i] := by
    rw [List.getElem?_eq_getElem hsize, Option.getD_some]
  refine ⟨_, ?_, hchip.set hin hbyte.symm⟩
  rw [fetchAt_extract _ (by omega) (by omega), ok_bind, store_ok _ hin]
  simp

/-- Clearing what the image does not reach. -/
theorem loop_clear {first : Nat} (hfirst : first ≤ n) (hchip : Programmed chip image first)
    (hend : first < n → image.length ≤ first) :
    ∃ t, loop first n chip (fun chip i => store chip i 0) = .ok t ∧ Programmed t image n := by
  refine loop_induction (fun i chip => Programmed chip image i) hfirst
    (fun chip i hi hin hchip => ⟨_, store_ok _ hin _, hchip.set hin ?_⟩) hchip
  have hlength : image.length ≤ i := by omega
  rw [List.getElem?_eq_none hlength, Option.getD_none]

/-- **A chip can be programmed with an image of any length.** -/
theorem program_eq (chip : Memory n) (image : List UInt8) :
    program chip image = .ok (Memory.ofImage n image) := by
  have hsize : image.toArray.size = image.length := List.size_toArray
  have hfit : min image.toArray.size n ≤ n := Nat.min_le_right _ _
  obtain ⟨copied, hcopy, hcopied⟩ := loop_copy hfit (Nat.min_le_left _ _) chip
  obtain ⟨cleared, hclear, hcleared⟩ := loop_clear hfit hcopied (by omega)
  have heq : cleared = Memory.ofImage n image := by
    apply Vector.ext
    intro j hj
    rw [hcleared j hj hj, Memory.getElem_ofImage]
  unfold program
  simp only
  rw [slice_ok _ (Nat.zero_le _) (Nat.min_le_left _ _), ok_bind, slice_ok _ (Nat.zero_le _) hfit,
    ok_bind, hcopy, ok_bind, slice_ok _ hfit (Nat.le_refl _), ok_bind, hclear, heq]

end Program

theorem loadBoot_eq (b : Bus) (image : List UInt8) : loadBoot b image = .ok (b.loadBoot image) := by
  rw [loadBoot, program_eq, ok_bind]
  rfl

theorem loadRom_eq (b : Bus) (image : List UInt8) : loadRom b image = .ok (b.loadRom image) := by
  rw [loadRom, program_eq, ok_bind]
  rfl

theorem skipBoot_eq (m : Machine) : skipBoot m = .ok m.skipBoot := by
  simp only [skipBoot, set16_eq, ok_bind]
  rfl

theorem reset_eq (m : Machine) : reset m = .ok m.reset := by
  simp only [reset, Machine.reset, skipBoot_eq]
  split <;> rfl

/-- **Every machine can be made.** -/
theorem create_eq (config : Config) : create config = .ok (Machine.create config) := by
  rw [create, Machine.create]
  cases config.bootRom with
  | none => rw [newBus, pure_eq_ok, ok_bind, reset_eq]
  | some image => rw [newBus, loadBoot_eq, ok_bind, reset_eq]

/-! ### Steps -/

theorem fetchOpcode_eq {b : Bus} (h : b.eram.size = Bus.eramSize) (pc : UInt16) :
    fetchOpcode b pc = .ok (Opcode.fetch b pc) := by
  rw [fetchOpcode, read_eq h, ok_bind, read_eq h, ok_bind, Opcode.fetch]
  split <;> rfl

/-- **Every opcode is carried out or refused.** -/
theorem cpuStep_eq {b : Bus} (h : b.eram.size = Bus.eramSize) (c : Cpu) :
    cpuStep c b = .ok (c.step b) := by
  rw [cpuStep, fetchOpcode_eq h, ok_bind, Cpu.step]
  cases hdecode : (Opcode.fetch b c.pc).decode? with
  | none =>
    rw [OpcodeTable.lookup_of_decode_none hdecode]
    rfl
  | some i =>
    obtain ⟨entry, hlookup, hentry⟩ := OpcodeTable.lookup_of_decode hdecode
    rw [hlookup, ok_bind]
    simp only [hentry.handler, hentry.length, exec_eq h, ok_bind]
    rfl

theorem countFrame_eq {frames : UInt64} {complete : Bool}
    (h : complete = true → frames.toNat + 1 < UInt64.size) :
    countFrame frames complete = .ok (if complete then frames + 1 else frames) := by
  unfold countFrame
  split
  · rename_i hcomplete
    rw [Width.add_ok (h hcomplete), ok_bind, UInt64.ofNat_add, UInt64.ofNat_toNat]
    rfl
  · rfl

theorem countFrame_overflow {frames : UInt64} (h : UInt64.size ≤ frames.toNat + 1) :
    countFrame frames true = .error .overflow := by
  rw [countFrame, if_pos rfl, Width.add_overflow h]
  rfl

section Elapse

variable {m : Machine} {cycles : Nat}

theorem mul_ticksPerCycle (hle : cycles ≤ 6) :
    Width.long.mul Machine.ticksPerCycle cycles = .ok (Machine.ticksPerCycle * cycles) :=
  Width.mul_ok (by simp only [Width.limit, Machine.ticksPerCycle]; omega)

theorem elapse_eq (hle : cycles ≤ 6) (h : m.Counts (m.elapse cycles).2) :
    elapse m cycles = .ok (m.elapse cycles) := by
  have hframes : (m.bus.video.tick (UInt32.ofNat (Machine.ticksPerCycle * cycles))).2 = true →
      m.frames.toNat + 1 < UInt64.size := h.frames
  rw [elapse, mul_ticksPerCycle hle, ok_bind, tick_eq, ok_bind, Width.add_ok h.cycles, ok_bind,
    countFrame_eq hframes, ok_bind, UInt64.ofNat_add, UInt64.ofNat_toNat]
  rfl

/-- Time that a counter has no room for cannot pass. -/
theorem elapse_overflow (hle : cycles ≤ 6) (h : ¬ m.Counts (m.elapse cycles).2) :
    elapse m cycles = .error .overflow := by
  rw [elapse, mul_ticksPerCycle hle, ok_bind, tick_eq, ok_bind]
  by_cases hcycles : m.cycles.toNat + cycles < UInt64.size
  · obtain ⟨hcomplete, hframes⟩ := Classical.not_imp.1 fun hframes => h ⟨hcycles, hframes⟩
    have hflag : (m.bus.video.tick (UInt32.ofNat (Machine.ticksPerCycle * cycles))).2 = true :=
      hcomplete
    rw [Width.add_ok hcycles, ok_bind, hflag, countFrame_overflow (Nat.le_of_not_lt hframes)]
    rfl
  · rw [Width.add_overflow (Nat.le_of_not_lt hcycles)]
    rfl

end Elapse

/-- A step with checks is a step, except that the counters have to take what it did. -/
theorem step_cases {m : Machine} (h : m.bus.eram.size = Bus.eramSize) :
    (∃ fault, m.step = .error fault ∧ step m = .ok (.error fault)) ∨
      ∃ m' s, m.step = .ok (m', s) ∧
        (m.Counts s → step m = .ok (.ok (m', s))) ∧ (¬ m.Counts s → step m = .error .overflow) := by
  unfold step Machine.step
  rw [cpuStep_eq h, ok_bind]
  cases hcpu : m.cpu.step m.bus with
  | error fault => exact .inl ⟨fault, rfl, rfl⟩
  | ok r =>
    have hstep : m.step = .ok (Machine.elapse { m with cpu := r.cpu, bus := r.bus } r.cycles) := by
      rw [Machine.step, hcpu]
    have hle : r.cycles ≤ 6 := (Machine.stepped_of_step hstep).cycles_le
    -- the instruction itself does not touch the counters
    refine .inr ⟨_, _, rfl, ?_, ?_⟩
    · intro hcounts
      simp only
      rw [elapse_eq (m := { m with cpu := r.cpu, bus := r.bus }) hle
        ⟨hcounts.cycles, hcounts.frames⟩]
      rfl
    · intro hfull
      simp only
      rw [elapse_overflow (m := { m with cpu := r.cpu, bus := r.bus }) hle
        fun hcounts => hfull ⟨hcounts.cycles, hcounts.frames⟩]
      rfl

/-- **A step fails a check if and only if a counter has no room for it.** -/
theorem step_eq_error_iff {m : Machine} (h : m.bus.eram.size = Bus.eramSize) {trap : Trap} :
    step m = .error trap ↔
      trap = .overflow ∧ ∃ m' s, m.step = .ok (m', s) ∧ ¬ m.Counts s := by
  rcases step_cases h with ⟨fault, hs, hstep⟩ | ⟨m', s, hs, hroom, hfull⟩
  · rw [hstep, hs]
    simp
  · by_cases hcounts : m.Counts s
    · rw [hroom hcounts, hs]
      simp [hcounts]
    · rw [hfull hcounts, hs]
      simp [hcounts, eq_comm]

/-- **A step does not fail a check** while the counters have room. -/
theorem step_eq {m : Machine} (h : m.bus.eram.size = Bus.eramSize) (hroom : m.Roomy) :
    step m = .ok m.step := by
  rcases step_cases h with ⟨fault, hs, hstep⟩ | ⟨m', s, hs, hstep, -⟩
  · rw [hstep, hs]
  · rw [hstep (hroom.counts (Machine.stepped_of_step hs).cycles_le), hs]

/-- **A run does not fail a check** while the counters have room. -/
theorem runFrom_eq {m : Machine} (h : m.Intact) {n : Nat}
    (hroom : ∀ k < n, (m.run k).machine.Roomy) (done : Nat) :
    runFrom done n m = .ok (m.runFrom done n) := by
  induction n generalizing m done with
  | zero => rfl
  | succ n ih =>
    have hfirst : m.Roomy := hroom 0 (Nat.zero_lt_succ n)
    rw [runFrom, step_eq h.eram hfirst, ok_bind, Machine.runFrom]
    cases hstep : m.step with
    | error fault => rfl
    | ok r =>
      have hnext : ∀ k < n, (r.1.run k).machine.Roomy := by
        intro k hk
        rw [← (Machine.run_succ hstep k).1]
        exact hroom (k + 1) (Nat.succ_lt_succ hk)
      exact ih (h.step hstep) hnext (done + 1)

/-! ### Calls -/

theorem stepOnce_eq {m : Machine} (h : m.bus.eram.size = Bus.eramSize) (hroom : m.Roomy) :
    stepOnce m = .ok m.stepOnce.2 := by
  rw [stepOnce, step_eq h hroom, ok_bind, Machine.stepOnce]
  cases m.step <;> rfl

/-- **A call does not fail a check** while the counters have room for its steps. -/
theorem perform_eq {m : Machine} (h : m.Intact) {c : HostCall} (hroom : m.RoomFor (.call c)) :
    perform m c = .ok (m.perform c) := by
  cases c with
  | step => exact stepOnce_eq h.eram hroom
  | runFrame =>
    rw [perform, runFrom_eq h hroom, ok_bind]
    rfl
  | reset => exact reset_eq m
  | skipBoot => exact skipBoot_eq m
  | load image =>
    rw [perform, loadRom_eq, ok_bind]
    rfl
  | loadBoot image =>
    rw [perform, loadBoot_eq, ok_bind]
    rfl
  | write addr v =>
    rw [perform, write_eq h.eram, ok_bind]
    rfl
  | write16 addr w =>
    rw [perform, write16_eq h.eram, ok_bind]
    rfl
  | writeMemory addr v =>
    rw [perform, writeMemory_eq, ok_bind]
    rfl
  | writeSprites i v => rfl
  | writeRegister addr v => rfl
  | tick ticks =>
    rw [perform, tick_eq, ok_bind]
    rfl
  | decodeTiles =>
    rw [perform, decodeTiles_eq, ok_bind, Machine.perform, Video.decodeTiles_eq]
    rfl

/-- **Any input can be restored or refused.** -/
theorem restore_eq (m : Machine) (input : List UInt8) :
    restore m input = .ok (m.restore input) := by
  rw [restore, Machine.restore]
  cases Snapshot.parse input with
  | error e => rfl
  | ok s =>
    simp only [decodeTiles_eq, ok_bind, Snapshot.complete, Video.decodeTiles_eq]
    rfl

theorem act_eq {m : Machine} (h : m.Intact) {a : Action} (hroom : m.RoomFor a) :
    act m a = .ok (m.act a) := by
  cases a with
  | call c => exact perform_eq h hroom
  | restore input =>
    rw [act, restore_eq, ok_bind, Machine.act]
    cases hr : m.restore input with
    | ok m' =>
      rw [Machine.afterRestore_of_ok hr]
      rfl
    | error e =>
      rw [Machine.afterRestore_of_error hr]
      rfl

end Checked

namespace Machine

theorem Intact.act {m : Machine} (h : m.Intact) (a : Action) : (m.act a).Intact := by
  cases a with
  | call c => exact h.perform c
  | restore input => exact h.afterRestore input

theorem foldlM_act {m : Machine} (h : m.Intact) {actions : List Action}
    (hroom : m.RoomForAll actions) :
    actions.foldlM Checked.act m = .ok (actions.foldl act m) ∧ (actions.foldl act m).Intact := by
  induction actions generalizing m with
  | nil => exact ⟨rfl, h⟩
  | cons a actions ih =>
    rw [List.foldlM_cons, Checked.act_eq h hroom.1, Checked.ok_bind]
    exact ih (h.act a) hroom.2

/-- **No check ever fails.**  Whatever a host does to a new machine, and whatever bytes it restores,
every calculation stays within its types and its memories as long as the counters do; so does reading
any address afterwards, and drawing a line or looking up a bitmap whatever the video unit holds. -/
theorem session_untrapped {config : Config} {actions : List Action}
    (hroom : (create config).RoomForAll actions) :
    Checked.session config actions = .ok (session config actions) ∧
      (∀ addr, Checked.read (session config actions).bus addr =
        .ok ((session config actions).bus.read addr)) ∧
      (∀ addr, Checked.read16 (session config actions).bus addr =
        .ok ((session config actions).bus.read16 addr)) ∧
      ∀ v : Video, Checked.drawLine v = .ok v.drawLine ∧
        ∀ entry, Checked.tileBytes v entry = .ok (v.tileBytes entry) := by
  obtain ⟨hfold, hintact⟩ := foldlM_act (intact_reset _) hroom
  refine ⟨?_, Checked.read_eq hintact.eram, Checked.read16_eq hintact.eram,
    fun v => ⟨Checked.drawLine_eq v, Checked.tileBytes_eq v⟩⟩
  rw [Checked.session, Checked.create_eq, Checked.ok_bind]
  exact hfold

/-- A machine with a boot program of two instructions. -/
def shortBoot : Config := { stepsPerFrame := 2, bootRom := some [0x3E, 0x91, 0xE0, 0x40] }

/-- The program is run, an input is refused, and a word is written to the last and the first
address. -/
def shortSession : List Action := [.call .runFrame, .restore [0x44], .call (.write16 0xFFFF 0x1234)]

theorem session_untrapped_shortBoot :
    (create shortBoot).RoomForAll shortSession ∧
      Checked.session shortBoot shortSession = .ok (session shortBoot shortSession) ∧
      Checked.read (session shortBoot shortSession).bus 0xFFFF = .ok 0x34 := by
  have hroom : (create shortBoot).RoomForAll shortSession := by
    refine ⟨fun n hn => ?_, trivial, trivial, trivial⟩
    have hcases : n = 0 ∨ n = 1 := by
      have hlt : n < 2 := hn
      omega
    rcases hcases with rfl | rfl
    · exact ⟨by decide +kernel, by decide +kernel⟩
    · exact ⟨by decide +kernel, by decide +kernel⟩
  obtain ⟨hsession, hread, -⟩ := session_untrapped hroom
  have hbyte : (session shortBoot shortSession).bus.read 0xFFFF = 0x34 := by decide +kernel
  exact ⟨hroom, hsession, (hread 0xFFFF).trans (congrArg Except.ok hbyte)⟩

end Machine

end DotMatrix
