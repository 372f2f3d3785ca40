import DotMatrix.Machine

/-!
# The journal

A host can ask what happened.  Events are values; their texts come from one function.

* `Event` — what can happen, with `Event.level` and `Event.message`.
* `Journal.step` and its companions — operations of the machine together with their events, in the
  order in which they happen.

Principal results: `Journal.step_snd`, `Journal.run_snd` — an operation with its events does what it
does without them.
-/

set_option autoImplicit false

namespace DotMatrix

/-- How much an event matters. -/
inductive Level where
  | warn
  | debug
  | trace
  deriving DecidableEq, Repr

namespace Level

/-- Position in the order of detail: the higher, the more is told. -/
def detail : Level → Nat
  | warn => 0
  | debug => 1
  | trace => 2

/-- How a level is written. -/
def name : Level → String
  | warn => "WARN"
  | debug => "DEBUG"
  | trace => "TRACE"

end Level

/-- Something that happened. -/
inductive Event where
  /-- A cartridge image was longer than the cartridge. -/
  | romTruncated (size : Nat)
  /-- A boot image was longer than the boot ROM. -/
  | bootRomTruncated (size : Nat)
  /-- A cartridge image was loaded; so many bytes of it fit. -/
  | romLoaded (size : Nat)
  /-- The boot ROM no longer hides the cartridge. -/
  | bootRomUnmapped
  | cpuReset
  | machineReset
  /-- A step was refused. -/
  | refused (fault : Fault)
  /-- An instruction was carried out. -/
  | executed (pc : UInt16) (opcode : Opcode) (instr : Instr) (cycles : Nat)
  | verticalBlank
  | frameComplete (frame : UInt64)
  | stateSaved (cycle : UInt64)
  | stateLoaded (cycle : UInt64)
  deriving DecidableEq, Repr

namespace Event

/-- How much the event matters. -/
def level : Event → Level
  | romTruncated _ => .warn
  | bootRomTruncated _ => .warn
  | refused _ => .warn
  | executed _ _ _ _ => .trace
  | verticalBlank => .trace
  | frameComplete _ => .trace
  | _ => .debug

/-- The event in words. -/
def message : Event → String
  | romTruncated size => s!"ROM image is {size} bytes, truncating to 32768"
  | bootRomTruncated size => s!"Boot ROM image is {size} bytes, truncating to 256"
  | romLoaded size => s!"Loaded {size} bytes of ROM"
  | bootRomUnmapped => "Boot ROM unmapped"
  | cpuReset => "CPU reset"
  | machineReset => "Machine reset"
  | refused (.unimplemented op pc) =>
    "Unimplemented opcode " ++ Hex.word op.key ++ " at " ++ Hex.word pc
  | executed pc op instr cycles =>
    Hex.word pc ++ ": " ++ Hex.word op.key ++ " " ++ instr.mnemonic ++ s!" ({cycles} cycles)"
  | verticalBlank => "GPU entered VBlank, frame complete"
  | frameComplete frame => s!"Frame {frame.toNat} complete"
  | stateSaved cycle => s!"Saved state at cycle {cycle.toNat}"
  | stateLoaded cycle => s!"Loaded state at cycle {cycle.toNat}"

/-- A line of the journal: level and text. -/
def line (e : Event) : String := e.level.name ++ " " ++ e.message

end Event

namespace Journal

/-- Inserting a cartridge. -/
def load (image : List UInt8) : List Event :=
  (if 0x8000 < image.length then [.romTruncated image.length] else []) ++
    [.romLoaded (min image.length 0x8000)]

/-- Installing a boot ROM. -/
def loadBoot (image : List UInt8) : List Event :=
  if 0x100 < image.length then [.bootRomTruncated image.length] else []

/-- Resetting a machine. -/
def reset : List Event := [.cpuReset, .machineReset]

/-- Making a machine. -/
def create (config : Config) : List Event := loadBoot (config.bootRom.getD []) ++ reset

/-- Writing to the bus, given whether the boot ROM was mapped before and after. -/
def unmap (before after : Bool) : List Event :=
  if before && !after then [.bootRomUnmapped] else []

/-- Letting time pass in the video unit, given whether the picture was completed. -/
def tick (complete : Bool) : List Event := if complete then [.verticalBlank] else []

/-- A step of the CPU alone, with its events. -/
def cpuStep (c : Cpu) (b : Bus) : List Event × Except Fault Outcome :=
  let pc := c.pc
  let mapped := b.bootMapped
  let op := Opcode.fetch b pc
  match op.decode? with
  | none => ([.refused (.unimplemented op pc)], .error (.unimplemented op pc))
  | some i =>
    let r := c.carryOut b i
    (unmap mapped r.bus.bootMapped ++ [.executed pc op i r.cycles], .ok r)

/-- A step of the machine, with its events. -/
def step (m : Machine) : List Event × Except Fault (Machine × Step) :=
  let r := cpuStep m.cpu m.bus
  match r.2 with
  | .error fault => (r.1, .error fault)
  | .ok o =>
    let s := Machine.elapse { m with cpu := o.cpu, bus := o.bus } o.cycles
    let done := if s.2.frameComplete then [.verticalBlank, .frameComplete s.1.frames] else []
    (r.1 ++ done, .ok s)

/-- Steps of the machine, with their events after those in `log`. -/
def runFrom (log : Array Event) (done : Nat) : Nat → Machine → Array Event × Run
  | 0, m => (log, { machine := m, steps := done, fault := none })
  | n + 1, m =>
    match step m with
    | (events, .error fault) =>
      (log.appendList events, { machine := m, steps := done, fault := some fault })
    | (events, .ok (next, _)) => runFrom (log.appendList events) (done + 1) n next

/-- Up to `n` steps of the machine, with their events. -/
def run (m : Machine) (n : Nat) : Array Event × Run := runFrom #[] 0 n m

theorem cpuStep_snd (c : Cpu) (b : Bus) : (cpuStep c b).2 = c.step b := by
  simp only [cpuStep, Cpu.step]
  cases (Opcode.fetch b c.pc).decode? <;> rfl

theorem step_snd (m : Machine) : (step m).2 = m.step := by
  unfold step Machine.step
  simp only [cpuStep_snd]
  cases m.cpu.step m.bus <;> rfl

theorem runFrom_snd (n : Nat) : ∀ (log : Array Event) (done : Nat) (m : Machine),
    (runFrom log done n m).2 = Machine.runFrom done n m := by
  induction n with
  | zero => intro log done m; rfl
  | succ n ih =>
    intro log done m
    have h := step_snd m
    unfold runFrom Machine.runFrom
    rw [← h]
    rcases step m with ⟨events, r⟩
    cases r with
    | error fault => rfl
    | ok p => exact ih _ _ _

/-- A run with its events is the run. -/
theorem run_snd (m : Machine) (n : Nat) : (run m n).2 = m.run n := runFrom_snd n _ _ _

end Journal

end DotMatrix
