import DotMatrix.Cpu.Exec
import DotMatrix.Video.Timing

/-!
# The machine

CPU and bus, driven by one clock: each step carries out one instruction and then lets the video
unit catch up with the time it took.

* `Machine` — the whole state, with two counters and the settings it was made with.
* `Machine.create`, `Machine.reset`, `Machine.skipBoot` — how a machine starts.
* `Machine.step` — one instruction; `Machine.run` and `Machine.runFrame` — many.
-/

set_option autoImplicit false

namespace DotMatrix

/-- Settings of a machine. -/
structure Config where
  /-- Steps of `Machine.runFrame`. -/
  stepsPerFrame : Nat := 60000
  /-- A reset starts the boot program; otherwise it leaves the machine as the boot program would. -/
  startInBoot : Bool := true
  /-- Image of the boot ROM, if there is one. -/
  bootRom : Option (List UInt8) := none

/-- A machine. -/
structure Machine where
  cpu : Cpu
  bus : Bus
  config : Config
  /-- Machine cycles since the reset. -/
  cycles : UInt64
  /-- Pictures completed since the reset. -/
  frames : UInt64

/-- What a step did. -/
structure Step where
  /-- Machine cycles of the instruction. -/
  cycles : Nat
  /-- The picture was completed. -/
  frameComplete : Bool
  deriving DecidableEq, Repr

/-- Result of several steps. -/
structure Run where
  machine : Machine
  /-- Steps that succeeded. -/
  steps : Nat
  /-- Why the run ended early, if it did. -/
  fault : Option Fault

namespace Machine

/-- Clock ticks of a machine cycle. -/
def ticksPerCycle : Nat := 4

/-- Puts registers and video unit in the state in which the boot program leaves them when it hands
over to the cartridge. -/
def skipBoot (m : Machine) : Machine :=
  let cpu := { m.cpu with pc := 0x100, sp := 0xFFFE }
  let cpu := ((cpu.set16 .af 0x01B0).set16 .bc 0x0013).set16 .de 0x00D8
  let regs := { m.bus.video.regs with lcdc := 0x91, bgp := 0xFC }
  { m with
    cpu := cpu.set16 .hl 0x014D
    bus := { m.bus with bootMapped := false, video := { m.bus.video with regs := regs } } }

/-- Switches power off and on again.  The images and the settings stay. -/
def reset (m : Machine) : Machine :=
  let m := { m with cpu := Cpu.powerOn, bus := m.bus.reset, cycles := 0, frames := 0 }
  if m.config.startInBoot then m else m.skipBoot

/-- A new machine, with a boot ROM if the settings have one and without a cartridge. -/
def create (config : Config) : Machine :=
  reset
    { cpu := Cpu.powerOn
      bus := match config.bootRom with
        | none => Bus.powerOn
        | some image => Bus.powerOn.loadBoot image
      config := config
      cycles := 0
      frames := 0 }

/-- Inserts a cartridge with the given image. -/
def load (m : Machine) (image : List UInt8) : Machine := { m with bus := m.bus.loadRom image }

/-- Lets the time of some machine cycles pass in the video unit. -/
def elapse (m : Machine) (cycles : Nat) : Machine × Step :=
  let r := m.bus.video.tick (UInt32.ofNat (ticksPerCycle * cycles))
  ({ m with
      bus := { m.bus with video := r.1 }
      cycles := m.cycles + UInt64.ofNat cycles
      frames := if r.2 then m.frames + 1 else m.frames },
    { cycles := cycles, frameComplete := r.2 })

/-- Carries out one instruction.  If there is none at the program counter, the machine stays as it
is. -/
def step (m : Machine) : Except Fault (Machine × Step) :=
  match m.cpu.step m.bus with
  | .error fault => .error fault
  | .ok r => .ok (elapse { m with cpu := r.cpu, bus := r.bus } r.cycles)

/-- Makes up to `n` steps, and none after one that is refused.  `done` steps were made before. -/
def runFrom (done : Nat) : Nat → Machine → Run
  | 0, m => { machine := m, steps := done, fault := none }
  | n + 1, m =>
    match m.step with
    | .error fault => { machine := m, steps := done, fault := some fault }
    | .ok (next, _) => runFrom (done + 1) n next

/-- Makes up to `n` steps, and none after one that is refused. -/
def run (m : Machine) (n : Nat) : Run := runFrom 0 n m

/-- Makes as many steps as the settings say. -/
def runFrame (m : Machine) : Run := m.run m.config.stepsPerFrame

end Machine

end DotMatrix
